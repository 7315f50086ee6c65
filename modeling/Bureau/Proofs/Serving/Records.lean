import Bureau.Proofs.Document.RoundTrip
import Bureau.Proofs.Serving.Run
import Bureau.Proofs.Time.Instant

/-!
The desk and its records on a plain store: what each query and each piece of pricing finds and
leaves. Rates are found as long as they can be read and are valid; a new one is asked for and put
on record.
-/

set_option autoImplicit false

namespace Bureau

theorem Desk.rate_of_withMargin {d : Desk} {rate : Rate} {shown : ExchangeRate}
    (h : d.withMargin rate = .ok shown) : shown.rate = rate := by
  obtain ⟨buyRate, -, h⟩ := Attempt.exists_of_bind_eq_ok h
  cases h
  rfl

/-! ### Ages of rates -/

/-- A rate made at a time and quoted for a length of time. -/
structure Rate.Stamped (r : Rate) (now : Instant) (validFor : Duration) : Prop where
  fetchedAt_eq : r.fetchedAt = ↑now
  validUntil_eq : ∃ last, now.add? validFor = some last ∧ r.validUntil = ↑last

def Rate.age (r : Rate) (now : Instant) : Duration := (now : Timestamp).since r.fetchedAt

namespace Rate.Stamped

variable {r : Rate} {made now : Instant} {validFor life : Duration}

theorem age_eq (h : r.Stamped made validFor) : r.age now = now.since made := by
  rw [age, h.fetchedAt_eq, Timestamp.since_ofInstant]

theorem isValid_eq (h : r.Stamped made validFor) :
    r.isValid now = decide (r.age now < validFor) := by
  obtain ⟨last, hlast, huntil⟩ := h.validUntil_eq
  rw [Instant.add?_eq_some_iff] at hlast
  have hiff : r.age now < validFor ↔ ¬ last.nanos ≤ now.nanos := by
    rw [h.age_eq]
    change now.nanos - made.nanos < validFor.nanos ↔ _
    omega
  simp only [isValid, huntil, Timestamp.isReached_ofInstant, hiff, decide_not]

private theorem lt_expiry_iff (h : r.Stamped made validFor) {expiry : Instant}
    (hexpiry : made.add? life = some expiry) : now < expiry ↔ r.age now < life := by
  rw [Instant.add?_eq_some_iff] at hexpiry
  rw [h.age_eq]
  change now.nanos < expiry.nanos ↔ now.nanos - made.nanos < life.nanos
  omega

end Rate.Stamped

theorem Duration.lt_min_iff {a b c : Duration} : a < b.min c ↔ a < b ∧ a < c := by
  unfold min
  change a.nanos < (if c.nanos < b.nanos then c else b).nanos ↔
    a.nanos < b.nanos ∧ a.nanos < c.nanos
  split <;> omega

theorem Duration.min_le_right (a b : Duration) : a.min b ≤ b := by
  unfold min
  split_ifs with hless
  · exact Int.le_refl _
  · exact Int.not_lt.mp hless

namespace RunState

variable {μ : Type}

def assign (f : RunState PlainStore μ) (key : String) (e : Option Entry) : RunState PlainStore μ :=
  { f with store := { f.store with map := f.store.map.assign key e } }

theorem assign_self (f : RunState PlainStore μ) (key : String) (e : Option Entry) :
    (f.assign key e).store.map key = e := f.store.map.assign_self key e

theorem assign_of_ne (f : RunState PlainStore μ) {key other : String} (hne : other ≠ key)
    (e : Option Entry) : (f.assign key e).store.map other = f.store.map other := if_neg hne

def refuse (f : RunState PlainStore μ) (e : StoreError) : RunState PlainStore μ :=
  { f with ledger := .refused e :: f.ledger }

def live? (f : RunState PlainStore μ) (key : String) (now : Instant) : Option Entry :=
  f.store.map.live? key now

/-- The rate on record for a pair, if it can be read and is valid. -/
def kept? (f : RunState PlainStore μ) (pair : CurrencyPair) (now : Instant) : Option Rate :=
  ((f.live? (Records.rateKey pair) now).bind fun e => Document.read? e.value).filter
    (·.isValid now)

theorem kept?_of_entry {f : RunState PlainStore μ} {pair : CurrencyPair} {r : Rate}
    {made expiry : Instant} {life validFor : Duration} (hstamp : r.Stamped made validFor)
    (hexpiry : made.add? life = some expiry)
    (hentry : f.store.map (Records.rateKey pair) = some ⟨Document.write r, expiry⟩)
    (now : Instant) :
    f.kept? pair now = if r.age now < life.min validFor then some r.plain else none := by
  have hlive : (Entry.mk (Document.write r) expiry).isLive now = decide (r.age now < life) := by
    rw [Bool.eq_iff_iff, Entry.isLive_iff, decide_eq_true_eq]
    exact hstamp.lt_expiry_iff hexpiry
  have hvalid : r.plain.isValid now = decide (r.age now < validFor) := hstamp.isValid_eq
  rw [kept?, live?, TimedMap.live?, hentry, Option.filter_some, hlive]
  by_cases hlife : r.age now < life
  · rw [if_pos (decide_eq_true hlife), Option.bind_some, (Document.keeps_rate r).read?_write,
      Option.filter_some, hvalid]
    simp only [decide_eq_true_eq, Duration.lt_min_iff, hlife, true_and]
  · rw [if_neg (by rwa [decide_eq_true_eq])]
    simp only [Duration.lt_min_iff, hlife, false_and, if_false]
    rfl

end RunState

namespace MarketDesk

open Attempt

variable {μ κ α β : Type} (h : MarketDesk μ κ) (now : Instant) (f : RunState PlainStore μ)

/-! ### Store calls -/

@[simp] theorem call_get (key : String) :
    call now (.get key) f = (.ok (.ok ((f.live? key now).map (·.value))), f) := rfl

@[simp] theorem call_delete (key : String) :
    call now (.delete key) f = (.ok (.ok ()), f.assign key none) := rfl

@[simp] theorem call_ping : call now .ping f = (.ok (.ok ()), f) := rfl

/-- What can come of writing a text: it is removed for want of time, refused for want of room,
written with its expiry, or lost in a crash. -/
theorem call_set_cases (key value : String) (ttl : Duration) :
    (ttl ≤ Duration.zero ∧
      call now (.set key value ttl) f = (.ok (.ok ()), f.assign key none)) ∨
    (∃ e, call now (.set key value ttl) f = (.ok (.error e), f.refuse e)) ∨
    (¬ ttl ≤ Duration.zero ∧ ∃ expiry, now.add? ttl = some expiry ∧
      call now (.set key value ttl) f = (.ok (.ok ()), f.assign key (some ⟨value, expiry⟩))) ∨
    (¬ ttl ≤ Duration.zero ∧ now.add? ttl = none ∧
      call now (.set key value ttl) f = (.error .calendar, f)) := by
  simp only [call, Shelf.answer, runOn_ofRun, TimedMap.answer]
  by_cases httl : ttl ≤ Duration.zero
  · exact .inl ⟨httl, by rw [if_pos httl]; rfl⟩
  · simp only [if_neg httl]
    split
    · exact .inr (.inl ⟨_, rfl⟩)
    · cases hadd : now.add? ttl with
      | some expiry => exact .inr (.inr (.inl ⟨httl, expiry, rfl, rfl⟩))
      | none => exact .inr (.inr (.inr ⟨httl, rfl, rfl⟩))

theorem call_set_of_room {key value : String} {ttl : Duration} {expiry : Instant}
    (hroom : f.store.map.count now < f.store.capacity) (httl : Duration.zero < ttl)
    (hexpiry : now.add? ttl = some expiry) :
    call now (.set key value ttl) f = (.ok (.ok ()), f.assign key (some ⟨value, expiry⟩)) := by
  have hspace : ¬ (f.store.map.live? key now = none ∧ f.store.capacity ≤ f.store.map.count now) :=
    fun h => absurd hroom (Nat.not_lt.mpr h.2)
  have httl' : ¬ ttl ≤ Duration.zero := Int.not_le.mpr httl
  simp only [call, Shelf.answer, runOn_ofRun, TimedMap.answer, if_neg httl', if_neg hspace, hexpiry]
  rfl

theorem call_replace {key value : String} {ttl : Duration} {e : Entry} {expiry : Instant}
    (hlive : f.live? key now = some e) (httl : ¬ ttl ≤ Duration.zero)
    (hexpiry : now.add? ttl = some expiry) :
    call now (.replace key value ttl) f =
      (.ok (.ok true), f.assign key (some ⟨value, expiry⟩)) := by
  rw [RunState.live?] at hlive
  simp only [call, Shelf.answer, runOn_ofRun, TimedMap.answer, hlive, if_neg httl, hexpiry]
  rfl

/-! ### Queries -/

def found [Document α] (key : String) : Option String → Except FxError (Option α)
  | none => .ok none
  | some text =>
      match Document.read? text with
      | some a => .ok (some a)
      | none => .error (.unreadable key)

theorem inquire_find [Document α] (key : String) :
    inquire now (Records.find key : ExceptT FxError Query (Option α)).run f =
      (.ok (found key ((f.live? key now).map (·.value))), f) := by
  rw [Records.find, inquire_run_bind, Records.findText, inquire_run_liftM_bind, inquire_ask,
    call_get, andThen_ok]
  cases f.live? key now with
  | none => rfl
  | some e =>
      change inquire now (match Document.read? e.value with
        | some a => return some a
        | none => throw (.unreadable key) : ExceptT FxError Query (Option α)).run f = _
      rw [Option.map_some, found]
      cases (Document.read? e.value : Option α) <;> rfl

theorem inquire_save [Document α] (key : String) (a : α) (ttl : Duration) :
    inquire now (Records.save key a ttl).run f =
      andThen (call now (.set key (Document.write a) ttl) f)
        fun reply f => (.ok (reply.mapError .ofStore), f) := by
  rw [Records.save, inquire_run_liftM_bind, inquire_ask]
  congr 1
  funext reply f
  cases reply <;> rfl

/-! ### Rates -/

theorem serve_rateOnRecord (pair : CurrencyPair) :
    h.serve now (h.desk.rateOnRecord pair) f = (.ok (f.kept? pair now), f) := by
  rw [Desk.rateOnRecord, serve_bind, serve_consult, Records.findRate, inquire_find, andThen_ok,
    RunState.kept?]
  cases f.live? (Records.rateKey pair) now with
  | none => rfl
  | some e =>
      rw [Option.map_some, Option.bind_some, found]
      cases hread : (Document.read? e.value : Option Rate) with
      | none => rfl
      | some rate =>
          change (Except.ok (if rate.isValid now then some rate else none), f) = _
          rw [Option.filter_some]

noncomputable def shelve (rate : Rate) : Except Crash Unit × RunState PlainStore μ :=
  andThen
    (call now (.set (Records.rateKey rate.pair) (Document.write rate) h.desk.policy.rateLife) f)
    fun _ f => (.ok (), f)

theorem shelve_of_room {rate : Rate} {expiry : Instant}
    (hroom : f.store.map.count now < f.store.capacity)
    (hlife : Duration.zero < h.desk.policy.rateLife)
    (hexpiry : now.add? h.desk.policy.rateLife = some expiry) :
    h.shelve now f rate =
      (.ok (), f.assign (Records.rateKey rate.pair) (some ⟨Document.write rate, expiry⟩)) := by
  rw [shelve, call_set_of_room now f hroom hlife hexpiry]
  rfl

theorem serve_recordRate (rate : Rate) :
    h.serve now (h.desk.recordRate rate) f = h.shelve now f rate := by
  rw [Desk.recordRate, serve_bind, serve_consult, Records.saveRate, inquire_save, andThen_andThen]
  rfl

noncomputable def buy (pair : CurrencyPair) :
    Except Crash (Except FxError Rate) × RunState PlainStore μ :=
  andThen (h.ask now pair f) (orError fun rate f =>
    andThen (h.shelve now f rate) fun _ f => (.ok (.ok rate), f))

theorem serve_marketRate (pair : CurrencyPair) :
    h.serve now (h.desk.marketRate pair).run f =
      match f.kept? pair now with
      | some rate => (.ok (.ok rate), f)
      | none => h.buy now f pair := by
  rw [Desk.marketRate, serve_run_lift_bind, serve_rateOnRecord, andThen_ok]
  cases f.kept? pair now with
  | some rate => rfl
  | none =>
      rw [serve_run_lift_bind, Program.rateOf, serve_price]
      simp only [serve_done]
      rw [andThen_andThen, buy]
      congr 1
      funext reply f
      cases reply with
      | error e => rfl
      | ok rate =>
          change
            h.serve now (ExceptT.lift (h.desk.recordRate rate) >>= fun _ => pure rate).run f = _
          rw [serve_run_lift_bind, serve_recordRate]
          rfl

theorem serve_ratesOnRecord (pairs : List CurrencyPair) :
    h.serve now (h.desk.ratesOnRecord pairs) f =
      (.ok (pairs.map fun pair => (pair, f.kept? pair now)), f) := by
  induction pairs with
  | nil => rfl
  | cons pair rest ih =>
      rw [Desk.ratesOnRecord, serve_bind, serve_rateOnRecord, andThen_ok, serve_bind, ih]
      rfl

noncomputable def shelveAll :
    List Rate → RunState PlainStore μ → Except Crash Unit × RunState PlainStore μ
  | [], f => (.ok (), f)
  | rate :: rest, f => andThen (h.shelve now f rate) fun _ f => shelveAll rest f

theorem serve_recordRates (rates : List Rate) :
    h.serve now (h.desk.recordRates rates) f = h.shelveAll now rates f := by
  induction rates generalizing f with
  | nil => rfl
  | cons rate rest ih =>
      rw [Desk.recordRates, serve_bind, serve_recordRate, shelveAll]
      congr 1
      funext _ f
      exact ih f

/-- Rates from the market for a batch of pairs, put on record; an empty batch is not asked for. -/
noncomputable def buyAll (pairs : List CurrencyPair) :
    Except Crash (List Rate) × RunState PlainStore μ :=
  if pairs.isEmpty then (.ok [], f)
  else
    andThen (h.askAll now pairs f) fun rates f =>
      andThen (h.shelveAll now rates f) fun _ f => (.ok rates, f)

theorem serve_newRates (pairs : List CurrencyPair) :
    h.serve now (h.desk.newRates pairs) f = h.buyAll now f pairs := by
  rw [Desk.newRates, buyAll]
  split
  · rfl
  · rw [serve_bind, Program.ratesOf, serve_priceAll, andThen_andThen]
    congr 1
    funext rates f
    rw [serve_done, andThen_ok, serve_bind, serve_recordRates]
    rfl

def missing (pairs : List CurrencyPair) : List CurrencyPair :=
  pairs.eraseDups.filter fun pair => (f.kept? pair now).isNone

theorem mem_missing {pairs : List CurrencyPair} {pair : CurrencyPair} :
    pair ∈ missing now f pairs ↔ pair ∈ pairs ∧ f.kept? pair now = none := by
  rw [missing, List.mem_filter, List.mem_eraseDups, Option.isNone_iff_eq_none]

theorem nodup_eraseDups : ∀ pairs : List CurrencyPair, pairs.eraseDups.Nodup
  | [] => .nil
  | pair :: rest => by
      have hshort := List.length_filter_le (fun other => !other == pair) rest
      rw [List.eraseDups_cons, List.nodup_cons, List.mem_eraseDups, List.mem_filter]
      refine ⟨?_, nodup_eraseDups _⟩
      intro hmem
      rw [beq_self_eq_true] at hmem
      cases hmem.2
termination_by pairs => pairs.length
decreasing_by exact Nat.lt_succ_of_le hshort

theorem nodup_missing (pairs : List CurrencyPair) : (missing now f pairs).Nodup :=
  (nodup_eraseDups pairs).filter _

theorem missing_singleton (pair : CurrencyPair) :
    missing now f [pair] = if (f.kept? pair now).isNone then [pair] else [] := by
  rw [missing, List.eraseDups_cons, List.filter_nil, List.eraseDups_nil, List.filter_singleton,
    Bool.cond_eq_ite]

def known (pairs : List CurrencyPair) : List (CurrencyPair × Option Rate) :=
  pairs.eraseDups.map fun pair => (pair, f.kept? pair now)

theorem serve_rates (pairs : List CurrencyPair) :
    h.serve now (h.desk.rates pairs) f =
      andThen (h.buyAll now f (missing now f pairs)) fun new g =>
        ((pairs.filterMap (Desk.pick? new (known now f pairs))).mapM h.desk.withMargin, g) := by
  have hmissing : ((known now f pairs).filter (·.2.isNone)).map (·.1) = missing now f pairs := by
    simp only [known, missing, List.filter_map, List.map_map]
    exact List.map_id _
  rw [Desk.rates, serve_bind, serve_ratesOnRecord, andThen_ok, serve_bind]
  change andThen
    (h.serve now (h.desk.newRates (((known now f pairs).filter (·.2.isNone)).map (·.1))) f) _ = _
  rw [hmissing, serve_newRates]
  congr 1
  funext new g
  exact serve_lift h now _ g

/-! ### Prices -/

theorem serve_rate (pair : CurrencyPair) :
    h.serve now (h.desk.rate pair).run f =
      andThen (h.serve now (h.desk.marketRate pair).run f)
        (orError fun rate g => ((h.desk.withMargin rate).map .ok, g)) :=
  serveBy_rate (h.endsOnCrash_handler now) h.desk pair f

theorem serve_rate_of_kept {pair : CurrencyPair} {rate : Rate} {shown : ExchangeRate}
    (hkept : f.kept? pair now = some rate) (hmargin : h.desk.withMargin rate = .ok shown) :
    h.serve now (h.desk.rate pair).run f = (.ok (.ok shown), f) := by
  rw [serve_rate, serve_marketRate, hkept]
  simp only [andThen_ok, orError_ok, hmargin]
  rfl

theorem serve_rate_of_price {pair : CurrencyPair} {rate : Rate} {market : μ} {expiry : Instant}
    {shown : ExchangeRate} (hkept : f.kept? pair now = none)
    (hprice : (h.market.price pair now).runOn f.market = (.ok (.ok rate), market))
    (hroom : f.store.map.count now < f.store.capacity)
    (hlife : Duration.zero < h.desk.policy.rateLife)
    (hexpiry : now.add? h.desk.policy.rateLife = some expiry)
    (hmargin : h.desk.withMargin rate = .ok shown) :
    h.serve now (h.desk.rate pair).run f =
      (.ok (.ok shown), RunState.assign { f with market, ledger := .asked pair (.ok rate) :: f.ledger }
        (Records.rateKey rate.pair) (some ⟨Document.write rate, expiry⟩)) := by
  rw [serve_rate, serve_marketRate, hkept]
  simp only [buy, ask, hprice, andThen_ok, orError_ok]
  rw [h.shelve_of_room now { f with market, ledger := .asked pair (.ok rate) :: f.ledger } hroom
    hlife hexpiry]
  simp only [andThen_ok, orError_ok, hmargin]
  rfl

theorem serve_quote (pair : CurrencyPair) (amount : Decimal) :
    h.serve now (h.desk.quote pair amount).run f =
      match h.desk.corridorFor pair amount with
      | .error e => (.ok (.error e), f)
      | .ok corridor =>
          andThen (h.serve now (h.desk.rate pair).run f) (orError fun rate g =>
            andThen ((Desk.quoteAt corridor rate pair amount).run, g) (orError fun quote g =>
              (.ok (.ok (quote (h.ids g.minted))), g.minting))) :=
  serveBy_quote (h.endsOnCrash_handler now) h.desk pair amount f

end MarketDesk

end Bureau
