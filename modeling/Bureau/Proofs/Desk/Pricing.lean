import Bureau.Proofs.Serving.Locks
import Bureau.Proofs.Program.Keys

/-!
Requests that are priced: which pairs they need a rate of, what it means that an answer is priced
with a rate, and that every answer is priced with what the desk got for the pair. What a request
does besides leaves the records of rates and the market alone.
-/

set_option autoImplicit false

namespace Bureau

/-! ### The ledger -/

namespace Note

def rates : Note → List Rate
  | .asked _ (.ok rate) => [rate]
  | .asked _ (.error _) => []
  | .askedAll _ rates => rates.reverse
  | .refused _ => []

def pairs : Note → List CurrencyPair
  | .asked pair _ => [pair]
  | .askedAll pairs _ => pairs
  | .refused _ => []

def isRefusal : Note → Bool
  | .refused _ => true
  | _ => false

end Note

def ratesMade (ledger : List Note) : List Rate := ledger.flatMap (·.rates)

def lastMade? (pair : CurrencyPair) (ledger : List Note) : Option Rate :=
  (ratesMade ledger).find? (·.pair = pair)

theorem pair_of_find? {rates : List Rate} {pair : CurrencyPair} {r : Rate}
    (h : rates.find? (·.pair = pair) = some r) : r.pair = pair :=
  of_decide_eq_true (List.find?_some (p := fun x : Rate => decide (x.pair = pair)) h)

def timesAsked (pair : CurrencyPair) (ledger : List Note) : Nat :=
  (ledger.flatMap (·.pairs)).count pair

/-- Whether the store never refused anything. -/
def NeverRefused (ledger : List Note) : Prop := ∀ note ∈ ledger, note.isRefusal = false

theorem NeverRefused.of_suffix {ledger longer : List Note} (h : NeverRefused longer)
    (hsuffix : ledger <:+ longer) : NeverRefused ledger :=
  fun note hnote => h note (hsuffix.subset hnote)

/-! ### What is priced -/

namespace Request

/-- The one pair that a request needs a rate of: a rate is needed for a quote over an open corridor
and for a lock of a length that can be represented. -/
def single? (d : Desk) : Request → Option CurrencyPair
  | .rate pair => some pair
  | .quote pair amount => match d.corridorFor pair amount with
      | .ok _ => some pair
      | .error _ => none
  | .lock pair seconds => match d.policy.lockTerms.clampLength seconds with
      | .ok _ => some pair
      | .error _ => none
  | _ => none

def needs (d : Desk) : Request → List CurrencyPair
  | .rates pairs => pairs
  | r => (r.single? d).toList

theorem needs_eq_toList (d : Desk) {r : Request} (hbatch : ∀ pairs, r ≠ .rates pairs) :
    r.needs d = (r.single? d).toList := by
  cases r with
  | rates pairs => exact absurd rfl (hbatch pairs)
  | _ => rfl

/-- An answer priced with a rate for a pair: what is shown is the rate with its margin, or computed
from it. A lock that could not be put on record shows no rate. -/
def PricedWith (d : Desk) (pair : CurrencyPair) (rate : Rate) :
    Request → Except FxError Answer → Prop
  | .rate _, .ok (.rate shown) => d.withMargin rate = .ok shown
  | .rates _, .ok (.rates shown) =>
      ∃ r ∈ shown, d.withMargin rate = .ok r ∧ ∀ other ∈ shown, other.pair = pair → other = r
  | .quote pair amount, answer =>
      ∃ corridor r, d.corridorFor pair amount = .ok corridor ∧ d.withMargin rate = .ok r ∧
        match (Desk.quoteAt corridor r pair amount).run, answer with
        | .ok (.ok offer), .ok (.quote shown) => ∃ id, shown = offer id
        | .ok (.error e), .error shown => shown = e
        | _, _ => False
  | .lock _ _, .ok (.lock shown) => ∃ r, d.withMargin rate = .ok r ∧ shown.rate = some r
  | .lock _ _, .error _ => True
  | _, _ => False

end Request

def pairsNeeded {κ : Type} (d : Desk) (visits : List (Visit κ)) : Set CurrencyPair :=
  {pair | ∃ v ∈ visits, ∃ r, v.move = .request r ∧ pair ∈ r.needs d}

theorem Desk.rates_of_withMargin {d : Desk} {rates : List Rate} {shown : List ExchangeRate}
    (h : rates.mapM d.withMargin = .ok shown) :
    shown.map (·.rate) = rates ∧ ∀ r ∈ shown, d.withMargin r.rate = .ok r := by
  induction rates generalizing shown with
  | nil =>
      cases h
      exact ⟨rfl, fun r hr => absurd hr List.not_mem_nil⟩
  | cons rate rest ih =>
      rw [List.mapM_cons] at h
      obtain ⟨first, hfirst, h⟩ := Attempt.exists_of_bind_eq_ok h
      obtain ⟨others, hothers, h⟩ := Attempt.exists_of_bind_eq_ok h
      cases h
      obtain ⟨hrates, hmargins⟩ := ih hothers
      have hrate := Desk.rate_of_withMargin hfirst
      refine ⟨by rw [List.map_cons, hrate, hrates], ?_⟩
      intro r hr
      rcases List.mem_cons.mp hr with rfl | hr
      · rw [hrate]
        exact hfirst
      · exact hmargins r hr

/-! ### What pricing leaves alone -/

namespace RunState

variable {μ : Type}

/-- A later state with the same records of rates and the same market; the ledger has no more than
refusals added. -/
structure SamePrices (f g : RunState PlainStore μ) : Prop where
  rates_eq : ∀ pair, g.store.map (Records.rateKey pair) = f.store.map (Records.rateKey pair)
  market_eq : g.market = f.market
  ledger_eq : ∃ refusals : List StoreError, g.ledger = refusals.map .refused ++ f.ledger

theorem SamePrices.refl (f : RunState PlainStore μ) : f.SamePrices f := ⟨fun _ => rfl, rfl, [], rfl⟩

theorem SamePrices.trans {f g k : RunState PlainStore μ} (hfg : f.SamePrices g)
    (hgk : g.SamePrices k) : f.SamePrices k := by
  obtain ⟨first, hfirst⟩ := hfg.ledger_eq
  obtain ⟨second, hsecond⟩ := hgk.ledger_eq
  refine ⟨fun pair => (hgk.rates_eq pair).trans (hfg.rates_eq pair),
    hgk.market_eq.trans hfg.market_eq, second ++ first, ?_⟩
  rw [hsecond, hfirst, List.map_append, List.append_assoc]

theorem SamePrices.ledger_suffix {f g : RunState PlainStore μ} (h : f.SamePrices g) :
    f.ledger <:+ g.ledger := by
  obtain ⟨refusals, heq⟩ := h.ledger_eq
  rw [heq]
  exact List.suffix_append _ _

theorem SamePrices.ratesMade_eq {f g : RunState PlainStore μ} (h : f.SamePrices g) :
    ratesMade g.ledger = ratesMade f.ledger := by
  obtain ⟨refusals, hledger⟩ := h.ledger_eq
  have hnone : (refusals.map Note.refused).flatMap (·.rates) = [] := by
    rw [List.flatMap_map]
    exact List.flatMap_eq_nil_iff.mpr fun e he => rfl
  rw [hledger, ratesMade, List.flatMap_append, hnone, List.nil_append, ratesMade]

theorem SamePrices.timesAsked_eq {f g : RunState PlainStore μ} (h : f.SamePrices g)
    (pair : CurrencyPair) : timesAsked pair g.ledger = timesAsked pair f.ledger := by
  obtain ⟨refusals, hledger⟩ := h.ledger_eq
  have hnone : (refusals.map Note.refused).flatMap (·.pairs) = [] := by
    rw [List.flatMap_map]
    exact List.flatMap_eq_nil_iff.mpr fun e he => rfl
  rw [hledger, timesAsked, List.flatMap_append, hnone, List.nil_append, timesAsked]

private theorem samePrices_assign_lock (f : RunState PlainStore μ) (id : LockId) (e : Option Entry) :
    f.SamePrices (f.assign (Records.lockKey id) e) :=
  ⟨fun pair => f.assign_of_ne (Records.rateKey_ne_lockKey pair id) e, rfl, [], rfl⟩

theorem samePrices_refuse (f : RunState PlainStore μ) (e : StoreError) : f.SamePrices (f.refuse e) :=
  ⟨fun _ => rfl, rfl, [e], rfl⟩

private theorem samePrices_minting (f : RunState PlainStore μ) : f.SamePrices f.minting :=
  ⟨fun _ => rfl, rfl, [], rfl⟩

end RunState

namespace MarketDesk

open Attempt RunState

variable {μ κ : Type} (h : MarketDesk μ κ) (now : Instant) (f : RunState PlainStore μ)

private theorem samePrices_set_lock (id : LockId) (text : String) (ttl : Duration) :
    f.SamePrices (call now (.set (Records.lockKey id) text ttl) f).2 := by
  rcases call_set_cases now f (Records.lockKey id) text ttl with
    ⟨-, heq⟩ | ⟨e, heq⟩ | ⟨-, expiry, -, heq⟩ | ⟨-, -, heq⟩ <;> rw [heq]
  · exact f.samePrices_assign_lock id none
  · exact f.samePrices_refuse e
  · exact f.samePrices_assign_lock id _
  · exact .refl f

private theorem samePrices_issue (rate : ExchangeRate) (length : Duration) :
    f.SamePrices (h.issue now f rate length).2 := by
  unfold issue
  cases LockedRate.make (.ofUuid (h.ids f.minted)) rate length now with
  | error c => exact f.samePrices_minting
  | ok lock =>
      simp only
      split
      · exact f.samePrices_minting
      · refine rel_andThen (R := SamePrices) (fun _ _ _ => SamePrices.trans) ?_ fun _ g => .refl g
        exact f.samePrices_minting.trans (samePrices_set_lock now _ _ _ _)

/-- What goes on from the rate of a pair ends where that rate cannot be had. Else it goes on with
the margin taken off, if that can be done. -/
theorem serve_rate_cases (pair : CurrencyPair) {priced : Rate → Except FxError Answer → Prop}
    {next : ExchangeRate → RunState PlainStore μ → Outcome × RunState PlainStore μ}
    (hsame : ∀ shown (g : RunState PlainStore μ), g.SamePrices (next shown g).2)
    (hpriced : ∀ rate shown g answer, h.desk.withMargin rate = .ok shown →
      (next shown g).1 = .ok answer → priced rate answer) :
    (∃ c g, h.serve now (h.desk.marketRate pair).run f = (.error c, g) ∧
      andThen (h.serve now (h.desk.rate pair).run f) (orError next) = (.error c, g)) ∨
    (∃ e g, h.serve now (h.desk.marketRate pair).run f = (.ok (.error e), g) ∧
      andThen (h.serve now (h.desk.rate pair).run f) (orError next) = (.ok (.error e), g)) ∨
    (∃ rate g, h.serve now (h.desk.marketRate pair).run f = (.ok (.ok rate), g) ∧
      g.SamePrices (andThen (h.serve now (h.desk.rate pair).run f) (orError next)).2 ∧
      ∀ answer, (andThen (h.serve now (h.desk.rate pair).run f) (orError next)).1 = .ok answer →
        priced rate answer) := by
  rw [serve_rate]
  rcases h.serve now (h.desk.marketRate pair).run f with ⟨c | e | rate, g⟩
  · exact .inl ⟨c, g, rfl, rfl⟩
  · exact .inr (.inl ⟨e, g, rfl, rfl⟩)
  · refine .inr (.inr ⟨rate, g, rfl, ?_⟩)
    simp only [andThen_ok, orError_ok]
    cases hmargin : h.desk.withMargin rate with
    | error c => exact ⟨.refl g, fun answer ha => by cases ha⟩
    | ok shown => exact ⟨hsame shown g, fun answer => hpriced rate shown g answer hmargin⟩

private theorem samePrices_offer (offer : Except Crash (Except FxError (Uuid → Quote))) :
    f.SamePrices (andThen (offer, f) (orError fun quote g =>
      (.ok (.ok (Answer.quote (quote (h.ids g.minted)))), g.minting))).2 := by
  rcases offer with c | e | quote
  · exact .refl f
  · exact .refl f
  · exact f.samePrices_minting

/-- A request for one pair ends where its rate cannot be had; else its answer is priced with that
rate and it leaves all prices alone. -/
theorem step_single {r : Request} {pair : CurrencyPair} (hpair : r.single? h.desk = some pair) :
    (∃ c g, h.serve now (h.desk.marketRate pair).run f = (.error c, g) ∧
      h.step ⟨now, .request r⟩ f = (.error c, g)) ∨
    (∃ e g, h.serve now (h.desk.marketRate pair).run f = (.ok (.error e), g) ∧
      h.step ⟨now, .request r⟩ f = (.ok (.error e), g)) ∨
    (∃ rate g, h.serve now (h.desk.marketRate pair).run f = (.ok (.ok rate), g) ∧
      g.SamePrices (h.step ⟨now, .request r⟩ f).2 ∧
      ∀ answer, (h.step ⟨now, .request r⟩ f).1 = .ok answer →
        r.PricedWith h.desk pair rate answer) := by
  cases r with
  | rate pair' =>
      cases hpair
      rw [step_rate]
      refine h.serve_rate_cases now f pair (fun shown g => .refl g) ?_
      intro rate shown g answer hmargin hanswer
      cases hanswer
      exact hmargin
  | quote pair' amount =>
      cases hcorridor : h.desk.corridorFor pair' amount with
      | error e =>
          rw [Request.single?, hcorridor] at hpair
          cases hpair
      | ok corridor =>
          rw [Request.single?, hcorridor] at hpair
          cases hpair
          rw [step_quote, serve_quote, hcorridor]
          simp only [andThen_orError_orError]
          refine h.serve_rate_cases now f pair (fun shown g => h.samePrices_offer g _) ?_
          intro rate shown g answer hmargin hanswer
          refine ⟨corridor, shown, hcorridor, hmargin, ?_⟩
          rcases hoffer : (Desk.quoteAt corridor shown pair amount).run with c | e | offer <;>
            rw [hoffer] at hanswer <;> cases hanswer
          · rfl
          · exact ⟨_, rfl⟩
  | lock pair' seconds =>
      cases hlength : h.desk.policy.lockTerms.clampLength seconds with
      | error c =>
          rw [Request.single?, hlength] at hpair
          cases hpair
      | ok length =>
          rw [Request.single?, hlength] at hpair
          cases hpair
          rw [step_lock, serve_lock, hlength]
          simp only [andThen_orError_orError]
          refine h.serve_rate_cases now f pair ?_ ?_
          · intro shown g
            exact rel_orError SamePrices.refl (fun _ _ _ => SamePrices.trans)
              (h.samePrices_issue now g shown length) (fun lock k => .refl k)
          · intro rate shown g answer hmargin hanswer
            rcases hissue : h.issue now g shown length with ⟨c | e | lock, k⟩ <;>
              rw [hissue] at hanswer <;> cases hanswer
            · trivial
            · exact ⟨shown, hmargin, h.rate_of_issue now g hissue⟩
  | _ => cases hpair

/-! ### Batches -/

theorem pick?_known {pairs : List CurrencyPair} {pair : CurrencyPair} (hpair : pair ∈ pairs)
    (new : List Rate) :
    Desk.pick? new (known now f pairs) pair =
      (new.reverse.find? (·.pair = pair)).or (f.kept? pair now) := by
  have hfind : pairs.eraseDups.find? (· == pair) = some pair := by
    cases hfind : pairs.eraseDups.find? (· == pair) with
    | none =>
        have hother := List.find?_eq_none.mp hfind pair (List.mem_eraseDups.mpr hpair)
        exact absurd (beq_self_eq_true pair) hother
    | some other =>
        have heq : (other == pair) = true := List.find?_some (p := (· == pair)) hfind
        rw [eq_of_beq heq]
  unfold Desk.pick? known
  rw [List.find?_map]
  change Option.or _ (((pairs.eraseDups.find? (· == pair)).map _).bind _) = _
  rw [hfind]
  simp only [Option.map_some, Option.bind_some]
  rfl

theorem pricedWith_rates {pairs : List CurrencyPair} {pick : CurrencyPair → Option Rate}
    {shown : List ExchangeRate} (hshown : (pairs.filterMap pick).mapM h.desk.withMargin = .ok shown)
    (hown : ∀ pair ∈ pairs, ∀ rate, pick pair = some rate → rate.pair = pair) {pair : CurrencyPair}
    {rate : Rate} (hpair : pair ∈ pairs) (hpick : pick pair = some rate) :
    (Request.rates pairs).PricedWith h.desk pair rate (.ok (.rates shown)) := by
  obtain ⟨hrates, hmargins⟩ := Desk.rates_of_withMargin hshown
  have hrate : rate ∈ shown.map (·.rate) := by
    rw [hrates]
    exact List.mem_filterMap.mpr ⟨pair, hpair, hpick⟩
  obtain ⟨r, hr, rfl⟩ := List.mem_map.mp hrate
  refine ⟨r, hr, hmargins r hr, ?_⟩
  intro other hother hpair'
  have hother' : other.rate ∈ pairs.filterMap pick := hrates ▸ List.mem_map_of_mem hother
  obtain ⟨p, hp, hpick'⟩ := List.mem_filterMap.mp hother'
  obtain rfl : p = pair := (hown p hp _ hpick').symm.trans hpair'
  have hsame : other.rate = r.rate := Option.some.inj (hpick'.symm.trans hpick)
  have hmargin := hmargins other hother
  rw [hsame, hmargins r hr] at hmargin
  exact (Except.ok.inj hmargin).symm

/-! ### Requests without a price -/

private theorem samePrices_replace_lock (id : LockId) (text : String) (ttl : Duration) :
    f.SamePrices (call now (.replace (Records.lockKey id) text ttl) f).2 := by
  have hassign := f.samePrices_assign_lock id
  unfold call
  simp only [Shelf.answer, runOn_ofRun, TimedMap.answer]
  cases f.store.map.live? (Records.lockKey id) now with
  | none => exact .refl f
  | some e =>
      simp only
      split
      · exact hassign none
      · cases now.add? ttl with
        | some expiry => exact hassign _
        | none => exact hassign _

private theorem samePrices_extendOnRecord (id : LockId) (later : Timestamp) :
    f.SamePrices (inquire now (Records.extendLock id later).run f).2 := by
  rw [Records.extendLock, inquire_run_bind, Records.findLock, inquire_find, andThen_ok]
  cases f.live? (Records.lockKey id) now with
  | none => exact .refl f
  | some e =>
      rw [Option.map_some, found]
      cases (Document.read? e.value : Option LockedRate) with
      | none => exact .refl f
      | some lock =>
          simp only [orError_ok]
          rw [inquire_run_liftM_bind, inquire_now, andThen_ok, inquire_run_liftM_bind, inquire_ask]
          refine rel_andThen (R := SamePrices) (fun _ _ _ => SamePrices.trans)
            (samePrices_replace_lock now f id _ _) ?_
          intro reply g
          cases reply <;> exact .refl g

private theorem samePrices_extendLock (id : LockId) (grace : Duration) :
    f.SamePrices (h.serve now (h.desk.extendLock id grace).run f).2 := by
  rw [Desk.extendLock, serve_run_bind, serve_findLock, andThen_ok, orError_ok]
  cases hhonoured : (f.shownLock id now).honouredUntil with
  | none => exact .refl f
  | some expiry =>
      simp only
      split
      · exact .refl f
      · rw [serve_run_lift_bind, serve_lift]
        cases Crash.calendar.unless
            (expiry.add? (grace.min h.desk.policy.lockTerms.maxGrace)) with
        | error c => exact .refl f
        | ok later =>
            rw [andThen_ok, serve_run_bind, serve_consult]
            refine rel_orError (R := SamePrices) .refl (fun _ _ _ => SamePrices.trans)
              (samePrices_extendOnRecord now f _ _) ?_
            intro extended g
            cases extended <;> exact .refl g

theorem samePrices_step {r : Request} (hneeds : r.single? h.desk = none)
    (hbatch : ∀ pairs, r ≠ .rates pairs) :
    f.SamePrices (h.step ⟨now, .request r⟩ f).2 := by
  cases r with
  | rate pair => cases hneeds
  | rates pairs => exact absurd rfl (hbatch pairs)
  | quote pair amount =>
      rw [step_quote, serve_quote]
      cases hcorridor : h.desk.corridorFor pair amount with
      | error e => exact .refl f
      | ok corridor =>
          rw [Request.single?, hcorridor] at hneeds
          cases hneeds
  | lock pair seconds =>
      rw [step_lock, serve_lock]
      cases hlength : h.desk.policy.lockTerms.clampLength seconds with
      | error c => exact .refl f
      | ok length =>
          rw [Request.single?, hlength] at hneeds
          cases hneeds
  | findLock id =>
      rw [step_findLock, serve_findLock]
      exact .refl f
  | deleteLock id =>
      rw [step_deleteLock, serve_deleteLock]
      exact f.samePrices_assign_lock id none
  | extendLock id grace =>
      rw [step_extendLock]
      exact rel_orError (R := SamePrices) .refl (fun _ _ _ => SamePrices.trans)
        (h.samePrices_extendLock now f id grace) fun _ g => .refl g
  | health =>
      rw [step_health, Desk.health, serve_consult]
      exact .refl f

end MarketDesk

end Bureau
