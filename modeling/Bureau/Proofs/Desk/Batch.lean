import Bureau.Proofs.Desk.Pricing
import Bureau.Proofs.Desk.Standard

/-!
A batch and its pairs one by one. A batch reads all records, then asks for every rate that is missing,
then puts the new rates on record. Asked for one after the other, each pair is read, asked for and put
on record before the next one is looked at. No pair is under the key of another, so what is put on
record for one pair is not read for a later one; the market does not see the store, and the store
does not see the market. Both ways therefore come to the same.
-/

set_option autoImplicit false

namespace Bureau

open Attempt

/-- The customer's rates of several pairs, asked for one after the other. -/
def Desk.rateEach (d : Desk) :
    List CurrencyPair → Program (List (CurrencyPair × Except FxError ExchangeRate))
  | [] => return []
  | pair :: rest => do
      let reply ← (d.rate pair).run
      return (pair, reply) :: (← d.rateEach rest)

/-- The rate on record for a pair, if it can be read and is valid. -/
def PlainStore.kept? (s : PlainStore) (pair : CurrencyPair) (now : Instant) : Option Rate :=
  ((s.map.live? (Records.rateKey pair) now).bind fun e => Document.read? e.value).filter
    (·.isValid now)

private theorem TimedMap.answer_set_of_ne (capacity : Nat) (now : Instant) (m : TimedMap)
    {key other : String} (hne : other ≠ key) (value : String) (ttl : Duration) :
    (m.answer capacity now (.set key value ttl)).2 other = m other := by
  have hassign : ∀ e, m.assign key e other = m other := fun e => if_neg hne
  simp only [answer]
  split_ifs
  · exact hassign none
  · rfl
  · cases now.add? ttl with
    | none => rfl
    | some expiry => exact hassign _

/-! ### Results without crashes -/

namespace Attempt

variable {σ α β : Type}

def settled : Except Crash α × σ → Option (α × σ)
  | (.ok a, s) => some (a, s)
  | (.error _, _) => none

@[simp] theorem settled_ok (a : α) (s : σ) : settled (.ok a, s) = some (a, s) := rfl

@[simp] theorem settled_error (c : Crash) (s : σ) :
    settled ((.error c, s) : Except Crash α × σ) = none := rfl

private theorem settled_eq_some_iff {x : Except Crash α × σ} {a : α} {s : σ} :
    settled x = some (a, s) ↔ x = (.ok a, s) := by
  rcases x with ⟨c | b, t⟩ <;> simp [settled]

private theorem settled_andThen (x : Except Crash α × σ) (next : α → σ → Except Crash β × σ) :
    settled (andThen x next) = (settled x).bind fun y => settled (next y.1 y.2) := by
  rcases x with ⟨c | a, s⟩ <;> rfl

end Attempt

namespace MarketDesk

variable {α β γ δ : Type} (h : MarketDesk Provider Provider.Order) (now : Instant)

/-- What is seen of a result, with the market and the store it leaves. -/
def view (see : α → β) (x : Except Crash α × RunState PlainStore Provider) :
    Option (β × Provider × PlainStore) :=
  (settled x).map fun y => (see y.1, y.2.market, y.2.store)

private theorem view_andThen (see : α → γ) (see' : β → δ)
    (x : Except Crash α × RunState PlainStore Provider)
    {next : α → RunState PlainStore Provider → Except Crash β × RunState PlainStore Provider}
    (last : γ → Provider → PlainStore → Option (δ × Provider × PlainStore))
    (hnext : ∀ a g, view see' (next a g) = last (see a) g.market g.store) :
    view see' (andThen x next) = (view see x).bind fun y => last y.1 y.2.1 y.2.2 := by
  rcases x with ⟨c | a, g⟩
  · rfl
  · exact hnext a g

def margin? (rate : Rate) : Option ExchangeRate := (h.desk.withMargin rate).toOption

/-- The market's rate of a pair, if it can be priced, unless that crashes. -/
def priced? (pair : CurrencyPair) (p : Provider) : Option (Option Rate × Provider) :=
  (settled ((Provider.price pair (.ok now)).runOn p)).map fun y => (y.1.toOption, y.2)

/-- The market's rates of those of the pairs that can be priced, unless that crashes. -/
def pricedEach? (pairs : List CurrencyPair) (p : Provider) : Option (List Rate × Provider) :=
  settled ((Provider.priceEach (.ok now) pairs).runOn p)

/-- The store after a rate was put on record, if it could be, unless that crashes. -/
noncomputable def shelved? (s : PlainStore) (rate : Rate) : Option PlainStore :=
  (settled ((Shelf.answer now (.set (Records.rateKey rate.pair) (Document.write rate)
    h.desk.policy.rateLife)).runOn s)).map (·.2)

/-- The rate of a pair on record, or a new one that is put on record, unless that crashes. -/
noncomputable def bought? (pair : CurrencyPair) (p : Provider) (s : PlainStore) :
    Option (Option Rate × Provider × PlainStore) :=
  match s.kept? pair now with
  | some rate => some (some rate, p, s)
  | none => (priced? now pair p).bind fun y =>
      (y.1.toList.foldlM (h.shelved? now) s).map fun s => (y.1, y.2, s)

/-- The rates picked for pairs with their margins, unless that crashes. -/
def offers? (picked : List (CurrencyPair × Option Rate)) :
    Option (List (CurrencyPair × Option ExchangeRate)) :=
  picked.mapM fun y => (y.2.mapM h.margin?).map (y.1, ·)

/-- What pairs are shown with that are asked for one after the other, unless that crashes. -/
noncomputable def shownEach? : List CurrencyPair → Provider → PlainStore →
    Option (List (CurrencyPair × Option ExchangeRate) × Provider × PlainStore)
  | [], p, s => some ([], p, s)
  | pair :: rest, p, s => (h.bought? now pair p s).bind fun y => (y.1.mapM h.margin?).bind
      fun shown => (shownEach? rest y.2.1 y.2.2).map fun z => ((pair, shown) :: z.1, z.2)

/-! ### What a state shows -/

variable {now} {f : RunState PlainStore Provider}

private theorem view_ask (hmarket : h.market = Provider.market) (pair : CurrencyPair) :
    view Except.toOption (h.ask now pair f) =
      (priced? now pair f.market).map fun y => (y.1, y.2, f.store) := by
  have hprice : Provider.market.price pair now = Provider.price pair (.ok now) := rfl
  unfold ask priced?
  rw [hmarket, hprice]
  rcases (Provider.price pair (.ok now)).runOn f.market with ⟨c | reply, p⟩ <;> rfl

private theorem view_shelve (rate : Rate) :
    view id (h.shelve now f rate) =
      (h.shelved? now f.store rate).map fun s => ((), f.market, s) := by
  unfold shelve shelved? call
  rcases (Shelf.answer now (.set (Records.rateKey rate.pair) (Document.write rate)
    h.desk.policy.rateLife)).runOn f.store with ⟨c | reply, s⟩ <;> rfl

private theorem view_shelveAll (rates : List Rate) :
    view id (h.shelveAll now rates f) =
      (rates.foldlM (h.shelved? now) f.store).map fun s => ((), f.market, s) := by
  induction rates generalizing f with
  | nil => rfl
  | cons rate rest ih =>
      rw [shelveAll, view_andThen id id _ (fun _ p s =>
        (rest.foldlM (h.shelved? now) s).map fun s => ((), p, s)) fun _ g => ih, view_shelve,
        List.foldlM_cons]
      cases h.shelved? now f.store rate <;> rfl

private theorem view_marketRate (hmarket : h.market = Provider.market) (pair : CurrencyPair) :
    view Except.toOption (h.serve now (h.desk.marketRate pair).run f) =
      h.bought? now pair f.market f.store := by
  rw [serve_marketRate]
  change view Except.toOption (match f.store.kept? pair now with
    | some rate => (.ok (.ok rate), f)
    | none => h.buy now f pair) = _
  unfold bought?
  cases f.store.kept? pair now with
  | some rate => rfl
  | none =>
      simp only [buy]
      rw [view_andThen Except.toOption Except.toOption _ fun rate p s =>
        (rate.toList.foldlM (h.shelved? now) s).map fun s => (rate, p, s), h.view_ask hmarket]
      · exact Option.bind_map
      · intro reply g
        cases reply with
        | error e => rfl
        | ok rate =>
            change view Except.toOption (andThen (h.shelve now g rate) _) = _
            rw [view_andThen id Except.toOption _ (fun _ p s => some (some rate, p, s))
              fun _ _ => rfl, view_shelve]
            change _ = ((h.shelved? now g.store rate).bind some).map _
            cases h.shelved? now g.store rate <;> rfl

private theorem view_rate (hmarket : h.market = Provider.market) (pair : CurrencyPair) :
    view Except.toOption (h.serve now (h.desk.rate pair).run f) =
      (h.bought? now pair f.market f.store).bind fun y =>
        (y.1.mapM h.margin?).map fun shown => (shown, y.2) := by
  rw [serve_rate, view_andThen Except.toOption Except.toOption _ fun rate p s =>
    (rate.mapM h.margin?).map fun shown => (shown, p, s), h.view_marketRate hmarket]
  intro reply g
  cases reply with
  | error e => rfl
  | ok rate =>
      change view Except.toOption ((h.desk.withMargin rate).map .ok, g) =
        (some <$> h.margin? rate).map fun shown => (shown, g.market, g.store)
      unfold margin?
      cases h.desk.withMargin rate <;> rfl

private theorem serve_rateEach_cons (pair : CurrencyPair) (rest : List CurrencyPair) :
    h.serve now (h.desk.rateEach (pair :: rest)) f =
      andThen (h.serve now (h.desk.rate pair).run f) fun reply g =>
        andThen (h.serve now (h.desk.rateEach rest) g) fun others g =>
          (.ok ((pair, reply) :: others), g) := by
  rw [Desk.rateEach, serve_bind]
  refine congrArg (andThen _) ?_
  funext reply g
  rw [serve_bind]
  rfl

/-- The reply to a request for the rate of a pair, errors not told apart. -/
def shownOf (reply : CurrencyPair × Except FxError ExchangeRate) :
    CurrencyPair × Option ExchangeRate :=
  (reply.1, reply.2.toOption)

private theorem view_rateEach (hmarket : h.market = Provider.market) (pairs : List CurrencyPair) :
    view (List.map shownOf) (h.serve now (h.desk.rateEach pairs) f) =
      h.shownEach? now pairs f.market f.store := by
  induction pairs generalizing f with
  | nil => rfl
  | cons pair rest ih =>
      have hrest : ∀ (reply : Except FxError ExchangeRate) g, view (List.map shownOf)
          (andThen (h.serve now (h.desk.rateEach rest) g) fun others g =>
            (.ok ((pair, reply) :: others), g)) =
          (h.shownEach? now rest g.market g.store).map fun z =>
            ((pair, reply.toOption) :: z.1, z.2) := by
        intro reply g
        rw [← ih]
        rcases h.serve now (h.desk.rateEach rest) g with ⟨c | others, k⟩ <;> rfl
      rw [serve_rateEach_cons, view_andThen Except.toOption _ _ (fun shown p s =>
        (h.shownEach? now rest p s).map fun z => ((pair, shown) :: z.1, z.2)) hrest,
        h.view_rate hmarket, shownEach?, Option.bind_assoc]
      simp only [Option.bind_map]
      rfl

/-! ### Each pair by itself -/

private theorem pricedEach?_cons (pair : CurrencyPair) (rest : List CurrencyPair) (p : Provider) :
    pricedEach? now (pair :: rest) p =
      (priced? now pair p).bind fun y =>
        (pricedEach? now rest y.2).map fun z => (y.1.toList ++ z.1, z.2) := by
  unfold pricedEach? priced?
  rw [Provider.runOn_priceEach_cons, settled_andThen, Option.bind_map]
  refine congrArg _ ?_
  funext y
  simp only [settled_andThen, Function.comp]
  cases settled ((Provider.priceEach (.ok now) rest).runOn y.2) <;> rfl

private theorem pair_mem_of_pricedEach? {pairs : List CurrencyPair} {p p' : Provider} {new : List Rate}
    (hnew : pricedEach? now pairs p = some (new, p')) {rate : Rate} (hrate : rate ∈ new) :
    rate.pair ∈ pairs := by
  have hrun := settled_eq_some_iff.mp hnew
  have hsub := ((Provider.pricesEach_priceEach p pairs now).rates new (congrArg Prod.fst hrun)).1
  exact hsub.subset (List.mem_map_of_mem hrate)

/-- Putting a rate on record leaves the rates of pairs alone that are under other keys. -/
theorem kept?_shelved? {s s' : PlainStore} {rate : Rate} (hshelved : h.shelved? now s rate = some s')
    {other : CurrencyPair} (hne : Records.rateKey other ≠ Records.rateKey rate.pair) :
    s'.kept? other now = s.kept? other now := by
  obtain ⟨⟨reply, t⟩, hrun, rfl⟩ := Option.map_eq_some_iff.mp hshelved
  have hmap : t.map (Records.rateKey other) = s.map (Records.rateKey other) := by
    have hstore := congrArg Prod.snd (settled_eq_some_iff.mp hrun)
    subst hstore
    exact TimedMap.answer_set_of_ne s.capacity now s.map hne _ _
  unfold PlainStore.kept? TimedMap.live?
  rw [hmap]

private theorem kept?_shelvedAll? {s s' : PlainStore} {rates : List Rate}
    (hshelved : rates.foldlM (h.shelved? now) s = some s') {other : CurrencyPair}
    (hne : ∀ rate ∈ rates, Records.rateKey other ≠ Records.rateKey rate.pair) :
    s'.kept? other now = s.kept? other now := by
  induction rates generalizing s with
  | nil =>
      cases hshelved
      rfl
  | cons rate rest ih =>
      rw [List.foldlM_cons] at hshelved
      obtain ⟨t, hfirst, hrest⟩ := Option.bind_eq_some_iff.mp hshelved
      rw [ih hrest fun r hr => hne r (List.mem_cons_of_mem rate hr)]
      exact h.kept?_shelved? hfirst (hne rate List.mem_cons_self)

/-- The rate that a batch picks for a pair: a new one if there is one, and else the one on record. -/
def pick (new : List Rate) (kept : CurrencyPair → Option Rate) (pair : CurrencyPair) : Option Rate :=
  (new.reverse.find? (·.pair = pair)).or (kept pair)

private theorem pick_append_of_left {new more : List Rate} (kept : CurrencyPair → Option Rate)
    {pair : CurrencyPair} (hmore : ∀ rate ∈ more, rate.pair ≠ pair) :
    pick (new ++ more) kept pair = pick new kept pair := by
  have hnone : more.reverse.find? (·.pair = pair) = none := by
    rw [List.find?_eq_none]
    intro rate hrate
    rw [decide_eq_true_eq]
    exact hmore rate (List.mem_reverse.mp hrate)
  unfold pick
  rw [List.reverse_append, List.find?_append, hnone, Option.none_or]

private theorem pick_append_of_right {new more : List Rate} (kept : CurrencyPair → Option Rate)
    {pair : CurrencyPair} (hnew : ∀ rate ∈ new, rate.pair ≠ pair) :
    pick (new ++ more) kept pair = pick more kept pair := by
  have hnone : new.reverse.find? (·.pair = pair) = none := by
    rw [List.find?_eq_none]
    intro rate hrate
    rw [decide_eq_true_eq]
    exact hnew rate (List.mem_reverse.mp hrate)
  unfold pick
  rw [List.reverse_append, List.find?_append, hnone, Option.or_none]

def picks (new : List Rate) (kept : CurrencyPair → Option Rate) (pairs : List CurrencyPair) :
    List (CurrencyPair × Option Rate) :=
  pairs.map fun pair => (pair, pick new kept pair)

private theorem picks_append {new more : List Rate} (kept : CurrencyPair → Option Rate)
    {pair : CurrencyPair} {rest : List CurrencyPair} (hfresh : pair ∉ rest)
    (hnew : ∀ rate ∈ new, rate.pair = pair) (hmore : ∀ rate ∈ more, rate.pair ∈ rest) :
    picks (new ++ more) kept (pair :: rest) =
      (pair, pick new kept pair) :: picks more kept rest := by
  have hfirst : pick (new ++ more) kept pair = pick new kept pair := by
    refine pick_append_of_left kept ?_
    intro rate hrate heq
    exact hfresh (heq ▸ hmore rate hrate)
  have hrest : ∀ other ∈ rest, pick (new ++ more) kept other = pick more kept other := by
    intro other hother
    refine pick_append_of_right kept ?_
    intro rate hrate heq
    exact hfresh ((hnew rate hrate).symm.trans heq ▸ hother)
  unfold picks
  rw [List.map_cons, hfirst]
  refine congrArg _ (List.map_congr_left ?_)
  intro other hother
  rw [hrest other hother]

def lacking (kept : CurrencyPair → Option Rate) (pairs : List CurrencyPair) : List CurrencyPair :=
  pairs.filter fun pair => (kept pair).isNone

private theorem pricedEach?_append (pairs rest : List CurrencyPair) (p : Provider) :
    pricedEach? now (pairs ++ rest) p =
      (pricedEach? now pairs p).bind fun y =>
        (pricedEach? now rest y.2).map fun z => (y.1 ++ z.1, z.2) := by
  induction pairs generalizing p with
  | nil =>
      change pricedEach? now rest p = (pricedEach? now rest p).map fun z => ([] ++ z.1, z.2)
      cases pricedEach? now rest p <;> rfl
  | cons pair pairs ih =>
      rw [List.cons_append, pricedEach?_cons, pricedEach?_cons, Option.bind_assoc]
      refine congrArg _ ?_
      funext y
      rw [ih, Option.bind_map, Option.map_bind]
      refine congrArg _ ?_
      funext z
      simp only [Function.comp_def, Option.map_map, List.append_assoc]

private theorem pricedEach?_append_eq_some_iff {pairs rest : List CurrencyPair} {p p' : Provider}
    {all : List Rate} :
    pricedEach? now (pairs ++ rest) p = some (all, p') ↔
      ∃ new q more, pricedEach? now pairs p = some (new, q) ∧
        pricedEach? now rest q = some (more, p') ∧ all = new ++ more := by
  rw [pricedEach?_append]
  constructor
  · intro heq
    obtain ⟨⟨new, q⟩, hnew, heq⟩ := Option.bind_eq_some_iff.mp heq
    obtain ⟨⟨more, q'⟩, hmore, heq⟩ := Option.map_eq_some_iff.mp heq
    cases heq
    exact ⟨new, q, more, hnew, hmore, rfl⟩
  · rintro ⟨new, q, more, hnew, hmore, rfl⟩
    simp only [hnew, Option.bind_some, hmore, Option.map_some]

private theorem bought?_eq_some_iff {pair : CurrencyPair} {s : PlainStore}
    {kept : CurrencyPair → Option Rate} (hkept : s.kept? pair now = kept pair) (rate : Option Rate)
    (p p' : Provider) (s' : PlainStore) :
    h.bought? now pair p s = some (rate, p', s') ↔
      ∃ new, pricedEach? now (lacking kept [pair]) p = some (new, p') ∧
        new.foldlM (h.shelved? now) s = some s' ∧ pick new kept pair = rate := by
  have hone : pricedEach? now [pair] p = (priced? now pair p).map fun y => (y.1.toList, y.2) := by
    rw [pricedEach?_cons]
    change (priced? now pair p).bind (fun y => some (y.1.toList ++ [], y.2)) = _
    simp only [List.append_nil, Option.map_eq_bind, Function.comp_def]
  have hpick : ∀ y, priced? now pair p = some y → kept pair = none →
      pick y.1.toList kept pair = y.1 := by
    rintro ⟨_ | r, q⟩ hpriced hnone
    · exact hnone
    · have hpair : r.pair ∈ [pair] := pair_mem_of_pricedEach? (hone.trans (by rw [hpriced]; rfl))
        List.mem_cons_self
      have hfind : [r].find? (·.pair = pair) = some r :=
        List.find?_cons_of_pos (decide_eq_true (List.mem_singleton.mp hpair))
      change ([r].find? (·.pair = pair)).or (kept pair) = some r
      rw [hfind, Option.some_or]
  unfold bought?
  rw [hkept]
  cases hrecord : kept pair with
  | some r =>
      have hlacking : lacking kept [pair] = [] := by simp [lacking, hrecord]
      rw [hlacking]
      constructor
      · intro heq
        cases heq
        exact ⟨[], rfl, rfl, hrecord⟩
      · rintro ⟨new, hnew, hshelved, rfl⟩
        cases hnew
        cases hshelved
        change some (some r, p, s) = some (kept pair, p, s)
        rw [hrecord]
  | none =>
      have hlacking : lacking kept [pair] = [pair] := by simp [lacking, hrecord]
      rw [hlacking, hone]
      constructor
      · intro heq
        obtain ⟨y, hpriced, hrest⟩ := Option.bind_eq_some_iff.mp heq
        obtain ⟨t, hshelved, hy⟩ := Option.map_eq_some_iff.mp hrest
        cases hy
        exact ⟨y.1.toList, by rw [hpriced]; rfl, hshelved, hpick y hpriced hrecord⟩
      · rintro ⟨new, hnew, hshelved, rfl⟩
        obtain ⟨y, hpriced, hy⟩ := Option.map_eq_some_iff.mp hnew
        cases hy
        rw [hpick y hpriced hrecord]
        simp only [hpriced, Option.bind_some, hshelved, Option.map_some]

private theorem offers?_cons_eq_some_iff {pair : CurrencyPair} {rate : Option Rate}
    {picked : List (CurrencyPair × Option Rate)} {shown : List (CurrencyPair × Option ExchangeRate)} :
    h.offers? ((pair, rate) :: picked) = some shown ↔
      ∃ first others, rate.mapM h.margin? = some first ∧ h.offers? picked = some others ∧
        shown = (pair, first) :: others := by
  unfold offers?
  rw [List.mapM_cons]
  constructor
  · intro heq
    obtain ⟨y, hfirst, heq⟩ := Option.bind_eq_some_iff.mp heq
    obtain ⟨first, hmargin, rfl⟩ := Option.map_eq_some_iff.mp hfirst
    obtain ⟨others, hothers, heq⟩ := Option.bind_eq_some_iff.mp heq
    cases heq
    exact ⟨first, others, hmargin, hothers, rfl⟩
  · rintro ⟨first, others, hmargin, hothers, rfl⟩
    rw [hmargin, hothers]
    rfl

private theorem shownEach?_cons_eq_some_iff {pair : CurrencyPair} {rest : List CurrencyPair}
    {shown : List (CurrencyPair × Option ExchangeRate)} {p p' : Provider} {s s' : PlainStore} :
    h.shownEach? now (pair :: rest) p s = some (shown, p', s') ↔
      ∃ rate q t first others, h.bought? now pair p s = some (rate, q, t) ∧
        rate.mapM h.margin? = some first ∧ h.shownEach? now rest q t = some (others, p', s') ∧
        shown = (pair, first) :: others := by
  rw [shownEach?]
  constructor
  · intro heq
    obtain ⟨⟨rate, q, t⟩, hbuy, heq⟩ := Option.bind_eq_some_iff.mp heq
    obtain ⟨first, hmargin, heq⟩ := Option.bind_eq_some_iff.mp heq
    obtain ⟨⟨others, q', t'⟩, heach, heq⟩ := Option.map_eq_some_iff.mp heq
    cases heq
    exact ⟨rate, q, t, first, others, hbuy, hmargin, heach, rfl⟩
  · rintro ⟨rate, q, t, first, others, hbuy, hmargin, heach, rfl⟩
    simp only [hbuy, Option.bind_some, hmargin, heach, Option.map_some]

private theorem shownEach?_eq_some_iff {pairs : List CurrencyPair} {s : PlainStore}
    {kept : CurrencyPair → Option Rate} (shown : List (CurrencyPair × Option ExchangeRate))
    (p p' : Provider) (s' : PlainStore)
    (hkeys : pairs.Pairwise fun a b => Records.rateKey b ≠ Records.rateKey a)
    (hkept : ∀ pair ∈ pairs, s.kept? pair now = kept pair) :
    h.shownEach? now pairs p s = some (shown, p', s') ↔
      ∃ new, pricedEach? now (lacking kept pairs) p = some (new, p') ∧
        new.foldlM (h.shelved? now) s = some s' ∧
        h.offers? (picks new kept pairs) = some shown := by
  induction pairs generalizing p s shown with
  | nil =>
      constructor
      · intro heq
        cases heq
        exact ⟨[], rfl, rfl, rfl⟩
      · rintro ⟨new, hnew, hshelved, hshown⟩
        cases hnew
        cases hshelved
        cases hshown
        rfl
  | cons pair rest ih =>
      obtain ⟨hfirst, hrest⟩ := List.pairwise_cons.mp hkeys
      have hfresh : pair ∉ rest := fun hmem => hfirst pair hmem rfl
      have hlacking : lacking kept (pair :: rest) = lacking kept [pair] ++ lacking kept rest :=
        List.filter_append [pair] rest
      have hown : ∀ {q q' : Provider} {new : List Rate},
          pricedEach? now (lacking kept [pair]) q = some (new, q') →
            ∀ rate ∈ new, rate.pair = pair := fun hnew rate hrate =>
        List.mem_singleton.mp (List.mem_filter.mp (pair_mem_of_pricedEach? hnew hrate)).1
      have hothers : ∀ {q q' : Provider} {more : List Rate},
          pricedEach? now (lacking kept rest) q = some (more, q') →
            ∀ rate ∈ more, rate.pair ∈ rest := fun hmore rate hrate =>
        (List.mem_filter.mp (pair_mem_of_pricedEach? hmore hrate)).1
      -- what is put on record for the first pair is under no key of the others
      have hkept' : ∀ {t : PlainStore} {new : List Rate}, (∀ rate ∈ new, rate.pair = pair) →
          new.foldlM (h.shelved? now) s = some t →
            ∀ other ∈ rest, t.kept? other now = kept other := by
        intro t new hpairs hshelved other hother
        rw [h.kept?_shelvedAll? hshelved fun rate hrate => hpairs rate hrate ▸ hfirst other hother]
        exact hkept other (List.mem_cons_of_mem pair hother)
      have hbought := h.bought?_eq_some_iff (hkept pair List.mem_cons_self)
      rw [shownEach?_cons_eq_some_iff, hlacking]
      constructor
      · rintro ⟨rate, q, t, first, others, hbuy, hmargin, heach, rfl⟩
        obtain ⟨new, hnew, hshelved, rfl⟩ := (hbought rate p q t).mp hbuy
        obtain ⟨more, hmore, hshelved', hoffers⟩ :=
          (ih others q hrest (hkept' (hown hnew) hshelved)).mp heach
        refine ⟨new ++ more,
          pricedEach?_append_eq_some_iff.mpr ⟨new, q, more, hnew, hmore, rfl⟩, ?_, ?_⟩
        · rw [List.foldlM_append, hshelved]
          exact hshelved'
        · rw [picks_append kept hfresh (hown hnew) (hothers hmore), offers?_cons_eq_some_iff]
          exact ⟨first, others, hmargin, hoffers, rfl⟩
      · rintro ⟨all, hall, hshelvedAll, hoffers⟩
        obtain ⟨new, q, more, hnew, hmore, rfl⟩ := pricedEach?_append_eq_some_iff.mp hall
        rw [List.foldlM_append] at hshelvedAll
        obtain ⟨t, hshelved, hshelved'⟩ := Option.bind_eq_some_iff.mp hshelvedAll
        rw [picks_append kept hfresh (hown hnew) (hothers hmore), offers?_cons_eq_some_iff]
          at hoffers
        obtain ⟨first, others, hmargin, hoffers, rfl⟩ := hoffers
        have heach := (ih others q hrest (hkept' (hown hnew) hshelved)).mpr
          ⟨more, hmore, hshelved', hoffers⟩
        exact ⟨_, q, t, first, others, (hbought _ p q t).mpr ⟨new, hnew, hshelved, rfl⟩, hmargin,
          heach, rfl⟩

/-! ### The batch -/

private theorem view_askAll (hmarket : h.market = Provider.market) {m : SimulatedMarket}
    (hsimulated : f.market = .simulated m) (pairs : List CurrencyPair) :
    view id (h.askAll now pairs f) =
      (pricedEach? now pairs f.market).map fun y => (y.1, y.2, f.store) := by
  have hprice : (Provider.market.priceAll pairs now).runOn f.market =
      (Provider.priceEach (.ok now) pairs).runOn f.market := by
    rw [hsimulated]
    rfl
  unfold askAll pricedEach?
  rw [hmarket, hprice]
  rcases (Provider.priceEach (.ok now) pairs).runOn f.market with ⟨c | rates, p⟩ <;> rfl

private theorem view_buyAll (hmarket : h.market = Provider.market) {m : SimulatedMarket}
    (hsimulated : f.market = .simulated m) (pairs : List CurrencyPair) :
    view id (h.buyAll now f pairs) =
      (pricedEach? now pairs f.market).bind fun y =>
        (y.1.foldlM (h.shelved? now) f.store).map fun s => (y.1, y.2, s) := by
  cases pairs with
  | nil => rfl
  | cons pair rest =>
      change view id (andThen (h.askAll now (pair :: rest) f) fun rates g =>
        andThen (h.shelveAll now rates g) fun _ g => (.ok rates, g)) = _
      rw [view_andThen id id _ fun rates p s =>
        (rates.foldlM (h.shelved? now) s).map fun s => (rates, p, s),
        h.view_askAll hmarket hsimulated, Option.bind_map]
      · rfl
      · intro rates g
        rw [view_andThen id id _ (fun _ p s => some (rates, p, s)) fun _ _ => rfl,
          h.view_shelveAll, Option.bind_map, Option.map_eq_bind]
        rfl

private theorem toOption_mapM_withMargin (rates : List Rate) :
    (rates.mapM h.desk.withMargin).toOption = rates.mapM h.margin? := by
  induction rates with
  | nil => rfl
  | cons rate rest ih =>
      rw [List.mapM_cons, List.mapM_cons, ← ih, margin?]
      cases h.desk.withMargin rate with
      | error c => rfl
      | ok shown => cases rest.mapM h.desk.withMargin <;> rfl

private theorem view_rates (hmarket : h.market = Provider.market) {m : SimulatedMarket}
    (hsimulated : f.market = .simulated m) (pairs : List CurrencyPair) :
    view id (h.serve now (h.desk.rates pairs) f) =
      (pricedEach? now (lacking (f.store.kept? · now) pairs.eraseDups) f.market).bind fun y =>
        (y.1.foldlM (h.shelved? now) f.store).bind fun s =>
          ((pairs.filterMap (pick y.1 (f.store.kept? · now))).mapM h.margin?).map fun shown =>
            (shown, y.2, s) := by
  have hmissing : missing now f pairs = lacking (f.store.kept? · now) pairs.eraseDups := rfl
  have hpicks : ∀ new, pairs.filterMap (Desk.pick? new (known now f pairs)) =
      pairs.filterMap (pick new (f.store.kept? · now)) := fun new =>
    List.filterMap_congr fun pair hpair => pick?_known now f hpair new
  rw [serve_rates, view_andThen id id _ (fun new p s =>
    ((pairs.filterMap (pick new (f.store.kept? · now))).mapM h.margin?).map fun shown =>
      (shown, p, s)), h.view_buyAll hmarket hsimulated, hmissing, Option.bind_assoc]
  · simp only [Option.bind_map]
    rfl
  · intro new g
    rw [hpicks, ← h.toOption_mapM_withMargin, id_eq]
    cases (pairs.filterMap (pick new (f.store.kept? · now))).mapM h.desk.withMargin <;> rfl

/-! ### Both ways -/

private theorem lookup_of_offers? {new : List Rate} {kept : CurrencyPair → Option Rate}
    {pairs : List CurrencyPair} {shown : List (CurrencyPair × Option ExchangeRate)}
    (hshown : h.offers? (picks new kept pairs) = some shown) {pair : CurrencyPair}
    (hpair : pair ∈ pairs) :
    ∃ offer, (pick new kept pair).mapM h.margin? = some offer ∧ shown.lookup pair = some offer := by
  induction pairs generalizing shown with
  | nil => exact absurd hpair List.not_mem_nil
  | cons first rest ih =>
      obtain ⟨offer, others, hfirst, hothers, rfl⟩ := h.offers?_cons_eq_some_iff.mp hshown
      by_cases heq : pair = first
      · subst heq
        exact ⟨offer, hfirst, List.lookup_cons_self⟩
      · rw [List.lookup_cons, beq_false_of_ne heq]
        exact ih hothers ((List.mem_cons.mp hpair).resolve_left heq)

private theorem exists_offers? {new : List Rate} {kept : CurrencyPair → Option Rate}
    {pairs : List CurrencyPair}
    (hall : ∀ pair ∈ pairs, ∃ shown, (pick new kept pair).mapM h.margin? = some shown) :
    ∃ shown, h.offers? (picks new kept pairs) = some shown := by
  induction pairs with
  | nil => exact ⟨[], rfl⟩
  | cons pair rest ih =>
      obtain ⟨first, hfirst⟩ := hall pair List.mem_cons_self
      obtain ⟨others, hothers⟩ := ih fun other hother => hall other (List.mem_cons_of_mem pair hother)
      exact ⟨_, h.offers?_cons_eq_some_iff.mpr ⟨first, others, hfirst, hothers, rfl⟩⟩

private theorem mapM_margin?_filterMap {pick : CurrencyPair → Option Rate}
    {shown : CurrencyPair → Option ExchangeRate} {pairs : List CurrencyPair}
    (hall : ∀ pair ∈ pairs, (pick pair).mapM h.margin? = some (shown pair)) :
    (pairs.filterMap pick).mapM h.margin? = some (pairs.filterMap shown) := by
  induction pairs with
  | nil => rfl
  | cons pair rest ih =>
      have hrest := ih fun other hother => hall other (List.mem_cons_of_mem pair hother)
      have hpair := hall pair List.mem_cons_self
      cases hpick : pick pair with
      | none =>
          rw [hpick] at hpair
          have hnone : shown pair = none := (Option.some.inj hpair).symm
          rw [List.filterMap_cons_none hpick, List.filterMap_cons_none hnone]
          exact hrest
      | some rate =>
          rw [hpick] at hpair
          obtain ⟨offer, hoffer, hshown⟩ := Option.map_eq_some_iff.mp hpair
          rw [List.filterMap_cons_some hpick, List.filterMap_cons_some hshown.symm, List.mapM_cons,
            hoffer, hrest]
          rfl

private theorem mapM_margin?_of_offers? {new : List Rate} {kept : CurrencyPair → Option Rate}
    {pairs : List CurrencyPair} {replies : List (CurrencyPair × Option ExchangeRate)}
    (hreplies : h.offers? (picks new kept pairs.eraseDups) = some replies) :
    (pairs.filterMap (pick new kept)).mapM h.margin? =
      some (pairs.filterMap fun pair => (replies.lookup pair).join) := by
  refine h.mapM_margin?_filterMap ?_
  intro pair hpair
  obtain ⟨offer, hoffer, hlookup⟩ := h.lookup_of_offers? hreplies (List.mem_eraseDups.mpr hpair)
  rw [hoffer, hlookup]
  rfl

private theorem exists_margin?_of_filterMap {pick : CurrencyPair → Option Rate}
    {pairs : List CurrencyPair} {shown : List ExchangeRate}
    (hshown : (pairs.filterMap pick).mapM h.margin? = some shown) :
    ∀ pair ∈ pairs, ∃ offer, (pick pair).mapM h.margin? = some offer := by
  induction pairs generalizing shown with
  | nil => exact fun pair hpair => absurd hpair List.not_mem_nil
  | cons first rest ih =>
      intro pair hpair
      cases hpick : pick first with
      | none =>
          rw [List.filterMap_cons_none hpick] at hshown
          rcases List.mem_cons.mp hpair with rfl | hrest
          · exact ⟨none, by rw [hpick]; rfl⟩
          · exact ih hshown pair hrest
      | some rate =>
          rw [List.filterMap_cons_some hpick, List.mapM_cons] at hshown
          obtain ⟨offer, hoffer, hshown⟩ := Option.bind_eq_some_iff.mp hshown
          obtain ⟨others, hothers, -⟩ := Option.bind_eq_some_iff.mp hshown
          rcases List.mem_cons.mp hpair with rfl | hrest
          · refine ⟨some offer, ?_⟩
            rw [hpick]
            change some <$> h.margin? rate = _
            rw [hoffer]
            rfl
          · exact ih hothers pair hrest

variable (now) in
/-- A batch comes to the same as its pairs one after the other, each once: it shows what they show,
in the order it asks, and leaves the market and the store as they do. -/
theorem view_rates_eq_some_iff (hmarket : h.market = Provider.market) {m : SimulatedMarket}
    (hsimulated : f.market = .simulated m) {pairs : List CurrencyPair}
    (hcodes : ∀ pair ∈ pairs, Records.IsColonFree pair.source) (shown : List ExchangeRate)
    (p : Provider) (s : PlainStore) :
    view id (h.serve now (h.desk.rates pairs) f) = some (shown, p, s) ↔
      ∃ replies, view (List.map shownOf) (h.serve now (h.desk.rateEach pairs.eraseDups) f) =
          some (replies, p, s) ∧
        shown = pairs.filterMap fun pair => (replies.lookup pair).join := by
  have hkeys : pairs.eraseDups.Pairwise fun a b => Records.rateKey b ≠ Records.rateKey a := by
    refine List.Pairwise.imp_of_mem ?_ (nodup_eraseDups pairs)
    intro a b ha hb hne hkey
    exact hne (Records.rateKey_injOn (hcodes a (List.mem_eraseDups.mp ha))
      (hcodes b (List.mem_eraseDups.mp hb)) hkey.symm)
  have heach := fun replies => h.shownEach?_eq_some_iff replies f.market p s hkeys
    fun pair _ => Eq.refl (f.store.kept? pair now)
  rw [h.view_rates hmarket hsimulated, h.view_rateEach hmarket]
  constructor
  · intro heq
    obtain ⟨⟨new, q⟩, hnew, heq⟩ := Option.bind_eq_some_iff.mp heq
    obtain ⟨t, hshelved, heq⟩ := Option.bind_eq_some_iff.mp heq
    obtain ⟨offers, hoffers, heq⟩ := Option.map_eq_some_iff.mp heq
    cases heq
    obtain ⟨replies, hreplies⟩ := h.exists_offers? fun pair hpair =>
      h.exists_margin?_of_filterMap hoffers pair (List.mem_eraseDups.mp hpair)
    have hshown := h.mapM_margin?_of_offers? hreplies
    exact ⟨replies, (heach replies).mpr ⟨new, hnew, hshelved, hreplies⟩,
      Option.some.inj (hoffers.symm.trans hshown)⟩
  · rintro ⟨replies, hreplies, rfl⟩
    obtain ⟨new, hnew, hshelved, hoffers⟩ := (heach replies).mp hreplies
    have hshown := h.mapM_margin?_of_offers? hoffers
    simp only [hnew, Option.bind_some, hshelved, hshown, Option.map_some]

private theorem view_of_ok {see : α → β} {x : Except Crash α × RunState PlainStore Provider} {a : α}
    (hx : x.1 = .ok a) : view see x = some (see a, x.2.market, x.2.store) := by
  obtain ⟨outcome, g⟩ := x
  cases hx
  rfl

private theorem lookup_map_shownOf (replies : List (CurrencyPair × Except FxError ExchangeRate))
    (pair : CurrencyPair) :
    (replies.map shownOf).lookup pair = (replies.lookup pair).map Except.toOption := by
  induction replies with
  | nil => rfl
  | cons reply rest ih =>
      obtain ⟨first, reply⟩ := reply
      rw [List.map_cons, shownOf, List.lookup_cons, List.lookup_cons, ih]
      cases pair == first <;> rfl

variable (now) in
/-- On a plain store a batch crashes if the requests for its pairs do, and else ends as they end. -/
theorem rates_agree_rateEach (hmarket : h.market = Provider.market) {m : SimulatedMarket}
    (hsimulated : f.market = .simulated m) {pairs : List CurrencyPair}
    (hcodes : ∀ pair ∈ pairs, Records.IsColonFree pair.source) :
    let batch := h.serve now (h.desk.rates pairs) f
    let each := h.serve now (h.desk.rateEach pairs.eraseDups) f
    ((∃ c, batch.1 = .error c) ↔ ∃ c, each.1 = .error c) ∧
      ∀ replies, each.1 = .ok replies →
        batch.1 = .ok (pairs.filterMap fun pair =>
          (replies.lookup pair).bind Except.toOption) ∧
        batch.2.market = each.2.market ∧ batch.2.store = each.2.store := by
  intro batch each
  have hboth := h.view_rates_eq_some_iff now hmarket hsimulated hcodes
  have hend : ∀ replies, each.1 = .ok replies → ∃ g, batch =
      (.ok (pairs.filterMap fun pair => (replies.lookup pair).bind Except.toOption), g) ∧
        g.market = each.2.market ∧ g.store = each.2.store := by
    intro replies hreplies
    have hshown : (pairs.filterMap fun pair => (replies.lookup pair).bind Except.toOption) =
        pairs.filterMap fun pair => ((replies.map shownOf).lookup pair).join := by
      refine List.filterMap_congr fun pair _ => ?_
      rw [lookup_map_shownOf]
      cases replies.lookup pair <;> rfl
    have hview := (hboth _ _ _).mpr ⟨replies.map shownOf, view_of_ok hreplies, hshown⟩
    obtain ⟨⟨shown, g⟩, hbatch, heq⟩ := Option.map_eq_some_iff.mp hview
    obtain ⟨rfl, hmarket', hstore⟩ := Prod.ext_iff.mp heq |>.imp id Prod.ext_iff.mp
    exact ⟨g, settled_eq_some_iff.mp hbatch, hmarket', hstore⟩
  have hcrash : ∀ c, each.1 = .error c → ∀ shown, batch.1 ≠ .ok shown := by
    intro c hc shown hshown
    obtain ⟨replies, hview, -⟩ := (hboth _ _ _).mp (view_of_ok hshown)
    obtain ⟨⟨others, g⟩, heach, -⟩ := Option.map_eq_some_iff.mp hview
    rw [show each = _ from settled_eq_some_iff.mp heach] at hc
    cases hc
  refine ⟨⟨?_, ?_⟩, ?_⟩
  · rintro ⟨c, hc⟩
    cases heach : each.1 with
    | error c' => exact ⟨c', rfl⟩
    | ok replies =>
        obtain ⟨g, hbatch, -⟩ := hend replies heach
        rw [hbatch] at hc
        cases hc
  · rintro ⟨c, hc⟩
    cases hbatch : batch.1 with
    | error c' => exact ⟨c', rfl⟩
    | ok shown => exact absurd hbatch (hcrash c hc shown)
  · intro replies hreplies
    obtain ⟨g, hbatch, hsame⟩ := hend replies hreplies
    rw [hbatch]
    exact ⟨rfl, hsame⟩

private theorem keeps_simulated :
    Provider.market.Keeps fun p => ∃ m : SimulatedMarket, p = .simulated m where
  toKeepsPricing := by
    refine Provider.keepsPricing ?_ ?_
    · rintro pair now p ⟨m, rfl⟩
      exact ⟨_, congrArg Prod.snd (Provider.runOn_price_simulated m pair (.ok now))⟩
    · rintro p ⟨m, rfl⟩
      exact ⟨m, rfl⟩
  order o now p hp := by
    obtain ⟨m, rfl⟩ := hp
    change ∃ m', ((Provider.obey now o).runOn (.simulated m)).2 = .simulated m'
    cases o with
    | setDrift pair offset =>
        rw [Provider.obey, runOn_bind_pure_snd, Provider.runOn_onSimulated]
        exact ⟨_, rfl⟩
    | resetDrift =>
        rw [Provider.obey, runOn_bind_pure_snd, Provider.runOn_onSimulated]
        exact ⟨_, rfl⟩
    | setRate pair mid spreadPercent => exact ⟨m, rfl⟩

/-- A batch of rates agrees with its pairs one by one. From whatever state a run from an empty store
before a simulated market has come to, a batch crashes if and only if asking for its pairs one after
the other does, each once and in the order they first appear. If neither does, the batch shows at
each place what its pair is shown, without the pairs that have an error, and both ways leave the same
market and a store in which the same can be read from then on. No source code has a colon. -/
theorem rates_eq_rateEach (h : MarketDesk Provider Provider.Order) (hmarket : h.market = Provider.market)
    (capacity : Nat) (m : SimulatedMarket) {visits : List (Visit Provider.Order)} {now : Instant}
    (horder : Instant.Ascending (timesOf visits ++ [now])) {pairs : List CurrencyPair}
    (hcodes : ∀ pair ∈ pairs, Records.IsColonFree pair.source) :
    let past := (h.run visits (RunState.opening (Store.empty capacity) (.simulated m))).2
    let batch := h.serve now (h.desk.rates pairs) past
    let each := h.serve now (h.desk.rateEach pairs.eraseDups) past
    ((∃ c, batch.1 = .error c) ↔ ∃ c, each.1 = .error c) ∧
      ∀ replies, each.1 = .ok replies →
        batch.1 = .ok (pairs.filterMap fun pair =>
          (replies.lookup pair).bind Except.toOption) ∧
        batch.2.market = each.2.market ∧
        ∀ time, now ≤ time → ∀ key, batch.2.store.live? key time = each.2.store.live? key time := by
  intro past batch each
  obtain ⟨-, hpast⟩ := h.matches_opening capacity (.simulated m) horder
  obtain ⟨p, hp⟩ := keeps_run (hmarket ▸ keeps_simulated) visits
    (RunState.opening (PlainStore.mk capacity .empty) (.simulated m)) ⟨m, rfl⟩
  obtain ⟨hbatch, hbatchStep⟩ := h.matches_serve (h.desk.rates pairs) hpast
  obtain ⟨heach, heachStep⟩ := h.matches_serve (h.desk.rateEach pairs.eraseDups) hpast
  obtain ⟨hcrash, hagree⟩ := h.rates_agree_rateEach now hmarket hp hcodes
  rw [← hbatch, ← heach] at hcrash
  refine ⟨hcrash, ?_⟩
  intro replies hreplies
  rw [heach] at hreplies
  obtain ⟨hshown, hmarkets, hstores⟩ := hagree replies hreplies
  refine ⟨hbatch.trans hshown, ?_, ?_⟩
  · rw [hbatchStep.market_eq, heachStep.market_eq, hmarkets]
  · intro time htime key
    rw [hbatchStep.tracks.live_eq time htime, heachStep.tracks.live_eq time htime, hstores]

private theorem runOn_driftedMid_start {m : SimulatedMarket} {base : BaseRate} {mid : Decimal}
    (hwalk : m.walk base.pair now = Walk.start now)
    (hmid : (Decimal.one.add? Decimal.zero).bind base.mid.mul? = some mid) :
    (SimulatedMarket.driftedMid base now).runOn m =
      (.ok mid, { m with
        walks := m.walks.insert base.pair { Walk.start now with pinned := false } }) := by
  have hread : (Walk.read m.settings.drift (m.unit base.pair) now).runOn (Walk.start now) =
      (.ok Decimal.zero, { Walk.start now with pinned := false }) := rfl
  unfold SimulatedMarket.driftedMid
  rw [runOn_bind_ok (runOn_get m)]
  simp only [hwalk, hread]
  change (Crash.arithmetic.unless ((Decimal.one.add? Decimal.zero).bind base.mid.mul?), _) = _
  rw [hmid]
  rfl

private theorem runOn_price_start {m : SimulatedMarket} {mid : Decimal} {rate : Rate} (base : BaseRate)
    (hroute : m.settings.route? base.pair = some (.single (.direct base)))
    (hwalk : m.walk base.pair now = Walk.start now)
    (hmid : (Decimal.one.add? Decimal.zero).bind base.mid.mul? = some mid)
    (hmake : Rate.make base.pair mid (m.settings.spreadOf (.single (.direct base)))
      m.settings.validity m.settings.name now = .ok rate) :
    ∃ market, (Provider.market.price base.pair now).runOn (.simulated m) =
      (.ok (.ok rate), market) := by
  have hrun := m.runOn_price base.pair now
  have hdrift := runOn_driftedMid_start hwalk hmid
  rw [hroute] at hrun
  simp only [SimulatedMarket.routeMid, SimulatedMarket.legMid, hdrift, andThen_ok, hmake] at hrun
  change ∃ market, (Provider.price base.pair (.ok now)).runOn (.simulated m) = _
  rw [Provider.runOn_price_simulated, hrun]
  exact ⟨_, rfl⟩

/-- A pair that cannot be priced and one that can, each asked for twice: the second one is shown
twice, as it is when it is asked for by itself. -/
theorem rates_eq_rateEach_twice :
    let pair : CurrencyPair := ⟨⟨"EUR"⟩, ⟨"USD"⟩⟩
    let gone : CurrencyPair := ⟨⟨"EUR"⟩, ⟨"EUR"⟩⟩
    let now : Instant := ⟨0, by decide⟩
    let settings : MarketSettings :=
      { MarketSettings.standard with baseRates := [⟨pair, .one, none⟩] }
    let past := RunState.opening (Store.empty 1) (Provider.simulated ⟨settings, 1, ∅⟩)
    let h := ofProvider .standard
    ∃ shown, (h.serve now (h.desk.rateEach [gone, pair]) past).1 =
        .ok [(gone, .error (.unsupportedPair gone)), (pair, .ok shown)] ∧
      (h.serve now (h.desk.rates [gone, pair, gone, pair]) past).1 = .ok [shown, shown] := by
  intro pair gone now settings past h
  let m : SimulatedMarket := ⟨settings, 1, ∅⟩
  let start := RunState.opening (PlainStore.mk 1 .empty) (Provider.simulated m)
  let asked := { start with ledger := [.asked gone (.error (.unsupportedPair gone))] }
  have hunsupported : (h.market.price gone now).runOn start.market =
      (.ok (.error (.unsupportedPair gone)), .simulated m) := rfl
  have hgone : h.ask now gone start = (.ok (.error (.unsupportedPair gone)), asked) :=
    ask_of_ok hunsupported
  have hmade : (Rate.make pair .one settings.defaultSpread settings.validity settings.name
      now).toOption.isSome = true := by decide +kernel
  obtain ⟨rate, hmake⟩ : ∃ rate, Rate.make pair .one settings.defaultSpread settings.validity
      settings.name now = .ok rate := by
    cases hmake : Rate.make pair .one settings.defaultSpread settings.validity settings.name
        now with
    | error c =>
        rw [hmake] at hmade
        cases hmade
    | ok rate => exact ⟨rate, rfl⟩
  obtain ⟨market, hprice⟩ := runOn_price_start (m := m) ⟨pair, .one, none⟩ (by decide)
    Std.HashMap.getD_empty (by decide +kernel) hmake
  obtain ⟨shown, hshown⟩ := Desk.isValid_standard.exists_withMargin rate
  have hroom : asked.store.map.count now < asked.store.capacity := by
    change TimedMap.empty.count now < 1
    rw [TimedMap.count_empty]
    exact Nat.one_pos
  have hexpiry : now.add? h.desk.policy.rateLife = some ⟨30000000000, by decide⟩ := by decide
  have hrate := h.serve_rate_of_price now asked rfl hprice hroom (by decide) hexpiry hshown
  have hfirst : h.serve now (h.desk.rate gone).run start =
      (.ok (.error (.unsupportedPair gone)), asked) := by
    have hkept : start.kept? gone now = none := rfl
    rw [serve_rate, serve_marketRate, hkept]
    simp only [buy, hgone, andThen_ok, orError_error]
  have horder : Instant.Ascending (timesOf ([] : List (Visit Provider.Order)) ++ [now]) :=
    List.pairwise_singleton _ now
  have hstep : past.InStep start now := (h.matches_opening 1 (.simulated m) horder).2
  have heach : (h.serve now (h.desk.rateEach [gone, pair]) past).1 =
      .ok [(gone, .error (.unsupportedPair gone)), (pair, .ok shown)] := by
    rw [(h.matches_serve (h.desk.rateEach [gone, pair]) hstep).1, serve_rateEach_cons, hfirst,
      andThen_ok, serve_rateEach_cons, hrate]
    rfl
  have hcodes : ∀ p ∈ [gone, pair, gone, pair], Records.IsColonFree p.source := by
    unfold Records.IsColonFree
    decide
  have hagree := (rates_eq_rateEach h rfl 1 m horder hcodes).2
  exact ⟨shown, heach, (hagree _ heach).1⟩

end MarketDesk

end Bureau
