import Bureau.Proofs.Desk.Pricing
import Bureau.Proofs.Desk.Standard
import Mathlib.Data.List.TFAE
import Mathlib.Tactic.TFAE

/-!
Whose price a request shows. The records hold one rate under each key, so every pair is shown its
own prices as long as no other pair shares its key. Where two pairs share a key, what is put on
record for one is shown for the other.
-/

set_option autoImplicit false

namespace Bureau

/-- A market that makes rates of the pairs it is asked for and of no others. -/
structure Market.IsFaithful {μ κ : Type} (market : Market μ κ) : Prop where
  price : ∀ pair now s r, ((market.price pair now).runOn s).1 = .ok (.ok r) → r.pair = pair
  priceAll : ∀ pairs now s rates, ((market.priceAll pairs now).runOn s).1 = .ok rates →
    ∀ r ∈ rates, r.pair ∈ pairs

private theorem Provider.isFaithful_market : market.IsFaithful where
  price pair now p r hr := ((stamps_market p.validity).price_rate pair now p r rfl hr).1
  priceAll pairs now p rates hrates _ hr :=
    ((stamps_market p.validity).priceAll_rates pairs now p rates rfl hrates).1.subset
      (List.mem_map_of_mem hr)

/-! ### Own prices -/

/-- A rate of a pair that is one of those made for it, up to the signs of zeros. -/
def Rate.IsOwn (rate : Rate) (pair : CurrencyPair) (made : List Rate) : Prop :=
  rate.pair = pair ∧ ∃ m ∈ made, m.pair = pair ∧ m.plain = rate.plain

theorem Rate.IsOwn.mono {rate : Rate} {pair : CurrencyPair} {made more : List Rate}
    (h : rate.IsOwn pair made) (hsub : made ⊆ more) : rate.IsOwn pair more := by
  obtain ⟨hpair, m, hm, hrest⟩ := h
  exact ⟨hpair, m, hsub hm, hrest⟩

/-- An answer shows for each pair a price of its own: the one pair of a request is priced with a
rate of its own, and the rates of a batch are own rates of its pairs in their order. -/
def Request.ShowsOwn (d : Desk) (made : List Rate) : Request → Answer → Prop
  | .rates pairs, .rates shown => (shown.map (·.pair)).Sublist pairs ∧
      ∀ r ∈ shown, r.rate.IsOwn r.pair made ∧ d.withMargin r.rate = .ok r
  | .rates _, _ => False
  | r, answer => ∀ pair, r.single? d = some pair →
      ∃ rate, rate.IsOwn pair made ∧ r.PricedWith d pair rate (.ok answer)

private theorem ratesMade_subset {ledger longer : List Note} (h : ledger <:+ longer) :
    ratesMade ledger ⊆ ratesMade longer := by
  obtain ⟨newer, rfl⟩ := h
  rw [ratesMade, ratesMade, List.flatMap_append]
  exact List.subset_append_right _ _

/-! ### What is put on record -/

namespace RunState

variable {μ : Type} {pairs : List CurrencyPair} {f g k : RunState PlainStore μ}

/-- A later state whose new rates are of some pairs and whose new records of rates are of rates that
were made. -/
structure Restocks (pairs : List CurrencyPair) (f g : RunState PlainStore μ) : Prop where
  goesOn : f.GoesOn g
  made : ∀ r ∈ ratesMade g.ledger, r ∈ ratesMade f.ledger ∨ r.pair ∈ pairs
  records : ∀ pair, g.store.map (Records.rateKey pair) = f.store.map (Records.rateKey pair) ∨
    g.store.map (Records.rateKey pair) = none ∨
    ∃ r ∈ ratesMade g.ledger, Records.rateKey r.pair = Records.rateKey pair ∧
      ∃ expiry, g.store.map (Records.rateKey pair) = some ⟨Document.write r, expiry⟩

theorem Restocks.trans (hfg : f.Restocks pairs g) (hgk : g.Restocks pairs k) :
    f.Restocks pairs k where
  goesOn := GoesOn.trans f g k hfg.goesOn hgk.goesOn
  made r hr := (hgk.made r hr).elim (hfg.made r) .inr
  records pair := by
    rcases hgk.records pair with hsame | hnew
    · rw [hsame]
      refine (hfg.records pair).imp id (Or.imp id ?_)
      rintro ⟨r, hr, hrest⟩
      exact ⟨r, ratesMade_subset hgk.goesOn hr, hrest⟩
    · exact .inr hnew

theorem Restocks.mono {more : List CurrencyPair} (h : f.Restocks pairs g) (hsub : pairs ⊆ more) :
    f.Restocks more g :=
  { h with made := fun r hr => (h.made r hr).imp id fun hpair => hsub hpair }

private theorem SamePrices.restocks (h : f.SamePrices g) : f.Restocks pairs g where
  goesOn := h.ledger_suffix
  made _ hr := .inl (h.ratesMade_eq ▸ hr)
  records pair := .inl (h.rates_eq pair)

end RunState

namespace MarketDesk

open Attempt RunState

variable {μ κ : Type} (h : MarketDesk μ κ) (now : Instant) (f : RunState PlainStore μ)

private theorem restocks_shelve (pairs : List CurrencyPair) {rate : Rate}
    (hmade : rate ∈ ratesMade f.ledger) : f.Restocks pairs (h.shelve now f rate).2 := by
  have hassign : ∀ e : Option Entry, (e = none ∨ ∃ expiry, e = some ⟨Document.write rate, expiry⟩) →
      f.Restocks pairs (f.assign (Records.rateKey rate.pair) e) := by
    intro e he
    refine ⟨List.suffix_refl _, fun r hr => .inl hr, ?_⟩
    intro pair
    by_cases hkey : Records.rateKey pair = Records.rateKey rate.pair
    · rw [hkey, assign_self]
      exact .inr (he.imp id fun hwritten => ⟨rate, hmade, rfl, hwritten⟩)
    · exact .inl (f.assign_of_ne hkey e)
  unfold shelve
  rcases call_set_cases now f (Records.rateKey rate.pair) (Document.write rate)
    h.desk.policy.rateLife with ⟨-, heq⟩ | ⟨e, heq⟩ | ⟨-, expiry, -, heq⟩ | ⟨-, -, heq⟩ <;> rw [heq]
  · exact hassign none (.inl rfl)
  · exact (f.samePrices_refuse e).restocks
  · exact hassign _ (.inr ⟨expiry, rfl⟩)
  · exact (SamePrices.refl f).restocks

private theorem restocks_shelveAll (pairs : List CurrencyPair) {rates : List Rate}
    (hmade : ∀ rate ∈ rates, rate ∈ ratesMade f.ledger) :
    f.Restocks pairs (h.shelveAll now rates f).2 := by
  induction rates generalizing f with
  | nil => exact (SamePrices.refl f).restocks
  | cons rate rest ih =>
      have hfirst := h.restocks_shelve now f pairs (hmade rate List.mem_cons_self)
      rw [shelveAll]
      rcases hshelve : h.shelve now f rate with ⟨c | u, g⟩ <;> rw [hshelve] at hfirst
      · exact hfirst
      · refine hfirst.trans (ih g ?_)
        intro other hother
        exact ratesMade_subset hfirst.goesOn (hmade other (List.mem_cons_of_mem rate hother))

variable {h}

private theorem restocks_ask (hmarket : h.market.IsFaithful) (pair : CurrencyPair) :
    f.Restocks [pair] (h.ask now pair f).2 := by
  have hown := hmarket.price pair now f.market
  unfold ask
  rcases hprice : (h.market.price pair now).runOn f.market with ⟨c | e | rate, market⟩ <;>
    rw [hprice] at hown
  · exact ⟨List.suffix_refl _, fun r hr => .inl hr, fun _ => .inl rfl⟩
  · exact ⟨List.suffix_cons _ _, fun r hr => .inl hr, fun _ => .inl rfl⟩
  · refine ⟨List.suffix_cons _ _, ?_, fun _ => .inl rfl⟩
    intro r hr
    rcases List.mem_cons.mp hr with rfl | hr
    · exact .inr (List.mem_singleton.mpr (hown r rfl))
    · exact .inl hr

private theorem restocks_askAll (hmarket : h.market.IsFaithful) (pairs : List CurrencyPair) :
    f.Restocks pairs (h.askAll now pairs f).2 := by
  have hown := hmarket.priceAll pairs now f.market
  unfold askAll
  rcases hprice : (h.market.priceAll pairs now).runOn f.market with ⟨c | rates, market⟩ <;>
    rw [hprice] at hown
  · exact ⟨List.suffix_refl _, fun r hr => .inl hr, fun _ => .inl rfl⟩
  · refine ⟨List.suffix_cons _ _, ?_, fun _ => .inl rfl⟩
    intro r hr
    rw [ratesMade, List.flatMap_cons, List.mem_append] at hr
    exact hr.symm.imp id fun hnew => hown rates rfl r (List.mem_reverse.mp hnew)

private theorem restocks_buy (hmarket : h.market.IsFaithful) (pair : CurrencyPair) :
    f.Restocks [pair] (h.buy now f pair).2 ∧
      ∀ rate, (h.buy now f pair).1 = .ok (.ok rate) →
        rate.IsOwn pair (ratesMade (h.buy now f pair).2.ledger) := by
  have hask := restocks_ask now f hmarket pair
  have hown := hmarket.price pair now f.market
  unfold buy
  unfold ask at hask ⊢
  rcases hprice : (h.market.price pair now).runOn f.market with ⟨c | e | rate, market⟩ <;>
    rw [hprice] at hask hown
  · exact ⟨hask, fun rate heq => by cases heq⟩
  · exact ⟨hask, fun rate heq => by cases heq⟩
  · have hmade : rate ∈ ratesMade (.asked pair (.ok rate) :: f.ledger) := List.mem_cons_self
    have hshelve := h.restocks_shelve now
      { f with market, ledger := .asked pair (.ok rate) :: f.ledger } [pair] hmade
    simp only [andThen_ok, orError_ok]
    rcases heq : h.shelve now { f with market, ledger := .asked pair (.ok rate) :: f.ledger } rate
      with ⟨c | u, g⟩ <;> rw [heq] at hshelve
    · exact ⟨hask.trans hshelve, fun rate heq => by cases heq⟩
    · refine ⟨hask.trans hshelve, ?_⟩
      intro rate' heq'
      cases heq'
      exact ⟨hown rate rfl, rate, ratesMade_subset hshelve.goesOn hmade, hown rate rfl, rfl⟩

private theorem restocks_buyAll (hmarket : h.market.IsFaithful) (pairs : List CurrencyPair) :
    f.Restocks pairs (h.buyAll now f pairs).2 ∧
      ∀ rates, (h.buyAll now f pairs).1 = .ok rates →
        ∀ r ∈ rates, r ∈ ratesMade (h.buyAll now f pairs).2.ledger := by
  unfold buyAll
  split
  · refine ⟨(SamePrices.refl f).restocks, ?_⟩
    intro rates heq r hr
    cases heq
    cases hr
  · have hask := restocks_askAll now f hmarket pairs
    unfold askAll at hask ⊢
    rcases hprice : (h.market.priceAll pairs now).runOn f.market with ⟨c | rates, market⟩ <;>
      rw [hprice] at hask
    · exact ⟨hask, fun rates heq => by cases heq⟩
    · have hmade : ∀ r ∈ rates, r ∈ ratesMade (.askedAll pairs rates :: f.ledger) := fun r hr =>
        List.mem_append_left _ (List.mem_reverse.mpr hr)
      have hshelve := h.restocks_shelveAll now
        { f with market, ledger := .askedAll pairs rates :: f.ledger } pairs hmade
      simp only [andThen_ok]
      rcases heq : h.shelveAll now rates
        { f with market, ledger := .askedAll pairs rates :: f.ledger } with ⟨c | u, g⟩ <;>
        rw [heq] at hshelve
      · exact ⟨hask.trans hshelve, fun rates heq => by cases heq⟩
      · refine ⟨hask.trans hshelve, ?_⟩
        intro rates' heq' r hr
        cases heq'
        exact ratesMade_subset hshelve.goesOn (hmade r hr)

end MarketDesk

/-! ### Own records -/

namespace RunState

variable {μ : Type} {S : Set CurrencyPair} {f g : RunState PlainStore μ}

/-- A state that deals in some pairs and whose records hold for each of them own rates only. -/
structure HoldsOwn (f : RunState PlainStore μ) (S : Set CurrencyPair) : Prop where
  made : ∀ r ∈ ratesMade f.ledger, r.pair ∈ S
  records : ∀ pair ∈ S, ∀ (e : Entry) (rate : Rate), f.store.map (Records.rateKey pair) = some e →
    Document.read? e.value = some rate → rate.IsOwn pair (ratesMade f.ledger)

private theorem holdsOwn_opening (capacity : Nat) (market : μ) (S : Set CurrencyPair) :
    (opening ⟨capacity, .empty⟩ market : RunState PlainStore μ).HoldsOwn S where
  made _ hr := absurd hr List.not_mem_nil
  records _ _ _ _ hentry := by cases hentry

private theorem HoldsOwn.restocks (h : f.HoldsOwn S) (hkeys : Set.InjOn Records.rateKey S)
    {pairs : List CurrencyPair} (hrestocks : f.Restocks pairs g)
    (hpairs : ∀ pair ∈ pairs, pair ∈ S) : g.HoldsOwn S := by
  have hmade : ∀ r ∈ ratesMade g.ledger, r.pair ∈ S := fun r hr =>
    (hrestocks.made r hr).elim (h.made r) fun hnew => hpairs _ hnew
  refine ⟨hmade, ?_⟩
  intro pair hpair e rate hentry hread
  rcases hrestocks.records pair with hsame | hnone | ⟨r, hr, hkey, expiry, hwritten⟩
  · rw [hsame] at hentry
    exact (h.records pair hpair e rate hentry hread).mono (ratesMade_subset hrestocks.goesOn)
  · rw [hnone] at hentry
    cases hentry
  · rw [hwritten] at hentry
    cases hentry
    have hown : r.pair = pair := hkeys (hmade r hr) hpair hkey
    rw [(Document.keeps_rate r).read?_write] at hread
    cases hread
    exact ⟨hown, r, hr, hown, r.plain_plain.symm⟩

theorem HoldsOwn.kept (h : f.HoldsOwn S) {pair : CurrencyPair} (hpair : pair ∈ S) {now : Instant}
    {rate : Rate} (hkept : f.kept? pair now = some rate) :
    rate.IsOwn pair (ratesMade f.ledger) := by
  obtain ⟨hread, -⟩ := Option.filter_eq_some_iff.mp hkept
  obtain ⟨e, hlive, hread⟩ := Option.bind_eq_some_iff.mp hread
  obtain ⟨hentry, -⟩ := Option.filter_eq_some_iff.mp hlive
  exact h.records pair hpair e rate hentry hread

end RunState

namespace MarketDesk

open Attempt RunState

variable {μ κ : Type} {h : MarketDesk μ κ} (now : Instant) {f : RunState PlainStore μ}
  {S : Set CurrencyPair}

/-! ### What is shown -/

private theorem own_marketRate (hmarket : h.market.IsFaithful) (hf : f.HoldsOwn S) {pair : CurrencyPair}
    (hpair : pair ∈ S) :
    f.Restocks [pair] (h.serve now (h.desk.marketRate pair).run f).2 ∧
      ∀ rate, (h.serve now (h.desk.marketRate pair).run f).1 = .ok (.ok rate) →
        rate.IsOwn pair (ratesMade (h.serve now (h.desk.marketRate pair).run f).2.ledger) := by
  rw [serve_marketRate]
  cases hkept : f.kept? pair now with
  | some kept =>
      refine ⟨(SamePrices.refl f).restocks, ?_⟩
      intro rate heq
      cases heq
      exact hf.kept hpair hkept
  | none => exact restocks_buy now f hmarket pair

private theorem own_single (hmarket : h.market.IsFaithful) (hf : f.HoldsOwn S) {r : Request}
    {pair : CurrencyPair} (hsingle : r.single? h.desk = some pair) (hpair : pair ∈ S) :
    f.Restocks [pair] (h.step ⟨now, .request r⟩ f).2 ∧
      ∀ answer, (h.step ⟨now, .request r⟩ f).1 = .ok (.ok answer) →
        ∃ rate, rate.IsOwn pair (ratesMade (h.step ⟨now, .request r⟩ f).2.ledger) ∧
          r.PricedWith h.desk pair rate (.ok answer) := by
  obtain ⟨hrestocks, hown⟩ := own_marketRate now hmarket hf hpair
  rcases h.step_single now f hsingle with
    ⟨c, g, hrate, hstep⟩ | ⟨e, g, hrate, hstep⟩ | ⟨rate, g, hrate, hsame, hpriced⟩ <;>
    rw [hrate] at hrestocks hown
  · rw [hstep]
    exact ⟨hrestocks, fun answer heq => by cases heq⟩
  · rw [hstep]
    exact ⟨hrestocks, fun answer heq => by cases heq⟩
  · refine ⟨hrestocks.trans hsame.restocks, fun answer heq => ⟨rate, ?_, hpriced _ heq⟩⟩
    rw [hsame.ratesMade_eq]
    exact hown rate rfl

private theorem map_pair_filterMap_sublist {pick : CurrencyPair → Option Rate}
    {pairs : List CurrencyPair}
    (hown : ∀ pair ∈ pairs, ∀ rate, pick pair = some rate → rate.pair = pair) :
    ((pairs.filterMap pick).map (·.pair)).Sublist pairs := by
  induction pairs with
  | nil => exact .slnil
  | cons pair rest ih =>
      have hrest := ih fun p hp => hown p (List.mem_cons_of_mem pair hp)
      cases hpick : pick pair with
      | none =>
          rw [List.filterMap_cons_none hpick]
          exact hrest.cons pair
      | some rate =>
          rw [List.filterMap_cons_some hpick, List.map_cons,
            hown pair List.mem_cons_self rate hpick]
          exact hrest.cons_cons pair

private theorem own_batch (hmarket : h.market.IsFaithful) (hf : f.HoldsOwn S)
    {pairs : List CurrencyPair} (hpairs : ∀ pair ∈ pairs, pair ∈ S) :
    f.Restocks pairs (h.step ⟨now, .request (.rates pairs)⟩ f).2 ∧
      ∀ answer, (h.step ⟨now, .request (.rates pairs)⟩ f).1 = .ok (.ok answer) →
        (Request.rates pairs).ShowsOwn h.desk
          (ratesMade (h.step ⟨now, .request (.rates pairs)⟩ f).2.ledger) answer := by
  have hsub : missing now f pairs ⊆ pairs := fun pair hpair => ((mem_missing now f).mp hpair).1
  obtain ⟨hrestocks, hnew⟩ := restocks_buyAll now f hmarket (missing now f pairs)
  have hrestocks := hrestocks.mono hsub
  rw [step_rates, serve_rates, andThen_andThen]
  rcases hbuy : h.buyAll now f (missing now f pairs) with ⟨c | new, g⟩ <;>
    rw [hbuy] at hrestocks hnew
  · exact ⟨hrestocks, fun answer heq => by cases heq⟩
  · simp only [andThen_ok]
    cases hshown :
      (pairs.filterMap (Desk.pick? new (known now f pairs))).mapM h.desk.withMargin with
    | error c => exact ⟨hrestocks, fun answer heq => by cases heq⟩
    | ok shown =>
        refine ⟨hrestocks, ?_⟩
        intro answer heq
        cases heq
        have hpick : ∀ pair ∈ pairs, ∀ rate, Desk.pick? new (known now f pairs) pair = some rate →
            rate.IsOwn pair (ratesMade g.ledger) := by
          intro pair hpair rate hrate
          rw [pick?_known now f hpair, Option.or_eq_some_iff] at hrate
          rcases hrate with hrate | ⟨-, hrate⟩
          · have hmem := List.mem_reverse.mp (List.mem_of_find?_eq_some hrate)
            exact ⟨pair_of_find? hrate, rate, hnew new rfl rate hmem, pair_of_find? hrate, rfl⟩
          · exact (hf.kept (hpairs pair hpair) hrate).mono (ratesMade_subset hrestocks.goesOn)
        obtain ⟨hrates, hmargins⟩ := Desk.rates_of_withMargin hshown
        refine ⟨?_, fun r hr => ⟨?_, hmargins r hr⟩⟩
        · have hmap : shown.map (·.pair) = (shown.map (·.rate)).map (·.pair) := by
            rw [List.map_map]
            rfl
          rw [hmap, hrates]
          exact map_pair_filterMap_sublist fun pair hpair rate hrate =>
            (hpick pair hpair rate hrate).1
        · have hmem : r.rate ∈ pairs.filterMap (Desk.pick? new (known now f pairs)) :=
            hrates ▸ List.mem_map_of_mem hr
          obtain ⟨pair, hpair, hrate⟩ := List.mem_filterMap.mp hmem
          have hown := hpick pair hpair _ hrate
          have hsame : r.pair = pair := hown.1
          rw [hsame]
          exact hown

/-- A request in a state that holds own rates puts own rates on record and shows own prices. -/
theorem own_step (hmarket : h.market.IsFaithful) (hf : f.HoldsOwn S) {r : Request}
    (hneeds : ∀ pair ∈ r.needs h.desk, pair ∈ S) :
    f.Restocks (r.needs h.desk) (h.step ⟨now, .request r⟩ f).2 ∧
      ∀ answer, (h.step ⟨now, .request r⟩ f).1 = .ok (.ok answer) →
        r.ShowsOwn h.desk (ratesMade (h.step ⟨now, .request r⟩ f).2.ledger) answer := by
  by_cases hbatch : ∃ pairs, r = .rates pairs
  · obtain ⟨pairs, rfl⟩ := hbatch
    exact own_batch now hmarket hf hneeds
  · have hother : ∀ pairs, r ≠ .rates pairs := fun pairs heq => hbatch ⟨pairs, heq⟩
    have hlist := Request.needs_eq_toList h.desk hother
    have hshows : ∀ made answer, (∀ pair, r.single? h.desk = some pair →
        ∃ rate, rate.IsOwn pair made ∧ r.PricedWith h.desk pair rate (.ok answer)) →
        r.ShowsOwn h.desk made answer := by
      intro made answer hall
      cases r with
      | rates pairs => exact absurd rfl (hother pairs)
      | _ => exact hall
    cases hsingle : r.single? h.desk with
    | some pair =>
        rw [hsingle, Option.toList_some] at hlist
        have hpair : pair ∈ S := hneeds pair (hlist ▸ List.mem_cons_self)
        obtain ⟨hrestocks, hown⟩ := own_single now hmarket hf hsingle hpair
        rw [hlist]
        refine ⟨hrestocks, fun answer heq => hshows _ _ ?_⟩
        intro other hother
        rw [hsingle] at hother
        cases hother
        exact hown answer heq
    | none =>
        refine ⟨(h.samePrices_step now f hsingle hother).restocks, ?_⟩
        intro answer _
        refine hshows _ _ ?_
        intro other hother
        rw [hsingle] at hother
        cases hother

/-- A run over pairs of which no two share a key keeps own rates on record, by induction on the
visits. -/
private theorem holdsOwn_run (hmarket : h.market.IsFaithful) (hkeys : Set.InjOn Records.rateKey S)
    (hf : f.HoldsOwn S) {visits : List (Visit κ)} (hpairs : pairsNeeded h.desk visits ⊆ S) :
    (h.run visits f).2.HoldsOwn S := by
  induction visits generalizing f with
  | nil => exact hf
  | cons v rest ih =>
      rw [run_cons]
      refine ih ?_ fun pair ⟨w, hw, hr⟩ => hpairs ⟨w, List.mem_cons_of_mem v hw, hr⟩
      obtain ⟨now, r | _ | o⟩ := v
      · have hneeds : ∀ pair ∈ r.needs h.desk, pair ∈ S := fun pair hpair =>
          hpairs ⟨_, List.mem_cons_self, r, rfl, hpair⟩
        exact hf.restocks hkeys (own_step now hmarket hf hneeds).1 hneeds
      · exact ⟨hf.made, hf.records⟩
      · exact ⟨hf.made, hf.records⟩

end MarketDesk

/-! ### Pairs that share a key -/

/-- Over every run that needs rates of some pairs only, every request is shown own prices, on any
faithful market. -/
def ShowsOwnPrices (S : Set CurrencyPair) : Prop :=
  ∀ (μ κ : Type) (h : MarketDesk μ κ), h.market.IsFaithful → ∀ (capacity : Nat) (market : μ)
    (visits : List (Visit κ)) (now : Instant) (r : Request),
    Instant.Ascending (timesOf visits ++ [now]) →
    pairsNeeded h.desk (visits ++ [⟨now, .request r⟩]) ⊆ S →
    let past := (h.run visits (RunState.opening (Store.empty capacity) market)).2
    let served := h.step ⟨now, .request r⟩ past
    ∀ answer, served.1 = .ok (.ok answer) → r.ShowsOwn h.desk (ratesMade served.2.ledger) answer

/-- After every run, putting a rate of one pair on record changes nothing that is found for
another. -/
def KeepsRecordsApart (S : Set CurrencyPair) : Prop :=
  ∀ (μ κ : Type) (h : MarketDesk μ κ) (capacity : Nat) (market : μ) (visits : List (Visit κ))
    (now : Instant), Instant.Ascending (timesOf visits ++ [now]) →
    ∀ rate : Rate, rate.pair ∈ S → ∀ pair ∈ S, pair ≠ rate.pair →
    let past := (h.run visits (RunState.opening (Store.empty capacity) market)).2
    (h.serve now (h.desk.rateOnRecord pair) (h.serve now (h.desk.recordRate rate) past).2).1 =
      (h.serve now (h.desk.rateOnRecord pair) past).1

namespace MarketDesk

open Attempt RunState

variable {μ κ : Type} (h : MarketDesk μ κ) (now : Instant)

private theorem kept?_shelve_of_ne (f : RunState PlainStore μ) {rate : Rate} {pair : CurrencyPair}
    (hne : Records.rateKey pair ≠ Records.rateKey rate.pair) :
    (h.shelve now f rate).2.kept? pair now = f.kept? pair now := by
  have hassign : ∀ e,
      (f.assign (Records.rateKey rate.pair) e).kept? pair now = f.kept? pair now := by
    intro e
    simp only [kept?, live?, TimedMap.live?, f.assign_of_ne hne e]
  unfold shelve
  rcases call_set_cases now f (Records.rateKey rate.pair) (Document.write rate)
    h.desk.policy.rateLife with ⟨-, heq⟩ | ⟨e, heq⟩ | ⟨-, expiry, -, heq⟩ | ⟨-, -, heq⟩ <;> rw [heq]
  · exact hassign none
  · rfl
  · exact hassign _
  · rfl

private theorem showsOwnPrices_of_injOn {S : Set CurrencyPair} (hkeys : Set.InjOn Records.rateKey S) :
    ShowsOwnPrices S := by
  intro μ κ h hmarket capacity market visits now r horder hpairs past served answer hanswer
  obtain ⟨-, hpast⟩ := h.matches_opening capacity market horder
  obtain ⟨houtcome, hserved⟩ := h.matches_step ⟨now, .request r⟩ hpast
  have hvisits : pairsNeeded h.desk visits ⊆ S := fun pair ⟨v, hv, hr⟩ =>
    hpairs ⟨v, List.mem_append_left _ hv, hr⟩
  have hneeds : ∀ pair ∈ r.needs h.desk, pair ∈ S := fun pair hpair =>
    hpairs ⟨_, List.mem_append_right _ List.mem_cons_self, r, rfl, hpair⟩
  have hown := holdsOwn_run hmarket hkeys (holdsOwn_opening capacity market S) hvisits
  rw [hserved.ledger_eq]
  exact (own_step now hmarket hown hneeds).2 answer (houtcome ▸ hanswer)

private theorem keepsRecordsApart_of_injOn {S : Set CurrencyPair}
    (hkeys : Set.InjOn Records.rateKey S) :
    KeepsRecordsApart S := by
  intro μ κ h capacity market visits now horder rate hrate pair hpair hne past
  obtain ⟨-, hpast⟩ := h.matches_opening capacity market horder
  have hrecorded := (h.matches_serve (h.desk.recordRate rate) hpast).2
  rw [(h.matches_serve (h.desk.rateOnRecord pair) hrecorded).1,
    (h.matches_serve (h.desk.rateOnRecord pair) hpast).1, serve_rateOnRecord, serve_rateOnRecord,
    serve_recordRate, h.kept?_shelve_of_ne now _ fun hkey => hne (hkeys hpair hrate hkey)]

/-- A pair that shares the key of another is shown the rate that was put on record for that one. -/
theorem shows_rate_of_shared_key {pair other : CurrencyPair}
    (hkey : Records.rateKey other = Records.rateKey pair) {now expiry : Instant}
    (hexpiry : now.add? ScriptedMarket.validity = some expiry) {m : ScriptedMarket}
    (hset : m.rates[pair]? = some (Decimal.one, Decimal.zero)) :
    let h := ofProvider .standard
    let past := (h.run [⟨now, .request (.rate pair)⟩] (opening (Store.empty 1) (.scripted m))).2
    ∃ shown, (h.step ⟨now, .request (.rate other)⟩ past).1 = .ok (.ok (.rate shown)) ∧
      shown.pair = pair := by
  intro h past
  obtain ⟨first, g, hrun, hstore, -, -⟩ := run_rate_standard Nat.one_pos hset hexpiry
  have hentry : g.store.map (Records.rateKey pair) =
      some ⟨Document.write (Rate.atPar pair m.name now expiry), expiry⟩ := by
    rw [hstore]
    exact TimedMap.assign_self ..
  have hsoon : now.since now < ScriptedMarket.validity := by
    rw [Instant.since, Int.sub_self]
    decide
  rw [← hkey] at hentry
  obtain ⟨shown, hstep, hshown⟩ := step_rate_standard hentry hexpiry hsoon
  let visits : List (Visit Provider.Order) := [⟨now, .request (.rate pair)⟩]
  have horder : Instant.Ascending (timesOf visits ++ [now]) :=
    List.pairwise_pair.mpr (Instant.le_refl now)
  obtain ⟨-, hpast⟩ := h.matches_opening 1 (.scripted m) horder
  have houtcome := (h.matches_step ⟨now, .request (.rate other)⟩ hpast).1
  rw [hrun, hstep] at houtcome
  exact ⟨shown, houtcome, congrArg Rate.pair hshown⟩

private theorem injOn_of_showsOwnPrices {S : Set CurrencyPair} (hshows : ShowsOwnPrices S) :
    Set.InjOn Records.rateKey S := by
  intro pair hpair other hother hkey
  let now : Instant := ⟨0, by decide⟩
  have hexpiry : now.add? ScriptedMarket.validity = some ⟨30000000000, by decide⟩ := by decide
  have hset : ((ScriptedMarket.empty "par").setRate pair .one .zero).rates[pair]? =
      some (Decimal.one, Decimal.zero) := Std.HashMap.getElem?_insert_self
  obtain ⟨shown, hstep, hshown⟩ := shows_rate_of_shared_key hkey.symm hexpiry hset
  let visits : List (Visit Provider.Order) := [⟨now, .request (.rate pair)⟩]
  have horder : Instant.Ascending (timesOf visits ++ [now]) :=
    List.pairwise_pair.mpr (Instant.le_refl now)
  have hpairs : pairsNeeded Desk.standard (visits ++ [⟨now, .request (.rate other)⟩]) ⊆ S := by
    rintro p ⟨v, hv, r, hr, hp⟩
    rcases List.mem_cons.mp hv with rfl | hv
    · cases hr
      rwa [List.mem_singleton.mp hp]
    · rw [List.mem_singleton.mp hv] at hr
      cases hr
      rwa [List.mem_singleton.mp hp]
  have hown := hshows Provider Provider.Order (ofProvider .standard) Provider.isFaithful_market
    1 _ _ now (.rate other) horder hpairs _ hstep
  obtain ⟨rate, hrate, hpriced⟩ := hown other rfl
  have hsame : shown.pair = other :=
    (congrArg Rate.pair (Desk.rate_of_withMargin hpriced)).trans hrate.1
  exact hshown.symm.trans hsame

private theorem injOn_of_keepsRecordsApart {S : Set CurrencyPair} (hkeeps : KeepsRecordsApart S) :
    Set.InjOn Records.rateKey S := by
  intro pair hpair other hother hkey
  by_contra hne
  let now : Instant := ⟨0, by decide⟩
  let rate : Rate := .atPar pair "par" now ⟨30000000000, by decide⟩
  have hexpiry : now.add? ScriptedMarket.validity = some ⟨30000000000, by decide⟩ := by decide
  let h := ofProvider .standard
  let market : Provider := .scripted (.empty "par")
  let f : RunState PlainStore Provider := opening ⟨1, .empty⟩ market
  have hroom : f.store.map.count now < f.store.capacity := by
    change TimedMap.empty.count now < 1
    rw [TimedMap.count_empty]
    exact Nat.one_pos
  have hshelve : h.shelve now f rate =
      (.ok (), f.assign (Records.rateKey pair)
        (some ⟨Document.write rate, ⟨30000000000, by decide⟩⟩)) :=
    h.shelve_of_room now f hroom (by decide) hexpiry
  have hkept : (h.shelve now f rate).2.kept? other now = some rate.plain := by
    have hentry := f.assign_self (Records.rateKey pair)
      (some ⟨Document.write rate, ⟨30000000000, by decide⟩⟩)
    rw [hkey] at hentry
    have hstamp := Rate.stamped_atPar pair "par" hexpiry
    rw [hshelve, hkey, kept?_of_entry hstamp hexpiry hentry, hstamp.age_eq]
    rfl
  have hstart : Instant.Ascending (timesOf ([] : List (Visit Provider.Order)) ++ [now]) :=
    List.pairwise_singleton _ now
  have hfound := hkeeps Provider Provider.Order h 1 market [] now hstart rate hpair other hother
    fun heq => hne heq.symm
  have hopening : (opening (Store.empty 1) market).InStep f now := inStep_opening 1 market now
  have hrecorded := (h.matches_serve (h.desk.recordRate rate) hopening).2
  change (h.serve now (h.desk.rateOnRecord other)
    (h.serve now (h.desk.recordRate rate) (opening (Store.empty 1) market)).2).1 =
      (h.serve now (h.desk.rateOnRecord other) (opening (Store.empty 1) market)).1 at hfound
  rw [(h.matches_serve (h.desk.rateOnRecord other) hrecorded).1,
    (h.matches_serve (h.desk.rateOnRecord other) hopening).1, serve_rateOnRecord,
    serve_rateOnRecord, serve_recordRate, hkept] at hfound
  cases hfound

/-- Every request is shown own prices, and records of different pairs stay apart, for exactly those
pairs of which no two share a key. -/
theorem own_prices_tfae (S : Set CurrencyPair) :
    [ShowsOwnPrices S, KeepsRecordsApart S, Set.InjOn Records.rateKey S].TFAE := by
  tfae_have 1 → 3 := injOn_of_showsOwnPrices
  tfae_have 3 → 1 := showsOwnPrices_of_injOn
  tfae_have 2 → 3 := injOn_of_keepsRecordsApart
  tfae_have 3 → 2 := keepsRecordsApart_of_injOn
  tfae_finish

/-- A colon in the source code moves into the target code: once `A:B/C` was asked for, its rate is
shown for `A/B:C`, which the market prices too. -/
theorem shows_rate_of_colliding_codes :
    let pair : CurrencyPair := ⟨⟨"A:B"⟩, ⟨"C"⟩⟩
    let other : CurrencyPair := ⟨⟨"A"⟩, ⟨"B:C"⟩⟩
    let now : Instant := ⟨0, by decide⟩
    let h := ofProvider .standard
    let provider : Provider := .scripted
      (((ScriptedMarket.empty "par").setRate pair .one .zero).setRate other .one .zero)
    let past := (h.run [⟨now, .request (.rate pair)⟩] (opening (Store.empty 1) provider)).2
    h.market.IsFaithful ∧ provider.supports other = true ∧
      ∃ shown, (h.step ⟨now, .request (.rate other)⟩ past).1 = .ok (.ok (.rate shown)) ∧
        shown.pair = pair ∧ shown.pair ≠ other := by
  intro pair other now h provider past
  have hexpiry : now.add? ScriptedMarket.validity = some ⟨30000000000, by decide⟩ := by decide
  have hset : (((ScriptedMarket.empty "par").setRate pair .one .zero).setRate other .one
      .zero).rates[pair]? = some (Decimal.one, Decimal.zero) := by
    have hapart : (other == pair) = false := by decide
    simp only [ScriptedMarket.setRate]
    rw [Std.HashMap.getElem?_insert, if_neg (Bool.eq_false_iff.mp hapart),
      Std.HashMap.getElem?_insert_self]
  have hkey : Records.rateKey other = Records.rateKey pair := by decide
  obtain ⟨shown, hstep, hshown⟩ := shows_rate_of_shared_key hkey hexpiry hset
  have hne : pair ≠ other := by decide
  exact ⟨Provider.isFaithful_market, Std.HashMap.contains_insert_self, shown, hstep, hshown,
    hshown ▸ hne⟩

end MarketDesk

end Bureau
