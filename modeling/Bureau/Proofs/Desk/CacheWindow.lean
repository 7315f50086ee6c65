import Bureau.Proofs.Desk.Pricing
import Bureau.Proofs.Desk.Standard

/-!
How long a rate is used. From when it is made, a rate is kept on record for the life that the desk
gives it and quoted for the validity that the market gives it; the shorter of the two is its window.
Within its window the last rate of a pair is used and the market is left alone; after it a request
asks the market once and uses the rate that comes of it.
-/

set_option autoImplicit false

namespace Bureau

/-! ### The terms of rates -/

/-- How long rates are kept on record and quoted, and the pairs that are dealt in. -/
structure RateTerms where
  rateLife : Duration
  validFor : Duration
  pairs : Set CurrencyPair

namespace RateTerms

def window (t : RateTerms) : Duration := t.rateLife.min t.validFor

/-- Rates are kept and quoted for some time, and no two pairs share a key. -/
structure IsSound (t : RateTerms) : Prop where
  life_pos : Duration.zero < t.rateLife
  valid_pos : Duration.zero < t.validFor
  injOn_keys : Set.InjOn Records.rateKey t.pairs

/-- What is on record when a rate was the last one made, or none was. -/
inductive OnRecord (t : RateTerms) : Option Rate → Option Entry → Prop
  | absent : t.OnRecord none none
  | present {r : Rate} {made expiry : Instant} (hstamp : r.Stamped made t.validFor)
      (hexpiry : made.add? t.rateLife = some expiry) :
      t.OnRecord (some r) (some ⟨Document.write r, expiry⟩)

end RateTerms

namespace RunState

variable {μ : Type}

/-- A state whose records hold the last rate made for each pair, written when it was made. -/
structure IsStocked (f : RunState PlainStore μ) (t : RateTerms) (now : Instant) : Prop where
  records : ∀ pair ∈ t.pairs,
    t.OnRecord (lastMade? pair f.ledger) (f.store.map (Records.rateKey pair))
  made : ∀ r ∈ ratesMade f.ledger, r.pair ∈ t.pairs ∧ ∃ at? ≤ now, r.Stamped at? t.validFor
  spaced : (ratesMade f.ledger).Pairwise fun newer older =>
    newer.pair = older.pair → t.window ≤ newer.fetchedAt.since older.fetchedAt

variable {f g : RunState PlainStore μ} {t : RateTerms} {now later : Instant} {pair : CurrencyPair}

private theorem isStocked_opening (capacity : Nat) (market : μ) (t : RateTerms) (now : Instant) :
    (opening ⟨capacity, .empty⟩ market : RunState PlainStore μ).IsStocked t now where
  records _ _ := .absent
  made _ hr := absurd hr List.not_mem_nil
  spaced := .nil

theorem IsStocked.mono (h : f.IsStocked t now) (hle : now ≤ later) : f.IsStocked t later where
  records := h.records
  spaced := h.spaced
  made r hr := by
    obtain ⟨hpair, made, hmade, hstamp⟩ := h.made r hr
    exact ⟨hpair, made, Instant.le_trans hmade hle, hstamp⟩

private theorem kept?_of_onRecord
    (h : t.OnRecord (lastMade? pair f.ledger) (f.store.map (Records.rateKey pair))) (now : Instant) :
    f.kept? pair now =
      ((lastMade? pair f.ledger).filter fun r => r.age now < t.window).map (·.plain) := by
  generalize hlast : lastMade? pair f.ledger = last? at h ⊢
  generalize hentry : f.store.map (Records.rateKey pair) = e? at h
  cases h with
  | absent => rw [kept?, live?, TimedMap.live?, hentry]; rfl
  | present hstamp hexpiry =>
      rename_i r made expiry
      rw [kept?_of_entry hstamp hexpiry hentry, Option.filter_some, RateTerms.window]
      by_cases hfresh : r.age now < t.rateLife.min t.validFor
      · rw [if_pos hfresh, if_pos (decide_eq_true hfresh), Option.map_some]
      · rw [if_neg hfresh, if_neg (by rwa [decide_eq_true_eq]), Option.map_none]

/-! ### Buying -/

/-- A state after the market was asked for pairs and the rates it made were put on record. -/
structure Buys (f g : RunState PlainStore μ) (t : RateTerms) (now : Instant)
    (pairs : List CurrencyPair) (rates : List Rate) : Prop where
  ratesMade_eq : ratesMade g.ledger = rates.reverse ++ ratesMade f.ledger
  timesAsked_eq : ∀ pair, timesAsked pair g.ledger = pairs.count pair + timesAsked pair f.ledger
  ofPairs : (rates.map (·.pair)).Sublist pairs
  stamped : ∀ r ∈ rates, r.Stamped now t.validFor
  written : ∀ r ∈ rates, ∃ expiry, now.add? t.rateLife = some expiry ∧
    g.store.map (Records.rateKey r.pair) = some ⟨Document.write r, expiry⟩
  untouched : ∀ key, (∀ r ∈ rates, Records.rateKey r.pair ≠ key) →
    g.store.map key = f.store.map key

theorem Buys.refl (f : RunState PlainStore μ) (t : RateTerms) (now : Instant) :
    f.Buys f t now [] [] where
  ratesMade_eq := rfl
  timesAsked_eq _ := (Nat.zero_add _).symm
  ofPairs := .slnil
  stamped _ hr := absurd hr List.not_mem_nil
  written _ hr := absurd hr List.not_mem_nil
  untouched _ _ := rfl

end RunState

namespace MarketDesk

open Attempt RunState

variable {μ κ : Type} (h : MarketDesk μ κ) {now : Instant} {f g : RunState PlainStore μ}

private theorem goesOn_shelveAll (now : Instant) (rates : List Rate) (f : RunState PlainStore μ) :
    f.GoesOn (h.shelveAll now rates f).2 := by
  rw [← serve_recordRates]
  exact h.goesOn_serve now _ f

private theorem shelve_written {rate : Rate} (hlife : Duration.zero < h.desk.policy.rateLife)
    (hshelve : h.shelve now f rate = (.ok (), g)) (hroom : NeverRefused g.ledger) :
    ∃ expiry, now.add? h.desk.policy.rateLife = some expiry ∧
      g = f.assign (Records.rateKey rate.pair) (some ⟨Document.write rate, expiry⟩) := by
  unfold shelve at hshelve
  rcases call_set_cases now f (Records.rateKey rate.pair) (Document.write rate)
    h.desk.policy.rateLife with ⟨hnone, -⟩ | ⟨e, heq⟩ | ⟨-, expiry, hexpiry, heq⟩ | ⟨-, -, heq⟩
  · exact absurd hlife (Int.not_lt.mpr hnone)
  · rw [heq] at hshelve
    cases hshelve
    have hrefused : true = false := hroom _ List.mem_cons_self
    cases hrefused
  · rw [heq] at hshelve
    cases hshelve
    exact ⟨expiry, hexpiry, rfl⟩
  · rw [heq] at hshelve
    cases hshelve

/-- Rates of different keys that are put on record without a refusal or a crash are all written for
their life, by induction on the rates. -/
private theorem shelveAll_written {rates : List Rate} (hlife : Duration.zero < h.desk.policy.rateLife)
    (hkeys : (rates.map fun r => Records.rateKey r.pair).Nodup)
    (hshelve : h.shelveAll now rates f = (.ok (), g)) (hroom : NeverRefused g.ledger) :
    g.ledger = f.ledger ∧ g.market = f.market ∧
      (∀ r ∈ rates, ∃ expiry, now.add? h.desk.policy.rateLife = some expiry ∧
        g.store.map (Records.rateKey r.pair) = some ⟨Document.write r, expiry⟩) ∧
      ∀ key, (∀ r ∈ rates, Records.rateKey r.pair ≠ key) → g.store.map key = f.store.map key := by
  induction rates generalizing f with
  | nil =>
      cases hshelve
      exact ⟨rfl, rfl, fun r hr => absurd hr List.not_mem_nil, fun key _ => rfl⟩
  | cons rate rest ih =>
      rw [List.map_cons, List.nodup_cons] at hkeys
      rw [shelveAll] at hshelve
      rcases hfirst : h.shelve now f rate with ⟨c | u, k⟩ <;> rw [hfirst] at hshelve
      · cases hshelve
      · rw [andThen_ok] at hshelve
        have hgrows : k.GoesOn g := by
          have hrest := h.goesOn_shelveAll now rest k
          rwa [hshelve] at hrest
        obtain ⟨expiry, hexpiry, rfl⟩ := h.shelve_written hlife hfirst (hroom.of_suffix hgrows)
        obtain ⟨hledger, hmarket, hwritten, huntouched⟩ := ih hkeys.2 hshelve
        refine ⟨hledger, hmarket, ?_, ?_⟩
        · intro r hr
          rcases List.mem_cons.mp hr with rfl | hr
          · refine ⟨expiry, hexpiry, ?_⟩
            rw [huntouched _ fun other hother heq =>
              hkeys.1 (List.mem_map.mpr ⟨other, hother, heq⟩)]
            exact f.assign_self _ _
          · exact hwritten r hr
        · intro key hkey
          rw [huntouched key fun r hr => hkey r (List.mem_cons_of_mem rate hr)]
          exact f.assign_of_ne (hkey rate List.mem_cons_self).symm _

/-! ### What is bought -/

/-- A desk that deals by the terms: it keeps rates for their life, and its market stamps them. -/
structure Deals (h : MarketDesk μ κ) (t : RateTerms) (good : μ → Prop)
    (supports : μ → CurrencyPair → Bool) : Prop where
  sound : t.IsSound
  rateLife_eq : h.desk.policy.rateLife = t.rateLife
  stamps : h.market.Stamps t.validFor good supports

variable {h} {t : RateTerms} {good : μ → Prop} {supports : μ → CurrencyPair → Bool}

private theorem Deals.buys_of_note (hdeals : h.Deals t good supports) (note : Note) {rates : List Rate}
    {market : μ} (hrates : note.rates = rates.reverse)
    (hpairs : (rates.map (·.pair)).Sublist note.pairs) (hnodup : note.pairs.Nodup)
    (hdealt : ∀ pair ∈ note.pairs, pair ∈ t.pairs)
    (hstamped : ∀ r ∈ rates, r.Stamped now t.validFor)
    (hshelve : h.shelveAll now rates { f with market, ledger := note :: f.ledger } = (.ok (), g))
    (hroom : NeverRefused g.ledger) :
    f.Buys g t now note.pairs rates ∧ g.market = market := by
  have hkeys : (rates.map fun r => Records.rateKey r.pair).Nodup := by
    have hmap : (rates.map fun r => Records.rateKey r.pair) =
        (rates.map (·.pair)).map Records.rateKey := by rw [List.map_map]; rfl
    rw [hmap]
    refine (hnodup.sublist hpairs).map_on ?_
    intro p hp q hq hkey
    exact hdeals.sound.injOn_keys (hdealt p (hpairs.subset hp)) (hdealt q (hpairs.subset hq)) hkey
  have hlife := hdeals.sound.life_pos
  rw [← hdeals.rateLife_eq] at hlife
  obtain ⟨hsame, hmarket, hwritten, huntouched⟩ := h.shelveAll_written hlife hkeys hshelve hroom
  rw [hdeals.rateLife_eq] at hwritten
  refine ⟨⟨?_, ?_, hpairs, hstamped, hwritten, huntouched⟩, hmarket⟩
  · rw [hsame, ratesMade, List.flatMap_cons, hrates, ratesMade]
  · intro pair
    rw [hsame, timesAsked, List.flatMap_cons, List.count_append, timesAsked]

private theorem Deals.buys_buy (hdeals : h.Deals t good supports) {pair : CurrencyPair}
    (hpair : pair ∈ t.pairs) (hgood : good f.market) {reply : Except FxError Rate}
    (hbuy : h.buy now f pair = (.ok reply, g)) (hroom : NeverRefused g.ledger) :
    good g.market ∧ ((∃ rate, reply = .ok rate ∧ f.Buys g t now [pair] [rate]) ∨
      (∃ e, reply = .error e ∧ f.Buys g t now [pair] [] ∧ supports f.market pair = false)) := by
  have hnext := hdeals.stamps.price_good pair now f.market hgood
  have hrate := hdeals.stamps.price_rate pair now f.market
  have herror := hdeals.stamps.price_error pair now f.market
  have hdealt : ∀ p ∈ [pair], p ∈ t.pairs := by
    intro p hp
    rwa [List.mem_singleton.mp hp]
  unfold buy ask at hbuy
  rcases hprice : (h.market.price pair now).runOn f.market with ⟨c | e | rate, market⟩ <;>
    rw [hprice] at hbuy hnext hrate herror
  · cases hbuy
  · cases hbuy
    have hnone :
        h.shelveAll now [] { f with market, ledger := .asked pair (.error e) :: f.ledger } =
          (.ok (), { f with market, ledger := .asked pair (.error e) :: f.ledger }) := rfl
    have hpairs : (([] : List Rate).map (·.pair)).Sublist [pair] := List.nil_sublist _
    obtain ⟨hbuys, -⟩ := hdeals.buys_of_note (.asked pair (.error e)) rfl hpairs
      (List.nodup_singleton pair) hdealt (fun r hr => absurd hr List.not_mem_nil) hnone hroom
    exact ⟨hnext, .inr ⟨e, rfl, hbuys, herror e hgood rfl⟩⟩
  · obtain ⟨hown, hstamp⟩ := hrate rate hgood rfl
    simp only [andThen_ok, orError_ok] at hbuy
    rcases hshelve : h.shelve now
      { f with market, ledger := .asked pair (.ok rate) :: f.ledger } rate with ⟨c | u, k⟩ <;>
      rw [hshelve] at hbuy
    · cases hbuy
    · cases hbuy
      have hall : h.shelveAll now [rate]
          { f with market, ledger := .asked pair (.ok rate) :: f.ledger } = (.ok (), g) := by
        rw [shelveAll, hshelve]
        rfl
      have hpairs : ([rate].map (·.pair)).Sublist [pair] := by
        rw [List.map_singleton, hown]
      obtain ⟨hbuys, hmarket⟩ := hdeals.buys_of_note (.asked pair (.ok rate)) rfl hpairs
        (List.nodup_singleton pair) hdealt (fun r hr => List.mem_singleton.mp hr ▸ hstamp) hall
        hroom
      exact ⟨hmarket ▸ hnext, .inl ⟨rate, rfl, hbuys⟩⟩

private theorem Deals.buys_buyAll (hdeals : h.Deals t good supports) {pairs : List CurrencyPair}
    (hnodup : pairs.Nodup) (hdealt : ∀ pair ∈ pairs, pair ∈ t.pairs) (hgood : good f.market)
    {rates : List Rate} (hbuy : h.buyAll now f pairs = (.ok rates, g))
    (hroom : NeverRefused g.ledger) :
    good g.market ∧ f.Buys g t now pairs rates ∧
      ∀ pair ∈ pairs, supports f.market pair = true → pair ∈ rates.map (·.pair) := by
  unfold buyAll at hbuy
  cases pairs with
  | nil =>
      cases hbuy
      exact ⟨hgood, .refl f t now, fun pair hpair => absurd hpair List.not_mem_nil⟩
  | cons first rest =>
      rw [List.isEmpty_cons, if_neg Bool.false_ne_true] at hbuy
      have hnext := hdeals.stamps.priceAll_good (first :: rest) now f.market hgood
      have hrates := hdeals.stamps.priceAll_rates (first :: rest) now f.market
      unfold askAll at hbuy
      rcases hprice : (h.market.priceAll (first :: rest) now).runOn f.market with
        ⟨c | new, market⟩ <;> rw [hprice] at hbuy hnext hrates
      · cases hbuy
      · obtain ⟨hsub, hstamped, hall⟩ := hrates new hgood rfl
        rw [andThen_ok] at hbuy
        rcases hshelve : h.shelveAll now new
          { f with market, ledger := .askedAll (first :: rest) new :: f.ledger } with ⟨c | u, k⟩ <;>
          rw [hshelve] at hbuy
        · cases hbuy
        · cases hbuy
          obtain ⟨hbuys, hmarket⟩ := hdeals.buys_of_note (.askedAll (first :: rest) rates) rfl
            hsub hnodup hdealt hstamped hshelve hroom
          exact ⟨hmarket ▸ hnext, hbuys, hall⟩

end MarketDesk

namespace RunState

variable {μ : Type} {f g : RunState PlainStore μ} {t : RateTerms} {now later : Instant}
  {pair : CurrencyPair}

/-! ### Stock after buying -/

namespace Buys

variable {pairs : List CurrencyPair} {rates : List Rate}

private theorem lastMade?_eq (h : f.Buys g t now pairs rates) (pair : CurrencyPair) :
    lastMade? pair g.ledger =
      (rates.reverse.find? (·.pair = pair)).or (lastMade? pair f.ledger) := by
  rw [lastMade?, h.ratesMade_eq, List.find?_append, lastMade?]

theorem find?_of_mem (h : f.Buys g t now pairs rates) (hnodup : pairs.Nodup) {r : Rate}
    (hr : r ∈ rates) : rates.reverse.find? (·.pair = r.pair) = some r := by
  cases hfind : rates.reverse.find? (·.pair = r.pair) with
  | none =>
      have hother := List.find?_eq_none.mp hfind r (List.mem_reverse.mpr hr)
      exact absurd (decide_eq_true rfl) hother
  | some other =>
      have hpair : other.pair = r.pair := pair_of_find? hfind
      have hmem : other ∈ rates := List.mem_reverse.mp (List.mem_of_find?_eq_some hfind)
      rw [List.inj_on_of_nodup_map (hnodup.sublist h.ofPairs) hmem hr hpair]

private theorem find?_of_notMem (hpair : pair ∉ rates.map (·.pair)) :
    rates.reverse.find? (·.pair = pair) = none := by
  rw [List.find?_eq_none]
  intro r hr heq
  exact hpair (List.mem_map.mpr ⟨r, List.mem_reverse.mp hr, of_decide_eq_true heq⟩)

end Buys

private theorem IsStocked.pair_of_kept? (h : f.IsStocked t now) (hpair : pair ∈ t.pairs) {r : Rate}
    (hkept : f.kept? pair later = some r) : r.pair = pair := by
  rw [kept?_of_onRecord (h.records pair hpair)] at hkept
  obtain ⟨last, hlast, rfl⟩ := Option.map_eq_some_iff.mp hkept
  obtain ⟨hlast, -⟩ := Option.filter_eq_some_iff.mp hlast
  have hown : last.pair = pair := pair_of_find? hlast
  exact hown

/-- Where no rate of a pair is found on record, all that were made for it are past their window. -/
theorem IsStocked.past_window (h : f.IsStocked t now) (hpair : pair ∈ t.pairs)
    (hnone : f.kept? pair now = none) {r : Rate} (hr : r ∈ ratesMade f.ledger)
    (heq : r.pair = pair) :
    t.window ≤ (now : Timestamp).since r.fetchedAt := by
  have hfind : (ratesMade f.ledger).find? (·.pair = pair) ≠ none := by
    intro hnot
    exact List.find?_eq_none.mp hnot r hr (decide_eq_true heq)
  obtain ⟨last, hlast⟩ := Option.ne_none_iff_exists'.mp hfind
  have hold : ¬ last.age now < t.window := by
    have hkept := kept?_of_onRecord (h.records pair hpair) now
    rw [hnone, lastMade?, hlast, Option.filter_some] at hkept
    intro hfresh
    rw [if_pos (decide_eq_true hfresh)] at hkept
    cases hkept
  have hlast' : t.window ≤ (now : Timestamp).since last.fetchedAt := Int.not_lt.mp hold
  obtain ⟨hlastPair, before, after, hsplit, hbefore⟩ := List.find?_eq_some_iff_append.mp hlast
  rw [hsplit] at hr
  rcases List.mem_append.mp hr with hr | hr
  · have hnot := hbefore r hr
    rw [decide_eq_true heq] at hnot
    cases hnot
  · rcases List.mem_cons.mp hr with rfl | hr
    · exact hlast'
    · have hspaced := h.spaced
      rw [hsplit] at hspaced
      have hgap := (List.pairwise_cons.mp (List.pairwise_append.mp hspaced).2.1).1 r hr
        ((of_decide_eq_true hlastPair).trans heq.symm)
      have hmadeLast := (h.made last (List.mem_of_find?_eq_some hlast)).2
      have hmade := (h.made r (hsplit ▸ List.mem_append_right _ (List.mem_cons_of_mem _ hr))).2
      obtain ⟨lastAt, hlastAt, hlastStamp⟩ := hmadeLast
      obtain ⟨at?, -, hstamp⟩ := hmade
      rw [hlastStamp.fetchedAt_eq, hstamp.fetchedAt_eq, Timestamp.since_ofInstant] at hgap
      rw [hstamp.fetchedAt_eq, Timestamp.since_ofInstant]
      change t.window.nanos ≤ lastAt.nanos - at?.nanos at hgap
      change t.window.nanos ≤ now.nanos - at?.nanos
      have hlastAt : lastAt.nanos ≤ now.nanos := hlastAt
      omega

/-- A state stays stocked when rates of pairs are bought of which none is found on record. -/
theorem IsStocked.buys (h : f.IsStocked t now) (hsound : t.IsSound) {pairs : List CurrencyPair}
    {rates : List Rate} (hbuys : f.Buys g t now pairs rates) (hnodup : pairs.Nodup)
    (hdealt : ∀ pair ∈ pairs, pair ∈ t.pairs) (hdue : ∀ pair ∈ pairs, f.kept? pair now = none) :
    g.IsStocked t now := by
  have hof : ∀ r ∈ rates, r.pair ∈ pairs := fun r hr =>
    hbuys.ofPairs.subset (List.mem_map_of_mem hr)
  refine ⟨?_, ?_, ?_⟩
  · intro pair hpair
    rw [hbuys.lastMade?_eq]
    by_cases hnew : pair ∈ rates.map (·.pair)
    · obtain ⟨r, hr, rfl⟩ := List.mem_map.mp hnew
      obtain ⟨expiry, hexpiry, hentry⟩ := hbuys.written r hr
      rw [hbuys.find?_of_mem hnodup hr, hentry]
      exact .present (hbuys.stamped r hr) hexpiry
    · rw [Buys.find?_of_notMem hnew, Option.none_or, hbuys.untouched _ fun r hr hkey => ?_]
      · exact h.records pair hpair
      · have hsame := hsound.injOn_keys (hdealt _ (hof r hr)) hpair hkey
        exact hnew (List.mem_map.mpr ⟨r, hr, hsame⟩)
  · intro r hr
    rw [hbuys.ratesMade_eq] at hr
    rcases List.mem_append.mp hr with hr | hr
    · have hr := List.mem_reverse.mp hr
      exact ⟨hdealt _ (hof r hr), now, Instant.le_refl now, hbuys.stamped r hr⟩
    · exact h.made r hr
  · rw [hbuys.ratesMade_eq, List.pairwise_append]
    refine ⟨?_, h.spaced, ?_⟩
    · have hdistinct : (rates.reverse.map (·.pair)).Nodup := by
        rw [List.map_reverse]
        exact List.nodup_reverse.mpr (hnodup.sublist hbuys.ofPairs)
      exact (List.pairwise_map.mp hdistinct).imp fun hne heq => absurd heq hne
    · intro r hr older holder hsame
      have hr := List.mem_reverse.mp hr
      rw [(hbuys.stamped r hr).fetchedAt_eq]
      exact h.past_window (hdealt _ (hof r hr)) (hdue _ (hof r hr)) holder hsame.symm

private theorem IsStocked.samePrices (h : f.IsStocked t now) (hsame : f.SamePrices g) :
    g.IsStocked t now := by
  refine ⟨?_, ?_, ?_⟩
  · intro pair hpair
    rw [lastMade?, hsame.ratesMade_eq, hsame.rates_eq]
    exact h.records pair hpair
  · rw [hsame.ratesMade_eq]
    exact h.made
  · rw [hsame.ratesMade_eq]
    exact h.spaced

end RunState

namespace MarketDesk

open Attempt RunState

variable {μ κ : Type} {h : MarketDesk μ κ} {t : RateTerms} {good : μ → Prop}
  {supports : μ → CurrencyPair → Bool} {now : Instant} {f : RunState PlainStore μ}

/-! ### Requests -/

/-- What a request does in a state: it buys rates of the pairs that it needs and that are not found
on record, leaves prices alone from then on, and is priced with what was bought or found. -/
structure Prices (h : MarketDesk μ κ) (t : RateTerms) (good : μ → Prop)
    (supports : μ → CurrencyPair → Bool) (now : Instant) (r : Request)
    (answer : Except FxError Answer) (f g : RunState PlainStore μ) (rates : List Rate) : Prop where
  buys : f.Buys g t now (missing now f (r.needs h.desk)) rates
  market_good : good g.market
  priced : ∀ pair ∈ r.needs h.desk, supports f.market pair = true →
    ∃ used, (rates.reverse.find? (·.pair = pair)).or (f.kept? pair now) = some used ∧
      r.PricedWith h.desk pair used answer

private theorem Prices.of_needs_singleton {r : Request} {pair : CurrencyPair}
    (hneeds : r.needs h.desk = [pair]) {answer : Except FxError Answer} {g : RunState PlainStore μ}
    {rates : List Rate} (hbuys : f.Buys g t now (missing now f [pair]) rates)
    (hgood : good g.market)
    (hpriced : supports f.market pair = true →
      ∃ used, (rates.reverse.find? (·.pair = pair)).or (f.kept? pair now) = some used ∧
        r.PricedWith h.desk pair used answer) :
    h.Prices t good supports now r answer f g rates where
  buys := hneeds ▸ hbuys
  market_good := hgood
  priced := by
    rw [hneeds]
    intro other hother hsupports
    cases List.mem_singleton.mp hother
    exact hpriced hsupports

private theorem Deals.prices_single (hdeals : h.Deals t good supports) (hgood : good f.market)
    {r : Request} {pair : CurrencyPair} (hsingle : r.single? h.desk = some pair)
    (hdealt : pair ∈ t.pairs)
    (hneeds : r.needs h.desk = [pair]) {answer : Except FxError Answer}
    (hanswer : (h.step ⟨now, .request r⟩ f).1 = .ok answer)
    (hroom : NeverRefused (h.step ⟨now, .request r⟩ f).2.ledger) :
    ∃ rates g, h.Prices t good supports now r answer f g rates ∧
      g.SamePrices (h.step ⟨now, .request r⟩ f).2 := by
  have hmissing := missing_singleton now f pair
  have hcases := h.step_single now f hsingle
  rw [serve_marketRate] at hcases
  cases hkept : f.kept? pair now with
  | some kept =>
      rw [hkept] at hcases hmissing
      rcases hcases with ⟨c, g, heq, -⟩ | ⟨e, g, heq, -⟩ | ⟨rate, g, heq, hsame, hpriced⟩ <;>
        cases heq
      refine ⟨[], f, .of_needs_singleton hneeds ?_ hgood ?_, hsame⟩
      · rw [hmissing]
        exact .refl f t now
      · intro _
        exact ⟨kept, by rw [hkept]; rfl, hpriced answer hanswer⟩
  | none =>
      rw [hkept] at hcases hmissing
      rcases hcases with ⟨c, g, -, hstep⟩ | ⟨e, g, heq, hstep⟩ | ⟨rate, g, heq, hsame, hpriced⟩
      · rw [hstep] at hanswer
        cases hanswer
      · rw [hstep] at hroom ⊢
        obtain ⟨hnext, ⟨rate, hreply, -⟩ | ⟨e, hreply, hbuys, hnot⟩⟩ :=
          hdeals.buys_buy hdealt hgood heq hroom <;> cases hreply
        refine ⟨[], g, .of_needs_singleton hneeds ?_ hnext ?_, .refl g⟩
        · rw [hmissing]
          exact hbuys
        · intro hsupports
          rw [hnot] at hsupports
          cases hsupports
      · obtain ⟨hnext, ⟨new, hreply, hbuys⟩ | ⟨e, hreply, -⟩⟩ :=
          hdeals.buys_buy hdealt hgood heq (hroom.of_suffix hsame.ledger_suffix) <;> cases hreply
        have hpair : rate.pair = pair :=
          List.mem_singleton.mp (hbuys.ofPairs.subset List.mem_cons_self)
        have hfind := hbuys.find?_of_mem (List.nodup_singleton pair) (List.mem_singleton_self rate)
        rw [hpair] at hfind
        refine ⟨[rate], g, .of_needs_singleton hneeds ?_ hnext ?_, hsame⟩
        · rw [hmissing]
          exact hbuys
        · intro _
          exact ⟨rate, by rw [hfind]; rfl, hpriced answer hanswer⟩

private theorem Deals.prices_batch (hdeals : h.Deals t good supports) (hgood : good f.market)
    (hstocked : f.IsStocked t now) {pairs : List CurrencyPair}
    (hdealt : ∀ pair ∈ pairs, pair ∈ t.pairs)
    {answer : Except FxError Answer}
    (hanswer : (h.step ⟨now, .request (.rates pairs)⟩ f).1 = .ok answer)
    (hroom : NeverRefused (h.step ⟨now, .request (.rates pairs)⟩ f).2.ledger) :
    ∃ rates g, h.Prices t good supports now (.rates pairs) answer f g rates ∧
      g.SamePrices (h.step ⟨now, .request (.rates pairs)⟩ f).2 := by
  rw [step_rates, serve_rates, andThen_andThen] at hanswer hroom ⊢
  rcases hbuy : h.buyAll now f (missing now f pairs) with ⟨c | new, g⟩ <;>
    rw [hbuy] at hanswer hroom
  · cases hanswer
  · simp only [andThen_ok] at hanswer hroom ⊢
    cases hshown :
      (pairs.filterMap (Desk.pick? new (known now f pairs))).mapM h.desk.withMargin with
    | error c =>
        rw [hshown] at hanswer
        cases hanswer
    | ok shown =>
        rw [hshown] at hanswer hroom
        cases hanswer
        have hdealt' : ∀ pair ∈ missing now f pairs, pair ∈ t.pairs := fun pair hpair =>
          hdealt pair ((mem_missing now f).mp hpair).1
        obtain ⟨hnext, hbuys, hall⟩ :=
          hdeals.buys_buyAll (nodup_missing now f pairs) hdealt' hgood hbuy hroom
        refine ⟨new, g, ⟨hbuys, hnext, ?_⟩, .refl g⟩
        intro pair hpair hsupports
        have hpick := pick?_known now f hpair new
        have hsome : ∃ used, (new.reverse.find? (·.pair = pair)).or (f.kept? pair now) =
            some used := by
          cases hkept : f.kept? pair now with
          | some kept =>
              exact Option.isSome_iff_exists.mp
                (by rw [Option.isSome_or, Option.isSome_some, Bool.or_true])
          | none =>
              obtain ⟨r, hr, rfl⟩ :=
                List.mem_map.mp (hall pair ((mem_missing now f).mpr ⟨hpair, hkept⟩) hsupports)
              exact ⟨r, by rw [hbuys.find?_of_mem (nodup_missing now f pairs) hr, Option.some_or]⟩
        obtain ⟨used, hused⟩ := hsome
        refine ⟨used, hused, h.pricedWith_rates hshown ?_ hpair
          (hpick.trans hused)⟩
        intro p hp rate hrate
        rw [pick?_known now f hp, Option.or_eq_some_iff] at hrate
        rcases hrate with hrate | ⟨-, hrate⟩
        · exact pair_of_find? hrate
        · exact hstocked.pair_of_kept? (hdealt p hp) hrate

private theorem Deals.prices_step (hdeals : h.Deals t good supports) (hgood : good f.market)
    (hstocked : f.IsStocked t now) {r : Request} (hdealt : ∀ pair ∈ r.needs h.desk, pair ∈ t.pairs)
    {answer : Except FxError Answer} (hanswer : (h.step ⟨now, .request r⟩ f).1 = .ok answer)
    (hroom : NeverRefused (h.step ⟨now, .request r⟩ f).2.ledger) :
    ∃ rates g, h.Prices t good supports now r answer f g rates ∧
      g.SamePrices (h.step ⟨now, .request r⟩ f).2 := by
  by_cases hbatch : ∃ pairs, r = .rates pairs
  · obtain ⟨pairs, rfl⟩ := hbatch
    exact hdeals.prices_batch hgood hstocked hdealt hanswer hroom
  · have hother : ∀ pairs, r ≠ .rates pairs := fun pairs heq => hbatch ⟨pairs, heq⟩
    have hneeds := Request.needs_eq_toList h.desk hother
    cases hsingle : r.single? h.desk with
    | some pair =>
        rw [hsingle, Option.toList_some] at hneeds
        exact hdeals.prices_single hgood hsingle (hdealt pair (hneeds ▸ List.mem_cons_self)) hneeds
          hanswer hroom
    | none =>
        rw [hsingle, Option.toList_none] at hneeds
        refine ⟨[], f, ⟨?_, hgood, ?_⟩, h.samePrices_step now f hsingle hother⟩
        · rw [hneeds]
          exact .refl f t now
        · intro pair hpair _
          rw [hneeds] at hpair
          cases hpair

private theorem Deals.isStocked_step (hdeals : h.Deals t good supports) (hgood : good f.market)
    {v : Visit κ} (hstocked : f.IsStocked t v.time)
    (hdealt : ∀ r, v.move = .request r → ∀ pair ∈ r.needs h.desk, pair ∈ t.pairs)
    {answer : Except FxError Answer} (hanswer : (h.step v f).1 = .ok answer)
    (hroom : NeverRefused (h.step v f).2.ledger) :
    (h.step v f).2.IsStocked t v.time ∧ good (h.step v f).2.market := by
  obtain ⟨now, r | _ | o⟩ := v
  · obtain ⟨rates, g, hprices, hsame⟩ :=
      hdeals.prices_step hgood hstocked (hdealt r rfl) hanswer hroom
    have hbought := hstocked.buys hdeals.sound hprices.buys (nodup_missing now f _)
      (fun pair hpair => hdealt r rfl pair ((mem_missing now f).mp hpair).1)
      fun pair hpair => ((mem_missing now f).mp hpair).2
    exact ⟨hbought.samePrices hsame, hsame.market_eq ▸ hprices.market_good⟩
  · exact ⟨⟨hstocked.records, hstocked.made, hstocked.spaced⟩, hgood⟩
  · exact ⟨⟨hstocked.records, hstocked.made, hstocked.spaced⟩,
      hdeals.stamps.order_good o now f.market hgood⟩

private theorem goesOn_run (visits : List (Visit κ)) (f : RunState PlainStore μ) :
    f.GoesOn (h.run visits f).2 := by
  induction visits generalizing f with
  | nil => exact List.suffix_refl _
  | cons v rest ih => exact RunState.GoesOn.trans _ _ _ (h.goesOn_step v f) (ih _)

/-- A run without crashes and refusals leaves a stocked state stocked, by induction on the visits.
-/
private theorem Deals.isStocked_run (hdeals : h.Deals t good supports) (hgood : good f.market)
    {visits : List (Visit κ)} (hstocked : f.IsStocked t now) (hstart : ∀ v ∈ visits, now ≤ v.time)
    (horder : Instant.Ascending (timesOf visits))
    {later : Instant} (hnow : now ≤ later) (hend : ∀ v ∈ visits, v.time ≤ later)
    (hdealt : pairsNeeded h.desk visits ⊆ t.pairs)
    (hcrash : ∀ e ∈ (h.run visits f).1, ∃ answer, e.outcome = .ok answer)
    (hroom : NeverRefused (h.run visits f).2.ledger) :
    (h.run visits f).2.IsStocked t later ∧ good (h.run visits f).2.market := by
  induction visits generalizing f now with
  | nil => exact ⟨hstocked.mono hnow, hgood⟩
  | cons v rest ih =>
      obtain ⟨hrest, hsorted⟩ := List.pairwise_cons.mp horder
      rw [List.forall_mem_map] at hrest
      rw [run_cons] at hcrash hroom ⊢
      obtain ⟨answer, hanswer⟩ := hcrash _ List.mem_cons_self
      obtain ⟨hstep, hnext⟩ := hdeals.isStocked_step hgood
        (hstocked.mono (hstart v List.mem_cons_self))
        (fun r hr pair hpair => hdealt ⟨v, List.mem_cons_self, r, hr, hpair⟩) hanswer
        (hroom.of_suffix (goesOn_run rest _))
      refine ih hnext hstep hrest hsorted (hend v List.mem_cons_self)
        (fun w hw => hend w (List.mem_cons_of_mem v hw)) ?_
        (fun e he => hcrash e (List.mem_cons_of_mem _ he)) hroom
      rintro pair ⟨w, hw, hr⟩
      exact hdealt ⟨w, List.mem_cons_of_mem v hw, hr⟩

end MarketDesk

/-! ### The window -/

/-- The window at work on a pair that a request needs. Within the window of the last rate made for
the pair the request uses that rate, as it is kept, and the market is not asked; otherwise the
market is asked once and the request uses the rate made now. Both are valid. -/
structure Request.KeepsWindow (r : Request) (d : Desk) (window : Duration) (now : Instant)
    (pair : CurrencyPair) (answer : Except FxError Answer) (before after : List Note) : Prop where
  fresh : ∀ last, lastMade? pair before = some last → last.age now < window →
    r.PricedWith d pair last.plain answer ∧ last.plain.isValid now = true ∧
      timesAsked pair after = timesAsked pair before ∧ lastMade? pair after = some last
  due : (∀ last, lastMade? pair before = some last → ¬ last.age now < window) →
    ∃ new, lastMade? pair after = some new ∧ new.fetchedAt = ↑now ∧ new.isValid now = true ∧
      r.PricedWith d pair new answer ∧ timesAsked pair after = timesAsked pair before + 1

namespace MarketDesk

open RunState

variable {μ κ : Type} {h : MarketDesk μ κ} {t : RateTerms} {good : μ → Prop}
  {supports : μ → CurrencyPair → Bool} {now : Instant} {f g k : RunState PlainStore μ}

private theorem Prices.keepsWindow {r : Request} {answer : Except FxError Answer} {rates : List Rate}
    (hprices : h.Prices t good supports now r answer f g rates) (hsame : g.SamePrices k)
    (hsound : t.IsSound) (hstocked : f.IsStocked t now) {pair : CurrencyPair}
    (hneeds : pair ∈ r.needs h.desk) (hdealt : pair ∈ t.pairs)
    (hsupports : supports f.market pair = true) :
    r.KeepsWindow h.desk t.window now pair answer f.ledger k.ledger := by
  obtain ⟨used, hused, hpriced⟩ := hprices.priced pair hneeds hsupports
  have hkept := kept?_of_onRecord (hstocked.records pair hdealt) now
  have hasked := (hsame.timesAsked_eq pair).trans (hprices.buys.timesAsked_eq pair)
  have hlast := hprices.buys.lastMade?_eq pair
  rw [lastMade?, ← hsame.ratesMade_eq] at hlast
  constructor
  · intro last hbefore hfresh
    rw [hbefore, Option.filter_some, if_pos (decide_eq_true hfresh), Option.map_some] at hkept
    have hfound : pair ∉ missing now f (r.needs h.desk) := by
      rw [mem_missing, hkept]
      intro hmem
      exact nomatch hmem.2
    have hnone := Buys.find?_of_notMem fun hmem => hfound (hprices.buys.ofPairs.subset hmem)
    have hvalid : last.plain.isValid now = true := by
      unfold kept? at hkept
      exact (Option.filter_eq_some_iff.mp hkept).2
    rw [hnone, Option.none_or] at hused hlast
    rw [hkept] at hused
    cases hused
    rw [List.count_eq_zero_of_not_mem hfound, Nat.zero_add] at hasked
    exact ⟨hpriced, hvalid, hasked, hlast.trans hbefore⟩
  · intro hdue
    have hnone : f.kept? pair now = none := by
      rw [hkept, Option.map_eq_none_iff, Option.filter_eq_none_iff]
      intro last hbefore hfresh
      exact hdue last hbefore (of_decide_eq_true hfresh)
    have hmissing : pair ∈ missing now f (r.needs h.desk) := (mem_missing now f).mpr ⟨hneeds, hnone⟩
    rw [hnone, Option.or_none] at hused
    rw [hused, Option.some_or] at hlast
    rw [List.count_eq_one_of_mem (nodup_missing now f _) hmissing, Nat.add_comm] at hasked
    have hstamp := hprices.buys.stamped used (List.mem_reverse.mp (List.mem_of_find?_eq_some hused))
    have hvalid : used.isValid now = true := by
      have hage : used.age now = Duration.zero := by
        rw [hstamp.age_eq, Instant.since, Int.sub_self]
        rfl
      rw [hstamp.isValid_eq, hage]
      exact decide_eq_true hsound.valid_pos
    exact ⟨used, hlast, hstamp.fetchedAt_eq, hvalid, hpriced, hasked⟩

/-- Rates of a provider are used for as long as they are kept and quoted, whichever is shorter, and
no longer. Over every run from an empty store that neither crashes nor is refused room, a request
keeps the window of each pair that it needs and that can be priced, and two rates of one pair are
made at least a window apart. Codes of source currencies have no colon. -/
theorem keepsWindow_after_run (h : MarketDesk Provider Provider.Order)
    (hmarket : h.market = Provider.market) (hlife : Duration.zero < h.desk.policy.rateLife)
    (capacity : Nat) (provider : Provider)
    (hvalid : Duration.zero < provider.validity) {visits : List (Visit Provider.Order)}
    {now : Instant} (horder : Instant.Ascending (timesOf visits ++ [now])) (r : Request)
    (hcodes : ∀ pair ∈ pairsNeeded h.desk (visits ++ [⟨now, .request r⟩]),
      Records.IsColonFree pair.source)
    (hcrash : ∀ e ∈ (h.run visits (opening (Store.empty capacity) provider)).1,
      ∃ answer, e.outcome = .ok answer) :
    let past := (h.run visits (opening (Store.empty capacity) provider)).2
    let served := h.step ⟨now, .request r⟩ past
    let window := h.desk.policy.rateLife.min provider.validity
    NeverRefused served.2.ledger → ∀ answer, served.1 = .ok answer →
      (∀ pair ∈ r.needs h.desk, past.market.supports pair = true →
        r.KeepsWindow h.desk window now pair answer past.ledger served.2.ledger) ∧
      (ratesMade served.2.ledger).Pairwise fun newer older =>
        newer.pair = older.pair → window ≤ newer.fetchedAt.since older.fetchedAt := by
  intro past served window hroom answer hanswer
  obtain ⟨hepisodes, hpast⟩ := h.matches_opening capacity provider horder
  obtain ⟨houtcome, hserved⟩ := h.matches_step ⟨now, .request r⟩ hpast
  have hdeals : h.Deals
      ⟨h.desk.policy.rateLife, provider.validity, {pair | Records.IsColonFree pair.source}⟩
      (fun p => p.validity = provider.validity) Provider.supports :=
    ⟨⟨hlife, hvalid, Records.rateKey_injOn⟩, rfl, hmarket ▸ Provider.stamps_market _⟩
  obtain ⟨hsorted, -, hend⟩ := List.pairwise_append.mp horder
  rw [hepisodes] at hcrash
  have hplainRoom : NeverRefused (h.step ⟨now, .request r⟩
      (h.run visits (opening (PlainStore.mk capacity .empty) provider)).2).2.ledger :=
    hserved.ledger_eq ▸ hroom
  obtain ⟨hstocked, hgood⟩ := hdeals.isStocked_run rfl
    (isStocked_opening capacity provider _ Instant.first) (fun v _ => v.time.first_le) hsorted
    now.first_le (fun v hv => hend v.time (List.mem_map_of_mem hv) now List.mem_cons_self)
    (fun pair ⟨v, hv, hneeds⟩ => hcodes pair ⟨v, List.mem_append_left _ hv, hneeds⟩) hcrash
    (hplainRoom.of_suffix (h.goesOn_step _ _))
  have hdealt : ∀ pair ∈ r.needs h.desk, Records.IsColonFree pair.source := fun pair hpair =>
    hcodes pair ⟨_, List.mem_append_right _ List.mem_cons_self, r, rfl, hpair⟩
  have hanswer' := houtcome ▸ hanswer
  obtain ⟨rates, g, hprices, hsame⟩ := hdeals.prices_step hgood hstocked hdealt hanswer' hplainRoom
  have hnext := hdeals.isStocked_step (v := ⟨now, .request r⟩) hgood hstocked
    (fun other heq => by cases heq; exact hdealt) hanswer' hplainRoom
  constructor
  · intro pair hpair hsupports
    rw [hpast.market_eq] at hsupports
    rw [hpast.ledger_eq, hserved.ledger_eq]
    exact hprices.keepsWindow hsame hdeals.sound hstocked hpair (hdealt pair hpair) hsupports
  · rw [hserved.ledger_eq]
    exact hnext.1.spaced

/-- A request for the rate of a pair at par, and ten seconds later one for a lock: the lock is of the
rate of the first. -/
theorem keepsWindow_after_ten_seconds :
    let pair : CurrencyPair := ⟨⟨"EUR"⟩, ⟨"USD"⟩⟩
    let first : Instant := ⟨0, by decide⟩
    let second : Instant := ⟨10000000000, by decide⟩
    let provider : Provider := .scripted ((ScriptedMarket.empty "par").setRate pair .one .zero)
    let h := ofProvider .standard
    let past := (h.run [⟨first, .request (.rate pair)⟩] (opening (Store.empty 2) provider)).2
    let served := h.step ⟨second, .request (.lock pair 30)⟩ past
    let rate : Rate := .atPar pair "par" first ⟨30000000000, by decide⟩
    ∃ lock, served.1 = .ok (.ok (.lock lock)) ∧ NeverRefused served.2.ledger ∧
      (Request.lock pair 30).PricedWith h.desk pair rate.plain (.ok (.lock lock)) ∧
      timesAsked pair past.ledger = 1 ∧ timesAsked pair served.2.ledger = 1 := by
  intro pair first second provider h past served rate
  let visits : List (Visit Provider.Order) := [⟨first, .request (.rate pair)⟩]
  have horder : Instant.Ascending (timesOf visits ++ [second]) := by
    unfold Instant.Ascending timesOf
    decide
  have hset : ((ScriptedMarket.empty "par").setRate pair .one .zero).rates[pair]? =
      some (Decimal.one, Decimal.zero) := Std.HashMap.getElem?_insert_self
  have hexpiry : first.add? ScriptedMarket.validity = some ⟨30000000000, by decide⟩ := by decide
  have hsoon : second.since first < ScriptedMarket.validity := by decide
  have hclamp : LockTerms.standard.clampLength 30 = .ok (Duration.ofMillis 30000) := by decide
  have hlast : second.add? (Duration.ofMillis 30000) = some ⟨40000000000, by decide⟩ := by decide
  obtain ⟨shown, g, hrun, hstore, hmarket, hledger⟩ :=
    run_rate_standard Nat.two_pos hset hexpiry
  have hentry : g.store.map (Records.rateKey pair) =
      some ⟨Document.write rate, ⟨30000000000, by decide⟩⟩ := by
    rw [hstore]
    exact TimedMap.assign_self .empty (Records.rateKey pair) _
  have hroom : g.store.map.count second < g.store.capacity := by
    rw [hstore]
    exact Nat.lt_of_le_of_lt (TimedMap.count_assign_empty_le _ _ second) Nat.one_lt_two
  obtain ⟨lock, k, hsecond, hsame⟩ :=
    step_lock_standard hentry hexpiry hsoon hclamp (by decide) hlast hroom
  obtain ⟨hepisodes, hpast⟩ := h.matches_opening 2 provider horder
  obtain ⟨houtcome, hserved⟩ := h.matches_step ⟨second, .request (.lock pair 30)⟩ hpast
  rw [hrun, hsecond] at houtcome hserved
  have hroom' : NeverRefused served.2.ledger := by
    rw [hserved.ledger_eq, hsame, hledger]
    intro note hnote
    cases hnote with
    | head => rfl
    | tail _ hnote => cases hnote
  have hbefore : past.ledger = [.asked pair (.ok rate)] := by
    rw [hpast.ledger_eq, hrun, hledger]
    rfl
  have hneeds : (Request.lock pair 30).needs h.desk = [pair] := by
    have hclamp' : h.desk.policy.lockTerms.clampLength 30 = _ := hclamp
    rw [Request.needs_eq_toList h.desk (fun _ heq => by cases heq), Request.single?, hclamp']
    rfl
  have hkeeps := ((keepsWindow_after_run h rfl (by decide) 2 provider (by decide) horder
    (.lock pair 30) ?_ ?_) hroom' _ houtcome).1 pair (hneeds ▸ List.mem_cons_self) ?_
  · have hlast : lastMade? pair past.ledger = some rate := by
      rw [hbefore]
      decide
    obtain ⟨hpriced, -, hasked, -⟩ := hkeeps.fresh rate hlast (by decide)
    have hone : timesAsked pair past.ledger = 1 := by
      rw [hbefore]
      decide
    exact ⟨lock, houtcome, hroom', hpriced, hone, hasked.trans hone⟩
  · rintro p ⟨v, hv, r, hr, hp⟩
    have hpair : p = pair := by
      rcases List.mem_cons.mp hv with rfl | hv
      · cases hr
        exact List.mem_singleton.mp hp
      · rw [List.mem_singleton.mp hv] at hr
        cases hr
        rw [hneeds] at hp
        exact List.mem_singleton.mp hp
    rw [hpair]
    change ':' ∉ "EUR".toList
    decide
  · rw [hepisodes, hrun]
    intro e he
    rw [List.mem_singleton.mp he]
    exact ⟨_, rfl⟩
  · rw [hpast.market_eq, hrun, hmarket]
    exact Std.HashMap.contains_insert_self

end MarketDesk

end Bureau
