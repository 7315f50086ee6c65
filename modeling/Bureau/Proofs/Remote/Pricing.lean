import Bureau.Proofs.Desk.Margin
import Bureau.Proofs.Desk.Pricing
import Bureau.Proofs.Remote.Basic
import Bureau.Proofs.Program.Queries
import Bureau.Proofs.Provider.Market

/-!
Pricing with a remote store. A rate is read back if the store answers in time with the document of one
that is still valid; whatever else the store does, the market is asked instead, and nothing depends on
whether a new rate could be put on record.
-/

set_option autoImplicit false

namespace Bureau

/-! ### What a batch picks -/

namespace Desk

variable {new : List Rate} {known : List (CurrencyPair × Option Rate)} {pair : CurrencyPair}

theorem find?_of_mem {seen : Option Rate} (hnodup : (known.map (·.1)).Nodup)
    (hmem : (pair, seen) ∈ known) : known.find? (·.1 == pair) = some (pair, seen) := by
  induction known with
  | nil => cases hmem
  | cons first rest ih =>
      obtain ⟨hfirst, hrest⟩ := List.nodup_cons.mp hnodup
      rcases List.mem_cons.mp hmem with rfl | hin
      · exact List.find?_cons_of_pos (beq_self_eq_true pair)
      · have hother : first.1 ≠ pair := by
          rintro rfl
          exact hfirst (List.mem_map.mpr ⟨_, hin, rfl⟩)
        rw [List.find?_cons_of_neg (by simpa using hother)]
        exact ih hrest hin

theorem pick?_of_known {rate : Rate} (hnodup : (known.map (·.1)).Nodup)
    (hmem : (pair, some rate) ∈ known) (hnew : pair ∉ new.map (·.pair)) :
    pick? new known pair = some rate := by
  have hnone : new.reverse.find? (·.pair == pair) = none := by
    refine List.find?_eq_none.mpr fun r hr hsame => hnew ?_
    exact List.mem_map.mpr ⟨r, List.mem_reverse.mp hr, eq_of_beq hsame⟩
  rw [pick?, hnone, find?_of_mem hnodup hmem]
  rfl

theorem pick?_of_unknown (hnodup : (known.map (·.1)).Nodup) (hmem : (pair, none) ∈ known) :
    pick? new known pair = new.reverse.find? (·.pair == pair) := by
  rw [pick?, find?_of_mem hnodup hmem]
  exact Option.or_none

end Desk

namespace RemoteDesk

variable {σ μ κ α β : Type} (o : RemoteDesk σ μ κ)

theorem inquire_call_done (deadline : Nat) (c : StoreCall) (g : c.Reply → α)
    (f : RunState (Far σ) μ) :
    o.inquire deadline (.call c fun reply => .done (g reply)) f =
      ((o.call deadline c f).1.map g, (o.call deadline c f).2) := by
  rw [inquire]
  rcases o.call deadline c f with ⟨_ | reply, k⟩ <;> rfl

/-! ### Rates on record -/

open Attempt MarketDesk

def look (pair : CurrencyPair) (f : RunState (Far σ) μ) :
    Option (Except StoreError (Option String)) × RunState (Far σ) μ :=
  o.call (deadline o.marketDesk.desk f) (.get (Records.rateKey pair)) f

/-- The rate that a reply holds: one in time, with the document of a rate that is still valid. -/
def heldIn (now : Instant) : Option (Except StoreError (Option String)) → Option Rate
  | some (.ok (some text)) => (Document.read? text).filter (·.isValid now)
  | _ => none

/-- The rate on record for a pair, if it is read in time and still valid then. -/
def seen? (pair : CurrencyPair) (f : RunState (Far σ) μ) : Option Rate :=
  heldIn (o.now (o.look pair f).2) (o.look pair f).1

def note (rate : Rate) (f : RunState (Far σ) μ) : RunState (Far σ) μ :=
  (o.call (deadline o.marketDesk.desk f)
    (.set (Records.rateKey rate.pair) (Document.write rate) o.marketDesk.desk.policy.rateLife) f).2

theorem waits_look (pair : CurrencyPair) (f : RunState (Far σ) μ) : Waits f (o.look pair f).2 :=
  o.waits_call _ _ f

private theorem waits_note (rate : Rate) (f : RunState (Far σ) μ) : Waits f (o.note rate f) :=
  o.waits_call _ _ f

theorem serve_rateOnRecord (pair : CurrencyPair) (f : RunState (Far σ) μ) :
    o.serve (o.marketDesk.desk.rateOnRecord pair) f = (.ok (o.seen? pair f), (o.look pair f).2) := by
  rw [Desk.rateOnRecord, serve_bind, serve_consult, Records.findRate, Records.run_find,
    inquire_call_done, andThen_ok]
  unfold seen? look
  rcases o.call (deadline o.marketDesk.desk f) (.get (Records.rateKey pair)) f with
    ⟨_ | (detail | detail) | _ | text, g⟩
  · rfl
  · rfl
  · rfl
  · rfl
  · simp only [Option.map_some, Records.foundIn, found, heldIn]
    cases hread : (Document.read? text : Option Rate) with
    | none => rfl
    | some rate =>
        change (Except.ok (if rate.isValid (o.now g) then some rate else none), g) = _
        rw [Option.filter_some]

theorem serve_recordRate (rate : Rate) (f : RunState (Far σ) μ) :
    o.serve (o.marketDesk.desk.recordRate rate) f = (.ok (), o.note rate f) := by
  rw [Desk.recordRate, serve_bind, serve_consult, Records.saveRate, Records.run_save,
    inquire_call_done, andThen_ok]
  rfl

/-! ### Prices -/

/-- A rate from the market. The store is asked to put it on record, with whatever success. -/
def buy (pair : CurrencyPair) (f : RunState (Far σ) μ) :
    Except Crash (Except FxError Rate) × RunState (Far σ) μ :=
  andThen (o.marketDesk.ask (o.now f) pair f) (orError fun rate g => (.ok (.ok rate), o.note rate g))

theorem serve_marketRate (pair : CurrencyPair) (f : RunState (Far σ) μ) :
    o.serve (o.marketDesk.desk.marketRate pair).run f =
      match o.seen? pair f with
      | some rate => (.ok (.ok rate), (o.look pair f).2)
      | none => o.buy pair (o.look pair f).2 := by
  rw [Desk.marketRate, serve_run_lift_bind, serve_rateOnRecord, andThen_ok]
  cases o.seen? pair f with
  | some rate => rfl
  | none =>
      rw [serve_run_lift_bind, Program.rateOf, serve_price]
      simp only [serve_done]
      rw [andThen_andThen, buy]
      refine congrArg (andThen _) ?_
      funext reply g
      cases reply with
      | error e => rfl
      | ok rate =>
          change o.serve
            (ExceptT.lift (o.marketDesk.desk.recordRate rate) >>= fun _ => pure rate).run g = _
          rw [serve_run_lift_bind, serve_recordRate]
          rfl

theorem serve_rate (pair : CurrencyPair) (f : RunState (Far σ) μ) :
    o.serve (o.marketDesk.desk.rate pair).run f =
      andThen (o.serve (o.marketDesk.desk.marketRate pair).run f)
        (orError fun rate g => ((o.marketDesk.desk.withMargin rate).map .ok, g)) :=
  serveBy_rate o.endsOnCrash_handler o.marketDesk.desk pair f

/-! ### Batches -/

/-- Asks the store for the rates of several pairs, one after the other. -/
def lookEach : List CurrencyPair → RunState (Far σ) μ →
    List (CurrencyPair × Option Rate) × RunState (Far σ) μ
  | [], f => ([], f)
  | pair :: rest, f =>
      ((pair, o.seen? pair f) :: (lookEach rest (o.look pair f).2).1,
        (lookEach rest (o.look pair f).2).2)

def noteEach (rates : List Rate) (f : RunState (Far σ) μ) : RunState (Far σ) μ :=
  rates.foldl (fun g rate => o.note rate g) f

theorem waits_lookEach (pairs : List CurrencyPair) (f : RunState (Far σ) μ) :
    Waits f (o.lookEach pairs f).2 := by
  induction pairs generalizing f with
  | nil => exact .refl f
  | cons pair rest ih => exact (o.waits_look pair f).trans (ih _)

private theorem waits_noteEach (rates : List Rate) (f : RunState (Far σ) μ) :
    Waits f (o.noteEach rates f) := by
  induction rates generalizing f with
  | nil => exact .refl f
  | cons rate rest ih => exact (o.waits_note rate f).trans (ih _)

private theorem lookEach_pairs (pairs : List CurrencyPair) (f : RunState (Far σ) μ) :
    (o.lookEach pairs f).1.map (·.1) = pairs := by
  induction pairs generalizing f with
  | nil => rfl
  | cons pair rest ih => rw [lookEach, List.map_cons, ih]

theorem serve_ratesOnRecord (pairs : List CurrencyPair) (f : RunState (Far σ) μ) :
    o.serve (o.marketDesk.desk.ratesOnRecord pairs) f =
      (.ok (o.lookEach pairs f).1, (o.lookEach pairs f).2) := by
  induction pairs generalizing f with
  | nil => rfl
  | cons pair rest ih =>
      rw [Desk.ratesOnRecord, serve_bind, serve_rateOnRecord, andThen_ok, serve_bind, ih]
      rfl

theorem serve_recordRates (rates : List Rate) (f : RunState (Far σ) μ) :
    o.serve (o.marketDesk.desk.recordRates rates) f = (.ok (), o.noteEach rates f) := by
  induction rates generalizing f with
  | nil => rfl
  | cons rate rest ih =>
      rw [Desk.recordRates, serve_bind, serve_recordRate, andThen_ok, ih]
      rfl

/-- Rates from the market for a batch of pairs; an empty batch is not asked for. -/
def buyEach (pairs : List CurrencyPair) (f : RunState (Far σ) μ) :
    Except Crash (List Rate) × RunState (Far σ) μ :=
  if pairs.isEmpty then (.ok [], f)
  else andThen (o.marketDesk.askAll (o.now f) pairs f) fun rates g => (.ok rates, o.noteEach rates g)

theorem serve_newRates (pairs : List CurrencyPair) (f : RunState (Far σ) μ) :
    o.serve (o.marketDesk.desk.newRates pairs) f = o.buyEach pairs f := by
  rw [Desk.newRates, buyEach]
  split
  · rfl
  · rw [serve_bind, Program.ratesOf, serve_priceAll, andThen_andThen]
    refine congrArg (andThen _) ?_
    funext rates g
    rw [serve_done, andThen_ok, serve_bind, serve_recordRates]
    rfl

/-- The pairs of a batch for which no valid rate was read in time, each once. -/
def missing (pairs : List CurrencyPair) (f : RunState (Far σ) μ) : List CurrencyPair :=
  ((o.lookEach pairs.eraseDups f).1.filter (·.2.isNone)).map (·.1)

theorem serve_rates (pairs : List CurrencyPair) (f : RunState (Far σ) μ) :
    o.serve (o.marketDesk.desk.rates pairs) f =
      andThen (o.buyEach (o.missing pairs f) (o.lookEach pairs.eraseDups f).2) fun new g =>
        ((pairs.filterMap (Desk.pick? new (o.lookEach pairs.eraseDups f).1)).mapM
          o.marketDesk.desk.withMargin, g) := by
  rw [Desk.rates, serve_bind, serve_ratesOnRecord, andThen_ok, serve_bind, serve_newRates]
  refine congrArg (andThen _) ?_
  funext new g
  exact serve_lift o _ g

/-! ### Prices whatever the store does -/

theorem ask_look {pair : CurrencyPair} {f : RunState (Far σ) μ} {reply : Except FxError Rate}
    {market : μ} (hprice : (o.marketDesk.market.price pair (o.now (o.look pair f).2)).runOn f.market =
      (.ok reply, market)) :
    ∃ g, o.marketDesk.ask (o.now (o.look pair f).2) pair (o.look pair f).2 = (.ok reply, g) ∧
      g.market = market ∧ g.ledger = .asked pair reply :: f.ledger := by
  have hlook := o.waits_look pair f
  rw [← hlook.market_eq] at hprice
  exact ⟨_, ask_of_ok hprice, rfl, congrArg (_ :: ·) hlook.ledger_eq⟩

section Valid

variable {o} (hvalid : o.marketDesk.desk.IsValid)
include hvalid

/-- A rate that is read back in time and still valid is shown, and the market is not asked. -/
theorem serve_rate_of_seen {pair : CurrencyPair} {f : RunState (Far σ) μ} {rate : Rate}
    (hseen : o.seen? pair f = some rate) :
    ∃ shown, o.marketDesk.desk.withMargin rate = .ok shown ∧
      o.serve (o.marketDesk.desk.rate pair).run f = (.ok (.ok shown), (o.look pair f).2) := by
  obtain ⟨shown, hshown⟩ := hvalid.exists_withMargin rate
  refine ⟨shown, hshown, ?_⟩
  rw [serve_rate, serve_marketRate, hseen]
  simp only [andThen_ok, orError_ok, hshown]
  rfl

theorem serve_rate_of_price {pair : CurrencyPair} {f : RunState (Far σ) μ} {rate : Rate} {market : μ}
    (hseen : o.seen? pair f = none)
    (hprice : (o.marketDesk.market.price pair (o.now (o.look pair f).2)).runOn f.market =
      (.ok (.ok rate), market)) :
    ∃ shown g, o.marketDesk.desk.withMargin rate = .ok shown ∧
      o.serve (o.marketDesk.desk.rate pair).run f = (.ok (.ok shown), g) ∧ g.market = market ∧
      g.ledger = .asked pair (.ok rate) :: f.ledger := by
  obtain ⟨shown, hshown⟩ := hvalid.exists_withMargin rate
  obtain ⟨g, hask, hmarket, hledger⟩ := o.ask_look hprice
  have hnote := o.waits_note rate g
  refine ⟨shown, _, hshown, ?_, hnote.market_eq.trans hmarket, hnote.ledger_eq.trans hledger⟩
  rw [serve_rate, serve_marketRate, hseen]
  simp only [buy, hask, andThen_ok, orError_ok, hshown]
  rfl

end Valid

theorem serve_rate_of_error {pair : CurrencyPair} {f : RunState (Far σ) μ} {e : FxError} {market : μ}
    (hseen : o.seen? pair f = none)
    (hprice : (o.marketDesk.market.price pair (o.now (o.look pair f).2)).runOn f.market =
      (.ok (.error e), market)) :
    ∃ g, o.serve (o.marketDesk.desk.rate pair).run f = (.ok (.error e), g) ∧ g.market = market ∧
      g.ledger = .asked pair (.error e) :: f.ledger := by
  obtain ⟨g, hask, hmarket, hledger⟩ := o.ask_look hprice
  refine ⟨g, ?_, hmarket, hledger⟩
  rw [serve_rate, serve_marketRate, hseen]
  simp only [buy, hask, andThen_ok, orError_error]

theorem serve_rate_of_crash {pair : CurrencyPair} {f : RunState (Far σ) μ} {c : Crash} {market : μ}
    (hseen : o.seen? pair f = none)
    (hprice : (o.marketDesk.market.price pair (o.now (o.look pair f).2)).runOn f.market =
      (.error c, market)) :
    ∃ g, o.serve (o.marketDesk.desk.rate pair).run f = (.error c, g) ∧ g.market = market ∧
      g.ledger = f.ledger := by
  have hlook := o.waits_look pair f
  rw [← hlook.market_eq] at hprice
  refine ⟨{ (o.look pair f).2 with market }, ?_, rfl, hlook.ledger_eq⟩
  rw [serve_rate, serve_marketRate, hseen]
  simp only [buy, ask_of_crash hprice, andThen_error]

/-! ### Batches whatever the store does -/

theorem mem_missing {pairs : List CurrencyPair} {pair : CurrencyPair} {f : RunState (Far σ) μ} :
    pair ∈ o.missing pairs f ↔ (pair, none) ∈ (o.lookEach pairs.eraseDups f).1 := by
  unfold missing
  simp

theorem nodup_lookEach (pairs : List CurrencyPair) (f : RunState (Far σ) μ) :
    ((o.lookEach pairs.eraseDups f).1.map (·.1)).Nodup := by
  rw [lookEach_pairs]
  exact nodup_eraseDups pairs

theorem buyEach_nil (f : RunState (Far σ) μ) : o.buyEach [] f = (.ok [], f) := rfl

theorem buyEach_of_ok {pairs : List CurrencyPair} (hpairs : pairs ≠ []) {f : RunState (Far σ) μ}
    {new : List Rate} {market : μ}
    (hprice : (o.marketDesk.market.priceAll pairs (o.now f)).runOn f.market = (.ok new, market)) :
    ∃ g, o.buyEach pairs f = (.ok new, g) ∧ g.market = market ∧
      g.ledger = .askedAll pairs new :: f.ledger := by
  have hnote := o.waits_noteEach new { f with market, ledger := .askedAll pairs new :: f.ledger }
  refine ⟨_, ?_, hnote.market_eq, hnote.ledger_eq⟩
  rw [buyEach, if_neg fun h => hpairs (List.isEmpty_iff.mp h), askAll_of_ok hprice]
  rfl

theorem buyEach_of_crash {pairs : List CurrencyPair} (hpairs : pairs ≠ []) {f : RunState (Far σ) μ}
    {c : Crash} {market : μ}
    (hprice : (o.marketDesk.market.priceAll pairs (o.now f)).runOn f.market = (.error c, market)) :
    o.buyEach pairs f = (.error c, { f with market }) := by
  rw [buyEach, if_neg fun h => hpairs (List.isEmpty_iff.mp h), askAll_of_crash hprice]
  rfl

end RemoteDesk

end Bureau
