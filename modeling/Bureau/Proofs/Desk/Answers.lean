import Bureau.Proofs.Desk.LockBook
import Bureau.Proofs.Desk.Quotes

/-!
Requests that are answered. A request crashes only where the market crashes on what it is asked, or
where a length of time leaves the calendar: the life of a rate, the length of a lock, or an extension.
All other arithmetic of an accepted desk comes to a result, which may be an error that is reported.
-/

set_option autoImplicit false

namespace Bureau

open Attempt

namespace Attempt

variable {σ α β : Type}

def HasResult (x : Except Crash α × σ) : Prop := ∃ a, x.1 = .ok a

theorem hasResult_ok (a : α) (s : σ) : HasResult ((.ok a, s) : Except Crash α × σ) := ⟨a, rfl⟩

theorem HasResult.andThen {x : Except Crash α × σ} (hx : HasResult x)
    {next : α → σ → Except Crash β × σ} (hnext : ∀ a s, HasResult (next a s)) :
    HasResult (Attempt.andThen x next) := by
  obtain ⟨outcome, s⟩ := x
  obtain ⟨a, rfl⟩ := hx
  exact hnext a s

end Attempt

/-! ### Requests -/

/-- What a request can do with: prices for the pairs that it needs rates of, and lengths of time that
end in the calendar. -/
structure Request.Fits {μ κ : Type} (r : Request) (h : MarketDesk μ κ) (now : Instant) (market : μ)
    (book : LockBook) : Prop where
  price : ∀ pair, r.single? h.desk = some pair → HasResult ((h.market.price pair now).runOn market)
  batch : ∀ pairs, r = .rates pairs → ∀ asked, asked ≠ [] → asked ⊆ pairs →
    HasResult ((h.market.priceAll asked now).runOn market)
  rateLife : r.needs h.desk ≠ [] → now.add? h.desk.policy.rateLife ≠ none
  length : ∀ pair seconds, r = .lock pair seconds → ∃ length,
    h.desk.policy.lockTerms.clampLength seconds = .ok length ∧ now.add? length ≠ none
  grace : ∀ id grace, r = .extendLock id grace → ∀ b, book id = some b → b.isOpen now = true →
    Duration.zero < grace.min h.desk.policy.lockTerms.maxGrace →
      (b.longer (grace.min h.desk.policy.lockTerms.maxGrace)).expiry? ≠ none

theorem Request.fits_findLock {μ κ : Type} (id : LockId) (h : MarketDesk μ κ) (now : Instant)
    (market : μ)
    (book : LockBook) : (findLock id).Fits h now market book where
  price _ hpair := by cases hpair
  batch _ hr := by cases hr
  rateLife hsome := absurd rfl hsome
  length _ _ hr := by cases hr
  grace _ _ hr := by cases hr

private theorem Request.Fits.rateLife_of_single {μ κ : Type} {r : Request} {h : MarketDesk μ κ}
    {now : Instant} {market : μ} {book : LockBook} (hfits : r.Fits h now market book)
    {pair : CurrencyPair}
    (hpair : r.single? h.desk = some pair) : now.add? h.desk.policy.rateLife ≠ none := by
  refine hfits.rateLife ?_
  have hbatch : ∀ pairs, r ≠ .rates pairs := by
    rintro pairs rfl
    cases hpair
  rw [Request.needs_eq_toList h.desk hbatch, hpair]
  exact List.cons_ne_nil pair []

namespace MarketDesk

open RunState

variable {μ κ α β : Type} (h : MarketDesk μ κ) (now : Instant) (f : RunState PlainStore μ)

private theorem hasResult_orError {x : Except Crash (Except FxError α) × RunState PlainStore μ}
    (hx : HasResult x)
    {next : α → RunState PlainStore μ → Except Crash (Except FxError β) × RunState PlainStore μ}
    (hnext : ∀ a g, HasResult (next a g)) : HasResult (andThen x (orError next)) := by
  refine hx.andThen fun reply g => ?_
  cases reply with
  | ok a => exact hnext a g
  | error e => exact hasResult_ok _ g

private theorem hasResult_set (key value : String) {ttl : Duration} (hend : now.add? ttl ≠ none) :
    HasResult (call now (.set key value ttl) f) := by
  rcases call_set_cases now f key value ttl with
    ⟨-, heq⟩ | ⟨e, heq⟩ | ⟨-, expiry, -, heq⟩ | ⟨-, hnone, heq⟩
  · exact ⟨_, congrArg Prod.fst heq⟩
  · exact ⟨_, congrArg Prod.fst heq⟩
  · exact ⟨_, congrArg Prod.fst heq⟩
  · exact absurd hnone hend

private theorem hasResult_ask {pair : CurrencyPair}
    (hprice : HasResult ((h.market.price pair now).runOn f.market)) :
    HasResult (h.ask now pair f) := by
  obtain ⟨reply, hreply⟩ := hprice
  exact ⟨reply, congrArg Prod.fst (ask_of_ok (Prod.ext hreply rfl))⟩

private theorem hasResult_askAll {pairs : List CurrencyPair}
    (hprice : HasResult ((h.market.priceAll pairs now).runOn f.market)) :
    HasResult (h.askAll now pairs f) := by
  obtain ⟨rates, hrates⟩ := hprice
  exact ⟨rates, congrArg Prod.fst (askAll_of_ok (Prod.ext hrates rfl))⟩

section Rates

variable {h now} (hlife : now.add? h.desk.policy.rateLife ≠ none)
include hlife

private theorem hasResult_shelve (rate : Rate) : HasResult (h.shelve now f rate) :=
  (hasResult_set now f _ _ hlife).andThen fun _ g => hasResult_ok () g

private theorem hasResult_shelveAll (rates : List Rate) : HasResult (h.shelveAll now rates f) := by
  induction rates generalizing f with
  | nil => exact hasResult_ok () f
  | cons rate rest ih => exact (hasResult_shelve f hlife rate).andThen fun _ g => ih g

private theorem hasResult_rate (hdesk : h.desk.IsValid) {pair : CurrencyPair}
    (hprice : HasResult ((h.market.price pair now).runOn f.market)) :
    HasResult (h.serve now (h.desk.rate pair).run f) := by
  rw [serve_rate, serve_marketRate]
  refine hasResult_orError ?_ fun rate g => ?_
  · cases f.kept? pair now with
    | some rate => exact hasResult_ok _ f
    | none =>
        exact hasResult_orError (h.hasResult_ask now f hprice) fun rate g =>
          (hasResult_shelve g hlife rate).andThen fun _ k => hasResult_ok _ k
  · obtain ⟨shown, hshown⟩ := hdesk.exists_withMargin rate
    rw [hshown]
    exact hasResult_ok _ g

end Rates

private theorem hasResult_buyAll {pairs : List CurrencyPair}
    (hlife : pairs ≠ [] → now.add? h.desk.policy.rateLife ≠ none)
    (hprice : pairs ≠ [] → HasResult ((h.market.priceAll pairs now).runOn f.market)) :
    HasResult (h.buyAll now f pairs) := by
  unfold buyAll
  split_ifs with hnone
  · exact hasResult_ok [] f
  · rw [List.isEmpty_iff] at hnone
    exact (h.hasResult_askAll now f (hprice hnone)).andThen fun rates g =>
      (hasResult_shelveAll g (hlife hnone) rates).andThen fun _ k => hasResult_ok rates k

private theorem hasResult_issue (rate : ExchangeRate) {length : Duration}
    (hend : now.add? length ≠ none) :
    HasResult (h.issue now f rate length) := by
  obtain ⟨expiry, hexpiry⟩ := Option.ne_none_iff_exists'.mp hend
  rw [issue, make_eq, hexpiry]
  simp only
  split
  · exact hasResult_ok _ f.minting
  · exact (hasResult_set now f.minting _ _ hend).andThen fun _ g => hasResult_ok _ g

private theorem hasResult_extendLock {book : LockBook} (hf : f.Follows book) {id : LockId}
    {grace : Duration} (hgrace : ∀ b, book id = some b → b.isOpen now = true →
      Duration.zero < grace.min h.desk.policy.lockTerms.maxGrace →
        (b.longer (grace.min h.desk.policy.lockTerms.maxGrace)).expiry? ≠ none) :
    HasResult (h.serve now (h.desk.extendLock id grace).run f) := by
  rcases Option.eq_none_or_eq_some (book id) with hb | ⟨b, hb⟩
  · rw [h.serve_extendLock_of_gone (shownLock_of_none (hf.absent id hb))]
    exact hasResult_ok _ f
  · obtain ⟨start, expiry, hspans, hlock⟩ := hf.present id b hb
    by_cases hopen : now < expiry
    · rw [h.serve_extendLock hlock hopen]
      split_ifs with hnone
      · exact hasResult_ok _ f
      · have hlonger := hgrace b hb (by rw [hspans.isOpen_eq, decide_eq_true hopen])
          (Int.not_le.mp hnone)
        rw [hspans.longer_expiry?_eq, ne_eq, Option.map_eq_none_iff] at hlonger
        obtain ⟨later, hlater⟩ := Option.ne_none_iff_exists'.mp hlonger
        rw [hlater]
        exact hasResult_ok _ _
    · have hgone : f.shownLock id now = .gone id := by rw [hlock.shownLock_eq, if_neg hopen]
      rw [h.serve_extendLock_of_gone hgone]
      exact hasResult_ok _ f

/-- A request that fits is answered, in a state that follows the book of locks. -/
theorem hasResult_request (hdesk : h.desk.IsValid) {book : LockBook} (hf : f.Follows book)
    {r : Request} (hfits : r.Fits h now f.market book) :
    HasResult (h.step ⟨now, .request r⟩ f) := by
  cases r with
  | rate pair =>
      rw [step_rate]
      exact hasResult_orError
        (hasResult_rate f (hfits.rateLife_of_single rfl) hdesk (hfits.price pair rfl))
        fun _ g => hasResult_ok _ g
  | rates pairs =>
      rw [step_rates, serve_rates]
      have hasked : missing now f pairs ⊆ pairs := fun pair hpair =>
        ((mem_missing now f).mp hpair).1
      have hbuy : HasResult (h.buyAll now f (missing now f pairs)) :=
        h.hasResult_buyAll now f
          (fun hsome => hfits.rateLife fun hnone : pairs = [] =>
            hsome (List.subset_nil.mp (hnone ▸ hasked)))
          fun hsome => hfits.batch pairs rfl _ hsome hasked
      refine (hbuy.andThen fun new g => ?_).andThen fun _ g => hasResult_ok _ g
      exact hdesk.exists_mapM_withMargin _
  | quote pair amount =>
      rw [step_quote, serve_quote]
      refine hasResult_orError ?_ fun _ g => hasResult_ok _ g
      cases hcorridor : h.desk.corridorFor pair amount with
      | error e => exact hasResult_ok _ f
      | ok corridor =>
          have hsingle : (Request.quote pair amount).single? h.desk = some pair := by
            rw [Request.single?, hcorridor]
          refine hasResult_orError
            (hasResult_rate f (hfits.rateLife_of_single hsingle) hdesk (hfits.price pair hsingle))
            fun rate g => ?_
          obtain ⟨offer, hoffer⟩ := Desk.exists_quoteAt corridor rate pair amount
          exact hasResult_orError ⟨offer, hoffer⟩ fun _ k => hasResult_ok _ k.minting
  | lock pair seconds =>
      obtain ⟨length, hlength, hend⟩ := hfits.length pair seconds rfl
      have hsingle : (Request.lock pair seconds).single? h.desk = some pair := by
        rw [Request.single?, hlength]
      rw [step_lock, serve_lock, hlength]
      refine hasResult_orError ?_ fun _ g => hasResult_ok _ g
      exact hasResult_orError
        (hasResult_rate f (hfits.rateLife_of_single hsingle) hdesk (hfits.price pair hsingle))
        fun rate g => h.hasResult_issue now g rate hend
  | findLock id =>
      rw [step_findLock, serve_findLock]
      exact hasResult_ok _ f
  | deleteLock id =>
      rw [step_deleteLock, serve_deleteLock]
      exact hasResult_ok _ _
  | extendLock id grace =>
      rw [step_extendLock]
      exact hasResult_orError (h.hasResult_extendLock now f hf (hfits.grace id grace rfl))
        fun _ g => hasResult_ok _ g
  | health =>
      rw [step_health, Desk.health, serve_consult]
      exact hasResult_ok _ f

end MarketDesk

end Bureau
