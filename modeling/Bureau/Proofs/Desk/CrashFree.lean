import Bureau.Proofs.Desk.Answers
import Bureau.Proofs.Desk.LockLength
import Bureau.Proofs.Desk.Standard
import Bureau.Proofs.Provider.Independence
import Bureau.Proofs.Provider.Moderate

/-!
Runs without a crash. Before a simulated market, a desk that was accepted answers every request that
fits. With moderate settings all of them do before the year 10000: no price crashes, and no lock
outlives the calendar unless it is extended for ages. An offset that leaves too little of a base rate
does crash the next price.
-/

set_option autoImplicit false

namespace Bureau

open Attempt

/-! ### Terms of locks -/

/-- What makes terms of locks acceptable. -/
structure LockTerms.IsValid (terms : LockTerms) : Prop where
  default_pos : Duration.zero < terms.defaultLength
  default_le : terms.defaultLength ≤ terms.maxLength
  grace_nonneg : Duration.zero ≤ terms.maxGrace

theorem LockTerms.isValid_of_validate {terms : LockTerms} (h : terms.validate = .ok ()) :
    terms.IsValid := by
  unfold validate at h
  split_ifs at h with hdefault hmax hgrace
  exact ⟨Int.not_le.mp hdefault, Int.not_lt.mp hmax, Int.not_lt.mp hgrace⟩

private theorem Policy.isValid_lockTerms {p : Policy} (h : p.validate = .ok ()) :
    p.lockTerms.IsValid := by
  unfold validate at h
  split_ifs at h
  exact LockTerms.isValid_of_validate h

namespace LockTerms.IsValid

variable {terms : LockTerms} (h : terms.IsValid)
include h

private theorem wholeSeconds_eq :
    terms.maxLength.wholeSeconds = terms.maxLength.nanos / 1000000000 := by
  have hpos : 0 < terms.defaultLength.nanos := h.default_pos
  have hle : terms.defaultLength.nanos ≤ terms.maxLength.nanos := h.default_le
  exact Int.tdiv_eq_ediv_of_nonneg (by omega)

private theorem length_bounds {seconds : Int} {length : Duration}
    (hclamp : terms.clampLength seconds = .ok length) :
    0 < length.nanos ∧ length.nanos ≤ terms.maxLength.nanos := by
  have hpos : 0 < terms.defaultLength.nanos := h.default_pos
  have hle : terms.defaultLength.nanos ≤ terms.maxLength.nanos := h.default_le
  unfold clampLength at hclamp
  split_ifs at hclamp with hnone hgreat
  · cases hclamp
    exact ⟨hpos, hle⟩
  · cases hclamp
    exact ⟨by omega, Int.le_refl _⟩
  · have hlength := unless_eq_ok hclamp
    unfold Duration.seconds? at hlength
    split_ifs at hlength
    cases hlength
    rw [h.wholeSeconds_eq] at hgreat
    change 0 < seconds * 1000 * 1000000 ∧ seconds * 1000 * 1000000 ≤ terms.maxLength.nanos
    omega

end LockTerms.IsValid

private theorem LockTerms.exists_clampLength {terms : LockTerms} {now last : Instant}
    (hlast : now.add? terms.maxLength = some last) (seconds : Int) :
    ∃ length, terms.clampLength seconds = .ok length := by
  obtain ⟨-, hlength⟩ | ⟨-, hlength⟩ := clampLength_eq (Duration.le_greatest_of_add? hlast) seconds
  · exact ⟨_, hlength⟩
  · exact ⟨_, hlength⟩

/-! ### Locks that end in time -/

def Visit.isExtension {κ : Type} (v : Visit κ) : Bool :=
  match v.move with
  | .request (.extendLock _ _) => true
  | _ => false

def Visit.grace {κ : Type} (v : Visit κ) (maxGrace : Duration) : Int :=
  if v.isExtension then maxGrace.nanos else 0

def totalGrace {κ : Type} (visits : List (Visit κ)) (maxGrace : Duration) : Int :=
  visits.countP (·.isExtension) * maxGrace.nanos

private theorem totalGrace_cons {κ : Type} (v : Visit κ) (rest : List (Visit κ)) (maxGrace : Duration) :
    totalGrace (v :: rest) maxGrace = v.grace maxGrace + totalGrace rest maxGrace := by
  unfold totalGrace Visit.grace
  rw [List.countP_cons]
  split_ifs
  · push_cast
    ring
  · simp

namespace LockBook

variable {κ : Type} {book : LockBook} {limit : Int}

/-- Every lock in the book lapses by a limit. -/
def EndsBy (book : LockBook) (limit : Int) : Prop :=
  ∀ id b, book id = some b → ∃ start expiry, b.Spans start expiry ∧ expiry.nanos ≤ limit

private theorem endsBy_empty (limit : Int) : empty.EndsBy limit := fun id b hb => by cases hb

theorem EndsBy.mono (h : book.EndsBy limit) {later : Int} (hle : limit ≤ later) :
    book.EndsBy later := by
  intro id b hb
  obtain ⟨start, expiry, hspans, hend⟩ := h id b hb
  exact ⟨start, expiry, hspans, hend.trans hle⟩

theorem EndsBy.update (h : book.EndsBy limit) (id : LockId) (b? : Option Booking)
    (hnew : ∀ b, b? = some b → ∃ start expiry, b.Spans start expiry ∧ expiry.nanos ≤ limit) :
    EndsBy (Function.update book id b?) limit := by
  intro other b hb
  by_cases hother : other = id
  · subst hother
    rw [Function.update_self] at hb
    exact hnew b hb
  · rw [Function.update_of_ne hother] at hb
    exact h other b hb

theorem EndsBy.extend (h : book.EndsBy limit) {maxGrace : Duration} (hgrace : Duration.zero ≤ maxGrace)
    (id : LockId) (grace : Duration) (now : Instant) :
    EndsBy (Function.update book id ((book id).map (·.extend (grace.min maxGrace) now)))
      (limit + maxGrace.nanos) := by
  have hgrace' : 0 ≤ maxGrace.nanos := hgrace
  refine (h.mono (by omega)).update id _ fun c hc => ?_
  obtain ⟨b, hb, rfl⟩ := Option.map_eq_some_iff.mp hc
  obtain ⟨start, expiry, hspans, hend⟩ := h id b hb
  rw [hspans.extend_eq]
  split_ifs with hall
  · obtain ⟨later, hlater⟩ := Option.isSome_iff_exists.mp hall.2.2
    have hmin : (grace.min maxGrace).nanos ≤ maxGrace.nanos := grace.min_le_right maxGrace
    refine ⟨start, later, hspans.longer hlater, ?_⟩
    rw [Instant.add?_eq_some_iff] at hlater
    omega
  · exact ⟨start, expiry, hspans, by omega⟩

theorem EndsBy.note (h : book.EndsBy limit) {maxGrace : Duration} (hgrace : Duration.zero ≤ maxGrace)
    (e : Episode κ)
    (hlock : ∀ pair seconds lock, e.visit.move = .request (.lock pair seconds) →
      e.outcome = .ok (.ok (.lock lock)) →
        ∃ expiry : Instant, lock.expiresAt = some ↑expiry ∧ expiry.nanos ≤ limit) :
    (book.note maxGrace e).EndsBy (limit + e.visit.grace maxGrace) := by
  obtain ⟨⟨time, move⟩, outcome⟩ := e
  have hsame : book.EndsBy (limit + 0) := h.mono (by omega)
  obtain r | _ | o := move
  · cases r with
    | lock pair seconds =>
        rcases outcome with c | e | a
        · exact hsame
        · exact hsame
        · cases a with
          | lock lock =>
              obtain ⟨expiry, hexpiry, hend⟩ := hlock pair seconds lock rfl rfl
              refine hsame.update lock.lockId _ fun b hb => ?_
              cases hb
              exact ⟨expiry, expiry, ⟨hexpiry, Instant.add?_eq_some_iff.mpr (Int.add_zero _).symm⟩,
                by omega⟩
          | _ => exact hsame
    | deleteLock id => exact hsame.update id none fun b hb => by cases hb
    | extendLock id grace => exact h.extend hgrace id grace time
    | _ => exact hsame
  · exact hsame
  · exact hsame

end LockBook

/-! ### Moderate runs -/

private theorem Policy.rateLife_pos {p : Policy} (h : p.validate = .ok ()) :
    Duration.zero < p.rateLife := by
  unfold validate at h
  split_ifs at h with hlife
  exact Int.not_le.mp hlife

/-- A policy whose lengths of time are moderate for a number of visits: neither a rate nor a lock with
all the grace that can be asked for outlives the calendar. -/
structure Policy.IsModerate {κ : Type} (p : Policy) (visits : List (Visit κ)) : Prop where
  rateLife : p.rateLife ≤ Instant.longest
  locks : p.lockTerms.maxLength.nanos + totalGrace visits p.lockTerms.maxGrace ≤
    Instant.longest.nanos

/-- A visit before the year 10000, with a moderate order if it is one. -/
structure Visit.IsModerate (v : Visit Provider.Order) : Prop where
  time : v.time.IsFourDigit
  order : ∀ o, v.move = .order o → o.IsModerate

private theorem Visit.IsModerate.of_request {now : Instant} (hnow : now.IsFourDigit) (r : Request) :
    IsModerate ⟨now, .request r⟩ := ⟨hnow, fun o ho => by cases ho⟩

/-- A state before a moderate provider whose locks lapse by a limit. -/
structure RunState.IsModerate (f : RunState PlainStore Provider) (book : LockBook) (limit : Int) :
    Prop where
  follows : f.Follows book
  market : f.market.IsModerate
  endsBy : book.EndsBy limit

namespace MarketDesk

open RunState

variable {h : MarketDesk Provider Provider.Order} {f : RunState PlainStore Provider} {book : LockBook}
  {limit : Int} {now : Instant}

private theorem step_order {o : Provider.Order} {market : Provider}
    (hobeyed : (h.market.order o now).runOn f.market = (.ok (), market)) :
    h.step ⟨now, .order o⟩ f = (.ok (.ok .done), { f with market }) := by
  simp only [step, hobeyed]
  rfl

private theorem expiresAt_of_step_lock {pair : CurrencyPair} {seconds : Int} {lock : LockedRate}
    (hlock : (h.step ⟨now, .request (.lock pair seconds)⟩ f).1 = .ok (.ok (.lock lock))) :
    ∃ length expiry, h.desk.policy.lockTerms.clampLength seconds = .ok length ∧
      now.add? length = some expiry ∧ lock.expiresAt = some ↑expiry := by
  rw [step_lock] at hlock
  rcases h.lock_cases now f pair seconds with
    ⟨made, expiry, g, -, heq, -, hexpires, length, hlength, hend⟩ | ⟨-, hother⟩
  · rw [heq] at hlock
    cases hlock
    exact ⟨length, expiry, hlength, hend, hexpires⟩
  · rcases hserve : h.serve now (h.desk.lock pair seconds).run f with ⟨c | e | made, g⟩ <;>
      rw [hserve] at hlock hother
    · cases hlock
    · cases hlock
    · exact absurd rfl (hother made)

section Moderate

variable (hmarket : h.market = Provider.market) (hdesk : h.desk.IsValid)
  (hlife : h.desk.policy.rateLife ≤ Instant.longest)
  (hlength : h.desk.policy.lockTerms.maxLength ≤ Instant.longest)
include hmarket hdesk

private theorem hasResult_visit (hf : f.Follows book) {v : Visit Provider.Order}
    (hfits : ∀ r, v.move = .request r → r.Fits h v.time f.market book) : HasResult (h.step v f) := by
  obtain ⟨now, r | _ | o⟩ := v
  · exact h.hasResult_request now f hdesk hf (hfits r rfl)
  · exact hasResult_ok _ _
  · have hobeyed : ((h.market.order o now).runOn f.market).1 = .ok () := by
      rw [hmarket]
      exact Provider.obey_ok f.market o now
    exact ⟨.ok .done, congrArg Prod.fst (step_order (Prod.ext hobeyed rfl))⟩

/-- A moderate visit leaves a moderate state; an extension moves the limit by the greatest grace. -/
theorem isModerate_step (hf : f.IsModerate book limit) {v : Visit Provider.Order} (hv : v.IsModerate)
    (hlimit : Instant.yearTenThousand + h.desk.policy.lockTerms.maxLength.nanos ≤ limit) :
    (h.step v f).2.IsModerate
      (book.note h.desk.policy.lockTerms.maxGrace ⟨v, (h.step v f).1⟩)
      (limit + v.grace h.desk.policy.lockTerms.maxGrace) where
  follows := h.follows_step hf.follows v
  market := by
    obtain ⟨now, r | _ | o⟩ := v
    · have hkeeps : h.market.KeepsPricing Provider.IsModerate := by
        rw [hmarket]
        exact Provider.keepsPricing_moderate
      exact keeps_serve hkeeps now _ f hf.market
    · exact hf.market
    · change ((h.market.order o now).runOn f.market).2.IsModerate
      rw [hmarket]
      exact hf.market.obey (hv.order o rfl) now
  endsBy := by
    have hterms := Policy.isValid_lockTerms hdesk.policy
    refine hf.endsBy.note hterms.grace_nonneg ⟨v, (h.step v f).1⟩ ?_
    rintro pair seconds lock hmove houtcome
    obtain ⟨now, move⟩ := v
    cases hmove
    obtain ⟨length, expiry, hclamp, hend, hexpires⟩ := expiresAt_of_step_lock houtcome
    have hle := (hterms.length_bounds hclamp).2
    have hnow : now.nanos < Instant.yearTenThousand := hv.time
    rw [Instant.add?_eq_some_iff] at hend
    exact ⟨expiry, hexpires, by omega⟩

include hlife hlength

/-- In a moderate state the request of a moderate visit fits. -/
theorem fits_of_moderate (hf : f.IsModerate book limit) {v : Visit Provider.Order}
    (hv : v.IsModerate) (hlimit : limit + v.grace h.desk.policy.lockTerms.maxGrace ≤ calendarEnd)
    {r : Request} (hmove : v.move = .request r) : r.Fits h v.time f.market book where
  price pair _ := by
    obtain ⟨reply, q, hreply, -⟩ := hf.market.exists_price hv.time pair
    rw [hmarket]
    exact ⟨reply, congrArg Prod.fst hreply⟩
  batch _ _ asked _ _ := by
    rw [hmarket]
    exact hf.market.exists_priceAll hv.time asked
  rateLife _ := by
    have hpos := Policy.rateLife_pos hdesk.policy
    obtain ⟨last, hlast⟩ := hv.time.exists_add? (Int.le_of_lt hpos) hlife
    rw [hlast]
    exact Option.some_ne_none last
  length pair seconds _ := by
    have hterms := Policy.isValid_lockTerms hdesk.policy
    have hdefault : 0 < h.desk.policy.lockTerms.defaultLength.nanos := hterms.default_pos
    have hle : h.desk.policy.lockTerms.defaultLength.nanos ≤
        h.desk.policy.lockTerms.maxLength.nanos := hterms.default_le
    obtain ⟨last, hlast⟩ := hv.time.exists_add? (by omega) hlength
    obtain ⟨length, hclamp⟩ := LockTerms.exists_clampLength hlast seconds
    obtain ⟨hpos, hshort⟩ := hterms.length_bounds hclamp
    obtain ⟨expiry, hexpiry⟩ := hv.time.exists_add? hpos.le (Int.le_trans hshort hlength)
    exact ⟨length, hclamp, by rw [hexpiry]; exact Option.some_ne_none expiry⟩
  grace id grace hr b hb hopen hpos := by
    subst hr
    obtain ⟨start, expiry, hspans, hend⟩ := hf.endsBy id b hb
    have hmin : (grace.min h.desk.policy.lockTerms.maxGrace).nanos ≤
        h.desk.policy.lockTerms.maxGrace.nanos := grace.min_le_right _
    rw [Visit.grace, Visit.isExtension, hmove, if_pos rfl] at hlimit
    obtain ⟨later, hlater⟩ := Instant.exists_add? (t := expiry) (Int.le_of_lt hpos) (by omega)
    rw [hspans.longer_expiry?_eq, hlater]
    exact Option.some_ne_none _

/-- Moderate visits are answered one after the other, by induction on the visits. -/
private theorem hasResult_run {visits : List (Visit Provider.Order)}
    (hvisits : ∀ v ∈ visits, v.IsModerate) (hf : f.IsModerate book limit)
    (hlow : Instant.yearTenThousand + h.desk.policy.lockTerms.maxLength.nanos ≤ limit)
    (hhigh : limit + totalGrace visits h.desk.policy.lockTerms.maxGrace ≤ calendarEnd) :
    ∀ e ∈ (h.run visits f).1, ∃ answer, e.outcome = .ok answer := by
  induction visits generalizing f book limit with
  | nil => exact fun e he => absurd he List.not_mem_nil
  | cons v rest ih =>
      have hgrace : 0 ≤ h.desk.policy.lockTerms.maxGrace.nanos :=
        (Policy.isValid_lockTerms hdesk.policy).grace_nonneg
      have hrest : 0 ≤ totalGrace rest h.desk.policy.lockTerms.maxGrace :=
        mul_nonneg (Int.natCast_nonneg _) hgrace
      have hown : 0 ≤ v.grace h.desk.policy.lockTerms.maxGrace := by
        unfold Visit.grace
        split_ifs <;> omega
      rw [totalGrace_cons] at hhigh
      have hv := hvisits v List.mem_cons_self
      intro e he
      rw [run_cons] at he
      rcases List.mem_cons.mp he with rfl | he
      · exact hasResult_visit hmarket hdesk hf.follows fun r hmove =>
          fits_of_moderate hmarket hdesk hlife hlength hf hv (by omega) hmove
      · exact ih (fun w hw => hvisits w (List.mem_cons_of_mem v hw))
          (isModerate_step hmarket hdesk hf hv hlow) (by omega) (by omega) e he

end Moderate

/-- Before a simulated market, an accepted desk answers every visit whose request fits, whatever came
before. With moderate settings and a moderate policy it answers all moderate visits. -/
theorem answers_visits (h : MarketDesk Provider Provider.Order) (hmarket : h.market = Provider.market)
    (hdesk : h.desk.IsValid) {s : MarketSettings} {entropy : UInt64} {m : SimulatedMarket}
    (hm : SimulatedMarket.make s entropy = .ok m) (capacity : Nat) :
    let start := opening (Store.empty capacity) (Provider.simulated m)
    (∀ past v, Instant.Ascending (timesOf past ++ [v.time]) →
      (∀ r, v.move = .request r → r.Fits h v.time (h.run past start).2.market
        (LockBook.ofEpisodes h.desk.policy.lockTerms.maxGrace (h.run past start).1)) →
      ∃ answer, (h.step v (h.run past start).2).1 = .ok answer) ∧
    (s.IsModerate → ∀ visits, Instant.Ascending (timesOf visits) → h.desk.policy.IsModerate visits →
      (∀ v ∈ visits, v.IsModerate) →
      ∀ e ∈ (h.run visits start).1, ∃ answer, e.outcome = .ok answer) := by
  intro start
  constructor
  · intro past v horder hfits
    obtain ⟨hepisodes, hstep⟩ := h.matches_opening capacity (.simulated m) horder
    rw [(h.matches_step v hstep).1]
    rw [hepisodes, hstep.market_eq] at hfits
    exact hasResult_visit hmarket hdesk (h.follows_run (follows_opening capacity _) past) hfits
  · intro hs visits horder hpolicy hvisits
    have hmoderate : RunState.IsModerate (opening ⟨capacity, .empty⟩ (.simulated m)) .empty
        (Instant.yearTenThousand + h.desk.policy.lockTerms.maxLength.nanos) :=
      ⟨follows_opening capacity _, ⟨m, rfl, SimulatedMarket.isModerate_of_make hm hs⟩,
        LockBook.endsBy_empty _⟩
    have hgrace : 0 ≤ h.desk.policy.lockTerms.maxGrace.nanos :=
      (Policy.isValid_lockTerms hdesk.policy).grace_nonneg
    have htotal : 0 ≤ totalGrace visits h.desk.policy.lockTerms.maxGrace :=
      mul_nonneg (Int.natCast_nonneg _) hgrace
    have hlocks := hpolicy.locks
    have hend := Instant.yearTenThousand_add_longest_le
    have hlength : h.desk.policy.lockTerms.maxLength ≤ Instant.longest := by
      change h.desk.policy.lockTerms.maxLength.nanos ≤ Instant.longest.nanos
      omega
    rw [h.episodes_opening capacity _ horder]
    exact hasResult_run hmarket hdesk hpolicy.rateLife hlength hvisits hmoderate (Int.le_refl _)
      (by omega)

/-- The standard desk before the standard market in 2001: with a small offset all is answered, and with
almost nothing left of a base rate a lock can still be looked for. -/
theorem answers_visits_standard :
    let euro : CurrencyPair := ⟨⟨"EUR"⟩, ⟨"USD"⟩⟩
    let now : Instant := ⟨10 ^ 18, by decide⟩
    let later : Instant := ⟨10 ^ 18 + 10 ^ 10, by decide⟩
    let start := opening (Store.empty 2) (Provider.simulated ⟨.standard, 0, ∅⟩)
    let lose : Visit Provider.Order := ⟨now, .order (.setDrift euro SimulatedMarket.almostAll)⟩
    let visits : List (Visit Provider.Order) := [⟨now, .order (.setDrift euro Decimal.twoPercent)⟩,
      ⟨now, .request (.lock euro 30)⟩, ⟨later, .request (.extendLock ⟨"token"⟩ ⟨10 ^ 10⟩)⟩,
      ⟨later, .request (.rates [euro, euro.inverse])⟩]
    (∃ answer, ((ofProvider .standard).step ⟨now, .request (.findLock ⟨"token"⟩)⟩
      ((ofProvider .standard).run [lose] start).2).1 = .ok answer) ∧
    ∀ e ∈ ((ofProvider .standard).run visits start).1, ∃ answer, e.outcome = .ok answer := by
  intro euro now later start lose visits
  have hpast : Instant.Ascending (timesOf [lose] ++ [now]) := by decide
  have hvisits : Instant.Ascending (timesOf visits) := by decide
  have hpolicy : Policy.standard.IsModerate visits := ⟨by decide, by decide⟩
  have hvalid : MarketSettings.standard.validate = .ok () := by decide +kernel
  obtain ⟨hfits, hmoderate⟩ := answers_visits (ofProvider .standard) rfl Desk.isValid_standard
    (SimulatedMarket.make_of_validate hvalid 0) 2
  constructor
  · refine hfits [lose] _ hpast ?_
    intro r hr
    cases hr
    exact Request.fits_findLock _ _ _ _ _
  · refine hmoderate (MarketSettings.isModerate_iff.mpr (by decide +kernel)) visits hvisits hpolicy ?_
    have hnow : now.IsFourDigit := by
      unfold Instant.IsFourDigit
      decide
    have hlater : later.IsFourDigit := by
      unfold Instant.IsFourDigit
      decide
    have hsmall : (Provider.Order.setDrift euro Decimal.twoPercent).IsModerate := fun _ => by
      norm_num [Decimal.value, Decimal.coefficient, Decimal.twoPercent]
    simp only [visits, List.forall_mem_cons, List.not_mem_nil, false_imp_iff, implies_true, and_true]
    exact ⟨⟨hnow, fun o ho => by cases ho; exact hsmall⟩, .of_request hnow _, .of_request hlater _,
      .of_request hlater _⟩

open SimulatedMarket

private theorem step_rate_of_crash {pair : CurrencyPair} {c : Crash} {market : Provider}
    (hkept : f.kept? pair now = none)
    (hprice : (h.market.price pair now).runOn f.market = (.error c, market)) :
    (h.step ⟨now, .request (.rate pair)⟩ f).1 = .error c := by
  rw [step_rate, serve_rate, serve_marketRate, hkept, buy, ask_of_crash hprice]
  rfl

/-- An offset that the market accepts makes the next request at the standard desk crash. -/
theorem not_answered_after_override :
    let now : Instant := ⟨10 ^ 18, by decide⟩
    let visits : List (Visit Provider.Order) :=
      [⟨now, .order (.setDrift cheapEuro.pair almostAll)⟩,
        ⟨now, .request (.rate cheapEuro.pair.inverse)⟩]
    Desk.standard.IsValid ∧ make dollarSettings 0 = .ok freshDollars ∧
      ((setDrift cheapEuro.pair almostAll (.ok now)).runOn freshDollars).1 = .ok (.ok ()) ∧
      ((ofProvider .standard).run visits
        (opening (Store.empty 1) (.simulated freshDollars))).1.map (·.outcome) =
          [.ok (.ok .done), .error .arithmetic] := by
  intro now visits
  have hset := runOn_setDrift_almostAll now
  refine ⟨Desk.isValid_standard, make_freshDollars, congrArg Prod.fst hset, ?_⟩
  let lost := freshDollars.withWalk cheapEuro.pair ((Walk.start now).override almostAll now)
  let f : RunState PlainStore Provider := opening ⟨1, .empty⟩ (.simulated lost)
  have horder : Instant.Ascending (timesOf visits) := by decide
  have hfirst : (ofProvider .standard).step ⟨now, .order (.setDrift cheapEuro.pair almostAll)⟩
      (opening (PlainStore.mk 1 .empty) (.simulated freshDollars)) = (.ok (.ok .done), f) := by
    refine step_order ?_
    change (Provider.obey now (.setDrift cheapEuro.pair almostAll)).runOn (.simulated freshDollars) = _
    rw [Provider.obey, runOn_bind, Provider.runOn_onSimulated, hset]
    rfl
  have hsecond : ((ofProvider .standard).step ⟨now, .request (.rate cheapEuro.pair.inverse)⟩ f).1 =
      .error .arithmetic := by
    have hwalk : lost.walk cheapEuro.pair now = (Walk.start now).override almostAll now := by
      rw [walk_withWalk, if_pos rfl]
    have hroute : lost.settings.route? cheapEuro.pair.inverse =
        some (.single (.inverse cheapEuro)) := by decide +kernel
    obtain ⟨k, hcrash⟩ := runOn_legMid_lost hwalk
    have hprice : (Provider.market.price cheapEuro.pair.inverse now).runOn (.simulated lost) =
        (.error .arithmetic, .simulated k) := by
      change (Provider.price cheapEuro.pair.inverse (.ok now)).runOn (.simulated lost) = _
      rw [Provider.runOn_price_simulated, runOn_price, hroute]
      simp only [routeMid, hcrash]
      rfl
    exact step_rate_of_crash rfl hprice
  rw [(ofProvider .standard).episodes_opening 1 _ horder, run_cons, hfirst, run_cons]
  simp only [run, List.map_cons, List.map_nil, hsecond]

end MarketDesk

end Bureau
