import Bureau.Proofs.Desk.Standard
import Bureau.Proofs.Program.Keys
import Mathlib.Logic.Function.Basic

/-!
The book of locks: a map from ids to the locks that were given out, with the time granted to each
since. A lock goes in when the desk gives it out, grows by each extension granted while it is open,
and goes out when it is deleted; nothing else touches it. Over every run the desk shows under an id
what the book shows, and a lock that was gone once is gone for good.
-/

set_option autoImplicit false

namespace Bureau

/-! ### The book -/

/-- A lock as it was given out, and the time it was extended by since. -/
structure Booking where
  lock : LockedRate
  granted : Duration

namespace Booking

/-- The expiry: the one given out and the time granted since, within the calendar. -/
def expiry? (b : Booking) : Option Timestamp := b.lock.expiresAt.bind (·.add? b.granted)

def isOpen (b : Booking) (now : Instant) : Bool := b.expiry?.any (!·.isReached now)

def shown (b : Booking) : LockedRate := { b.lock with expiresAt := b.expiry? }

def longer (b : Booking) (grace : Duration) : Booking :=
  { b with granted := ⟨b.granted.nanos + grace.nanos⟩ }

/-- An extension is granted to an open lock, for a positive grace that stays within the calendar. -/
def extend (b : Booking) (grace : Duration) (now : Instant) : Booking :=
  if b.isOpen now && Duration.zero < grace && (b.longer grace).expiry?.isSome then b.longer grace
  else b

end Booking

/-- What was given out under each id and not deleted since. -/
abbrev LockBook : Type := LockId → Option Booking

namespace LockBook

def empty : LockBook := fun _ => none

def lookup (book : LockBook) (id : LockId) (now : Instant) : LockedRate :=
  match (book id).filter (·.isOpen now) with
  | some b => b.shown
  | none => .gone id

def note {κ : Type} (maxGrace : Duration) (book : LockBook) (e : Episode κ) : LockBook :=
  match e.visit.move with
  | .request (.lock _ _) =>
      match e.outcome with
      | .ok (.ok (.lock lock)) => Function.update book lock.lockId (some ⟨lock, Duration.zero⟩)
      | _ => book
  | .request (.deleteLock id) => Function.update book id none
  | .request (.extendLock id grace) =>
      Function.update book id ((book id).map (·.extend (grace.min maxGrace) e.visit.time))
  | _ => book

def ofEpisodes {κ : Type} (maxGrace : Duration) (episodes : List (Episode κ)) : LockBook :=
  episodes.foldl (note maxGrace) empty

private theorem ofEpisodes_append {κ : Type} (maxGrace : Duration) (past rest : List (Episode κ)) :
    ofEpisodes maxGrace (past ++ rest) = rest.foldl (note maxGrace) (ofEpisodes maxGrace past) :=
  List.foldl_append

end LockBook

/-! ### Pricing leaves locks alone -/

namespace RunState

variable {μ : Type}

/-- A later state with the same under the keys of locks. -/
def SameLocks (f g : RunState PlainStore μ) : Prop :=
  ∀ id, g.store.map (Records.lockKey id) = f.store.map (Records.lockKey id)

theorem SameLocks.refl (f : RunState PlainStore μ) : f.SameLocks f := fun _ => rfl

theorem SameLocks.trans {f g k : RunState PlainStore μ} (hfg : f.SameLocks g) (hgk : g.SameLocks k) :
    f.SameLocks k :=
  fun id => (hgk id).trans (hfg id)

theorem SameLocks.andThen {α β : Type} {f : RunState PlainStore μ}
    {x : Except Crash α × RunState PlainStore μ} (hx : f.SameLocks x.2)
    {next : α → RunState PlainStore μ → Except Crash β × RunState PlainStore μ}
    (hnext : ∀ a (g : RunState PlainStore μ), g.SameLocks (next a g).2) :
    f.SameLocks (Attempt.andThen x next).2 :=
  Attempt.rel_andThen (R := SameLocks) (fun _ _ _ => SameLocks.trans) hx hnext

theorem SameLocks.orError {α β : Type} {f : RunState PlainStore μ}
    {x : Except Crash (Except FxError α) × RunState PlainStore μ} (hx : f.SameLocks x.2)
    {next : α → RunState PlainStore μ → Except Crash (Except FxError β) × RunState PlainStore μ}
    (hnext : ∀ a (g : RunState PlainStore μ), g.SameLocks (next a g).2) :
    f.SameLocks (Attempt.andThen x (MarketDesk.orError next)).2 :=
  MarketDesk.rel_orError (R := SameLocks) .refl (fun _ _ _ => SameLocks.trans) hx hnext

end RunState

namespace MarketDesk

open RunState

variable {μ κ : Type} (h : MarketDesk μ κ) (now : Instant) (f : RunState PlainStore μ)

private theorem sameLocks_shelve (rate : Rate) : f.SameLocks (h.shelve now f rate).2 := by
  refine SameLocks.andThen ?_ fun _ g => .refl g
  have hassign : ∀ e, f.SameLocks (f.assign (Records.rateKey rate.pair) e) := by
    intro e id
    exact f.assign_of_ne (Records.rateKey_ne_lockKey rate.pair id).symm e
  rcases call_set_cases now f (Records.rateKey rate.pair) (Document.write rate)
    h.desk.policy.rateLife with ⟨-, heq⟩ | ⟨e, heq⟩ | ⟨-, expiry, -, heq⟩ | ⟨-, -, heq⟩ <;> rw [heq]
  · exact hassign none
  · exact .refl f
  · exact hassign _
  · exact .refl f

private theorem sameLocks_shelveAll (rates : List Rate) : f.SameLocks (h.shelveAll now rates f).2 := by
  induction rates generalizing f with
  | nil => exact .refl f
  | cons rate rest ih => exact (h.sameLocks_shelve now f rate).andThen fun _ g => ih g

private theorem sameLocks_ask (pair : CurrencyPair) : f.SameLocks (h.ask now pair f).2 := by
  unfold ask
  rcases (h.market.price pair now).runOn f.market with ⟨c | reply, market⟩ <;> exact fun _ => rfl

private theorem sameLocks_askAll (pairs : List CurrencyPair) :
    f.SameLocks (h.askAll now pairs f).2 := by
  unfold askAll
  rcases (h.market.priceAll pairs now).runOn f.market with ⟨c | rates, market⟩ <;>
    exact fun _ => rfl

private theorem sameLocks_marketRate (pair : CurrencyPair) :
    f.SameLocks (h.serve now (h.desk.marketRate pair).run f).2 := by
  rw [serve_marketRate]
  cases f.kept? pair now with
  | some rate => exact .refl f
  | none =>
      exact (h.sameLocks_ask now f pair).orError fun rate g =>
        (h.sameLocks_shelve now g rate).andThen fun _ k => .refl k

private theorem sameLocks_rate (pair : CurrencyPair) :
    f.SameLocks (h.serve now (h.desk.rate pair).run f).2 := by
  rw [serve_rate]
  exact (h.sameLocks_marketRate now f pair).orError fun _ g => .refl g

private theorem sameLocks_rates (pairs : List CurrencyPair) :
    f.SameLocks (h.serve now (h.desk.rates pairs) f).2 := by
  rw [serve_rates]
  refine SameLocks.andThen ?_ fun _ g => .refl g
  unfold buyAll
  split
  · exact .refl f
  · exact (h.sameLocks_askAll now f _).andThen fun rates g =>
      (h.sameLocks_shelveAll now g rates).andThen fun _ k => .refl k

private theorem sameLocks_quote (pair : CurrencyPair) (amount : Decimal) :
    f.SameLocks (h.serve now (h.desk.quote pair amount).run f).2 := by
  rw [serve_quote]
  cases h.desk.corridorFor pair amount with
  | error e => exact .refl f
  | ok corridor =>
      exact (h.sameLocks_rate now f pair).orError fun rate g =>
        SameLocks.orError (x := ((Desk.quoteAt corridor rate pair amount).run, g)) (.refl g)
          fun quote k _ => rfl

/-! ### Giving out locks -/

theorem lock_cases (pair : CurrencyPair) (seconds : Int) :
    (∃ lock expiry g, f.SameLocks g ∧ h.serve now (h.desk.lock pair seconds).run f =
        (.ok (.ok lock), g.assign (Records.lockKey lock.lockId)
          (some ⟨Document.write lock, expiry⟩)) ∧
      lock.expired = false ∧ lock.expiresAt = some ↑expiry ∧
      ∃ length, h.desk.policy.lockTerms.clampLength seconds = .ok length ∧
        now.add? length = some expiry) ∨
    (f.SameLocks (h.serve now (h.desk.lock pair seconds).run f).2 ∧
      ∀ lock, (h.serve now (h.desk.lock pair seconds).run f).1 ≠ .ok (.ok lock)) := by
  rw [serve_lock]
  cases hlength : h.desk.policy.lockTerms.clampLength seconds with
  | error c => exact .inr ⟨.refl f, fun _ => nofun⟩
  | ok length =>
      have hrate := h.sameLocks_rate now f pair
      rcases hserve : h.serve now (h.desk.rate pair).run f with ⟨c | e | rate, g⟩ <;>
        rw [hserve] at hrate
      · exact .inr ⟨hrate, fun _ => nofun⟩
      · exact .inr ⟨hrate, fun _ => nofun⟩
      · simp only [Attempt.andThen_ok, orError_ok]
        rcases h.issue_cases now g rate length with
          ⟨lock, expiry, heq, -, hexpired, hexpires, hend⟩ | ⟨hsame, hother⟩
        · exact .inl ⟨lock, expiry, g.minting, hrate, heq, hexpired, hexpires, length, rfl, hend⟩
        · exact .inr ⟨hrate.trans fun id => by rw [hsame], hother⟩

end MarketDesk

/-! ### The book and the records -/

private theorem LockedRate.plain_withExpiry (lock : LockedRate) (expiry : Option Timestamp) :
    ({ lock.plain with expiresAt := expiry } : LockedRate).plain =
      ({ lock with expiresAt := expiry } : LockedRate).plain := by
  obtain ⟨id, rate, lockedAt, expiresAt, expired⟩ := lock
  cases rate with
  | none => rfl
  | some r => simp only [LockedRate.plain, Option.map_some, ExchangeRate.plain_plain]

namespace Booking

/-- The expiries of a lock that was given out: at first, and by now. -/
structure Spans (b : Booking) (start expiry : Instant) : Prop where
  start_eq : b.lock.expiresAt = some ↑start
  expiry_eq : start.add? b.granted = some expiry

variable {b : Booking} {start expiry now : Instant}

private theorem Spans.expiry?_eq (h : b.Spans start expiry) : b.expiry? = some ↑expiry := by
  rw [expiry?, h.start_eq, Option.bind_some, Timestamp.add?_ofInstant, h.expiry_eq]
  rfl

theorem Spans.isOpen_eq (h : b.Spans start expiry) : b.isOpen now = decide (now < expiry) := by
  have hnot : now < expiry ↔ ¬ expiry.nanos ≤ now.nanos := Int.not_le.symm
  simp only [isOpen, h.expiry?_eq, Option.any_some, Timestamp.isReached_ofInstant, hnot,
    decide_not]

private theorem Spans.lookup_eq (h : b.Spans start expiry) {book : LockBook} {id : LockId}
    (hb : book id = some b) (now : Instant) :
    book.lookup id now = if now < expiry then b.shown else .gone id := by
  rw [LockBook.lookup, hb, Option.filter_some, h.isOpen_eq]
  by_cases hopen : now < expiry
  · rw [if_pos hopen, decide_eq_true hopen]
    rfl
  · rw [if_neg hopen, decide_eq_false hopen]
    rfl

theorem Spans.longer_expiry?_eq (h : b.Spans start expiry) (grace : Duration) :
    (b.longer grace).expiry? = (expiry.add? grace).map (↑·) := by
  rw [expiry?, longer, h.start_eq, Option.bind_some, Timestamp.add?_ofInstant,
    Instant.add?_add? h.expiry_eq]

theorem Spans.longer (h : b.Spans start expiry) {grace : Duration} {later : Instant}
    (hadd : expiry.add? grace = some later) : (b.longer grace).Spans start later :=
  ⟨h.start_eq, by rw [Booking.longer, ← Instant.add?_add? h.expiry_eq, hadd]⟩

theorem Spans.extend_eq (h : b.Spans start expiry) (grace : Duration) (now : Instant) :
    b.extend grace now =
      if now < expiry ∧ ¬ grace ≤ Duration.zero ∧ (expiry.add? grace).isSome then b.longer grace
      else b := by
  have hpos : Duration.zero < grace ↔ ¬ grace ≤ Duration.zero := Int.not_le.symm
  simp only [extend, h.isOpen_eq, h.longer_expiry?_eq, Option.isSome_map, hpos, Bool.and_eq_true,
    decide_eq_true_eq, and_assoc]

end Booking

namespace RunState

variable {μ : Type}

/-- A state whose records say of locks what the book says. -/
structure Follows (f : RunState PlainStore μ) (book : LockBook) : Prop where
  absent : ∀ id, book id = none → f.store.map (Records.lockKey id) = none
  present : ∀ id b, book id = some b →
    ∃ start expiry, b.Spans start expiry ∧ f.HasLock id b.shown.plain expiry

variable {f g : RunState PlainStore μ} {book : LockBook} {id : LockId} {now : Instant}

theorem follows_opening (capacity : Nat) (market : μ) :
    (opening ⟨capacity, .empty⟩ market : RunState PlainStore μ).Follows .empty where
  absent _ _ := rfl
  present _ _ hb := by cases hb

theorem Follows.shownLock_eq (h : f.Follows book) (id : LockId) (now : Instant) :
    f.shownLock id now = (book.lookup id now).plain := by
  cases hb : book id with
  | none =>
      rw [shownLock_of_none (h.absent id hb), LockBook.lookup, hb]
      rfl
  | some b =>
      obtain ⟨start, expiry, hspans, hlock⟩ := h.present id b hb
      rw [hlock.shownLock_eq, hspans.lookup_eq hb]
      split <;> rfl

theorem HasLock.of_eq {lock : LockedRate} {expiry : Instant} (hlock : f.HasLock id lock expiry)
    (hsame : g.store.map (Records.lockKey id) = f.store.map (Records.lockKey id)) :
    g.HasLock id lock expiry :=
  { hlock with
    entry_eq := by
      obtain ⟨text, hentry, hread⟩ := hlock.entry_eq
      exact ⟨text, hsame.trans hentry, hread⟩ }

private theorem Follows.of_sameLocks (h : f.Follows book) (hsame : f.SameLocks g) : g.Follows book where
  absent id hb := (hsame id).trans (h.absent id hb)
  present id b hb := by
    obtain ⟨start, expiry, hspans, hlock⟩ := h.present id b hb
    exact ⟨start, expiry, hspans, hlock.of_eq (hsame id)⟩

/-- A change under one id on record and in the book. -/
theorem Follows.update (h : f.Follows book) (e : Option Entry) (b? : Option Booking)
    (hnone : b? = none → e = none)
    (hsome : ∀ b, b? = some b → ∃ start expiry, b.Spans start expiry ∧
      (f.assign (Records.lockKey id) e).HasLock id b.shown.plain expiry) :
    (f.assign (Records.lockKey id) e).Follows (Function.update book id b?) where
  absent other hb := by
    by_cases hother : other = id
    · subst hother
      rw [Function.update_self] at hb
      rw [assign_self, hnone hb]
    · rw [Function.update_of_ne hother] at hb
      rw [f.assign_of_ne (Records.lockKey_injective.ne hother)]
      exact h.absent other hb
  present other b hb := by
    by_cases hother : other = id
    · subst hother
      rw [Function.update_self] at hb
      exact hsome b hb
    · rw [Function.update_of_ne hother] at hb
      obtain ⟨start, expiry, hspans, hlock⟩ := h.present other b hb
      exact ⟨start, expiry, hspans,
        hlock.of_eq (f.assign_of_ne (Records.lockKey_injective.ne hother) e)⟩

private theorem hasLock_assign (lock : LockedRate) {expiry : Instant} (hexpired : lock.expired = false)
    (hexpiry : lock.expiresAt = some ↑expiry) :
    (f.assign (Records.lockKey lock.lockId) (some ⟨Document.write lock, expiry⟩)).HasLock
      lock.lockId lock.plain expiry where
  id_eq := rfl
  expired_eq := hexpired
  expiresAt_eq := hexpiry
  entry_eq := ⟨Document.write lock, f.assign_self _ _, (Document.keeps_lock lock).read?_write⟩

end RunState

namespace MarketDesk

open RunState

variable {μ κ : Type} (h : MarketDesk μ κ) {f : RunState PlainStore μ} {book : LockBook}

private theorem follows_lock (hf : f.Follows book) (now : Instant) (pair : CurrencyPair)
    (seconds : Int) :
    (h.step ⟨now, .request (.lock pair seconds)⟩ f).2.Follows
      (book.note h.desk.policy.lockTerms.maxGrace (⟨⟨now, .request (.lock pair seconds)⟩,
        (h.step ⟨now, .request (.lock pair seconds)⟩ f).1⟩ : Episode κ)) := by
  rw [step_lock]
  rcases h.lock_cases now f pair seconds with
    ⟨lock, expiry, g, hsame, heq, hexpired, hexpiry, -⟩ | ⟨hsame, hother⟩
  · rw [heq]
    refine (hf.of_sameLocks hsame).update _ _ nofun ?_
    intro b hb
    cases hb
    have hspans : Booking.Spans ⟨lock, Duration.zero⟩ expiry expiry :=
      ⟨hexpiry, Instant.add?_eq_some_iff.mpr (Int.add_zero _).symm⟩
    refine ⟨expiry, expiry, hspans, ?_⟩
    have hshown : Booking.shown ⟨lock, Duration.zero⟩ = lock := by
      rw [Booking.shown, hspans.expiry?_eq, ← hexpiry]
    rw [hshown]
    exact hasLock_assign lock hexpired hexpiry
  · rcases hserve : h.serve now (h.desk.lock pair seconds).run f with ⟨c | e | lock, g⟩ <;>
      rw [hserve] at hsame hother
    · exact hf.of_sameLocks hsame
    · exact hf.of_sameLocks hsame
    · exact absurd rfl (hother lock)

private theorem follows_deleteLock (hf : f.Follows book) (now : Instant) (id : LockId)
    (outcome : Outcome) :
    (h.step ⟨now, .request (.deleteLock id)⟩ f).2.Follows
      (book.note h.desk.policy.lockTerms.maxGrace
        (⟨⟨now, .request (.deleteLock id)⟩, outcome⟩ : Episode κ)) := by
  rw [step_deleteLock, serve_deleteLock]
  exact hf.update none none (fun _ => rfl) fun b hb => by cases hb

private theorem follows_extendLock (hf : f.Follows book) (now : Instant) (id : LockId)
    (grace : Duration) (outcome : Outcome) :
    (h.step ⟨now, .request (.extendLock id grace)⟩ f).2.Follows
      (book.note h.desk.policy.lockTerms.maxGrace
        (⟨⟨now, .request (.extendLock id grace)⟩, outcome⟩ : Episode κ)) := by
  have hstep : (h.step ⟨now, .request (.extendLock id grace)⟩ f).2 =
      (h.serve now (h.desk.extendLock id grace).run f).2 := by
    rw [step_extendLock]
    rcases h.serve now (h.desk.extendLock id grace).run f with ⟨c | e | lock, g⟩ <;> rfl
  rw [hstep]
  change RunState.Follows _ (Function.update book id _)
  have hstay : (book id).map (·.extend (grace.min h.desk.policy.lockTerms.maxGrace) now) = book id →
      f.Follows (Function.update book id
        ((book id).map (·.extend (grace.min h.desk.policy.lockTerms.maxGrace) now))) := by
    intro hsame
    rwa [hsame, Function.update_eq_self]
  rcases Option.eq_none_or_eq_some (book id) with hb | ⟨b, hb⟩
  · have hgone : f.shownLock id now = .gone id := shownLock_of_none (hf.absent id hb)
    rw [h.serve_extendLock_of_gone hgone]
    exact hstay (by rw [hb]; rfl)
  · obtain ⟨start, expiry, hspans, hlock⟩ := hf.present id b hb
    have hextend := hspans.extend_eq (grace.min h.desk.policy.lockTerms.maxGrace) now
    by_cases hopen : now < expiry
    · rw [h.serve_extendLock hlock hopen]
      split
      · rename_i hgrace
        rw [if_neg fun hall => hall.2.1 hgrace] at hextend
        exact hstay (by rw [hb, Option.map_some, hextend])
      · rename_i hgrace
        cases hadd : expiry.add? (grace.min h.desk.policy.lockTerms.maxGrace) with
        | none =>
            rw [hadd, if_neg fun hall => absurd hall.2.2 (by decide)] at hextend
            exact hstay (by rw [hb, Option.map_some, hextend])
        | some later =>
            rw [hadd, if_pos ⟨hopen, hgrace, rfl⟩] at hextend
            rw [hb, Option.map_some, hextend]
            refine hf.update _ _ nofun ?_
            intro c hc
            cases hc
            have hlonger := hspans.longer hadd
            refine ⟨start, later, hlonger, ?_⟩
            have hwritten := hasLock_assign (f := f)
              { b.shown.plain with expiresAt := some (later : Timestamp) } hlock.expired_eq rfl
            rw [LockedRate.plain_withExpiry] at hwritten
            have hid : b.shown.plain.lockId = id := hlock.id_eq
            rw [hid] at hwritten
            have hshown : (b.longer (grace.min h.desk.policy.lockTerms.maxGrace)).shown =
                { b.shown with expiresAt := some (later : Timestamp) } := by
              rw [Booking.shown, hlonger.expiry?_eq]
              rfl
            rw [hshown]
            exact hwritten
    · have hgone : f.shownLock id now = .gone id := by rw [hlock.shownLock_eq, if_neg hopen]
      rw [h.serve_extendLock_of_gone hgone]
      rw [if_neg fun hall => hopen hall.1] at hextend
      exact hstay (by rw [hb, Option.map_some, hextend])

theorem follows_step (hf : f.Follows book) (v : Visit κ) :
    (h.step v f).2.Follows (book.note h.desk.policy.lockTerms.maxGrace ⟨v, (h.step v f).1⟩) := by
  obtain ⟨now, r | _ | o⟩ := v
  · cases r with
    | rate pair =>
        refine hf.of_sameLocks ?_
        rw [step_rate]
        exact (h.sameLocks_rate now f pair).orError fun _ g => .refl g
    | rates pairs =>
        refine hf.of_sameLocks ?_
        rw [step_rates]
        exact (h.sameLocks_rates now f pairs).andThen fun _ g => .refl g
    | quote pair amount =>
        refine hf.of_sameLocks ?_
        rw [step_quote]
        exact (h.sameLocks_quote now f pair amount).orError fun _ g => .refl g
    | lock pair seconds => exact h.follows_lock hf now pair seconds
    | findLock id =>
        refine hf.of_sameLocks ?_
        rw [step_findLock, serve_findLock]
        exact .refl f
    | deleteLock id => exact h.follows_deleteLock hf now id _
    | extendLock id grace => exact h.follows_extendLock hf now id grace _
    | health =>
        refine hf.of_sameLocks ?_
        rw [step_health, Desk.health, serve_consult]
        exact .refl f
  · exact hf
  · exact hf.of_sameLocks fun _ => rfl

/-- A run keeps the records and the book together, by induction on the visits. -/
theorem follows_run (hf : f.Follows book) (visits : List (Visit κ)) :
    (h.run visits f).2.Follows
      ((h.run visits f).1.foldl (LockBook.note h.desk.policy.lockTerms.maxGrace) book) := by
  induction visits generalizing f book with
  | nil => exact hf
  | cons v rest ih =>
      rw [run_cons]
      exact ih (h.follows_step hf v)

end MarketDesk

/-! ### Locks as they are given out -/

/-- Whether a lock that was given out in an episode is an open one, which ends when the length that was
asked for is over. -/
def Episode.GivesOpen {κ : Type} (terms : LockTerms) (e : Episode κ) : Prop :=
  ∀ pair seconds lock, e.visit.move = .request (.lock pair seconds) →
    e.outcome = .ok (.ok (.lock lock)) →
    lock.expired = false ∧ ∃ length expiry, terms.clampLength seconds = .ok length ∧
      e.visit.time.add? length = some expiry ∧ lock.expiresAt = some ↑expiry

namespace MarketDesk

open RunState

variable {μ κ : Type} (h : MarketDesk μ κ)

private theorem givesOpen_step (v : Visit κ) (f : RunState PlainStore μ) :
    (⟨v, (h.step v f).1⟩ : Episode κ).GivesOpen h.desk.policy.lockTerms := by
  obtain ⟨time, move⟩ := v
  rintro pair seconds lock rfl hlock
  change (h.step ⟨time, .request (.lock pair seconds)⟩ f).1 = _ at hlock
  rw [step_lock] at hlock
  rcases h.lock_cases time f pair seconds with
    ⟨given, expiry, g, -, heq, hexpired, hexpiry, length, hlength, hend⟩ | ⟨-, hother⟩
  · rw [heq] at hlock
    cases hlock
    exact ⟨hexpired, length, expiry, hlength, hend, hexpiry⟩
  · rcases hserve : h.serve time (h.desk.lock pair seconds).run f with ⟨c | e | other, g⟩ <;>
      rw [hserve] at hlock hother
    · cases hlock
    · cases hlock
    · exact absurd rfl (hother other)

/-- By induction on the visits. -/
private theorem givesOpen_run (visits : List (Visit κ)) (f : RunState PlainStore μ) :
    ∀ e ∈ (h.run visits f).1, e.GivesOpen h.desk.policy.lockTerms := by
  induction visits generalizing f with
  | nil => exact List.forall_mem_nil _
  | cons v rest ih =>
      rw [run_cons]
      exact List.forall_mem_cons.mpr ⟨h.givesOpen_step v f, ih _⟩

end MarketDesk

/-! ### Gone for good -/

def idsGivenOut {κ : Type} (episodes : List (Episode κ)) : List LockId :=
  episodes.filterMap fun e =>
    match e.visit.move, e.outcome with
    | .request (.lock _ _), .ok (.ok (.lock lock)) => some lock.lockId
    | _, _ => none

private theorem Booking.isOpen_of_le {b : Booking} {now later : Instant} (hle : now ≤ later)
    (h : b.isOpen later = true) : b.isOpen now = true := by
  unfold Booking.isOpen at h ⊢
  cases hexpiry : b.expiry? with
  | none => rw [hexpiry] at h; cases h
  | some t =>
      rw [hexpiry, Option.any_some, Bool.not_eq_true'] at h
      rw [Option.any_some, Bool.not_eq_true']
      by_contra hreached
      rw [Bool.not_eq_false] at hreached
      rw [Timestamp.isReached_of_le hle hreached] at h
      cases h

namespace LockBook

variable {κ : Type} {book : LockBook} {id : LockId} {now later : Instant}

def IsClosed (book : LockBook) (id : LockId) (now : Instant) : Prop :=
  (book id).filter (·.isOpen now) = none

theorem IsClosed.mono (h : book.IsClosed id now) (hle : now ≤ later) : book.IsClosed id later := by
  rw [IsClosed, Option.filter_eq_none_iff] at h ⊢
  intro b hb hopen
  exact h b hb (Booking.isOpen_of_le hle hopen)

private theorem IsClosed.lookup_eq (h : book.IsClosed id now) : book.lookup id now = .gone id := by
  rw [lookup, h]

/-- A lock that is shown as gone is not open: what is open has an expiry to show. -/
theorem isClosed_of_lookup (h : (book.lookup id now).plain = .gone id) : book.IsClosed id now := by
  unfold IsClosed
  cases hfind : (book id).filter (·.isOpen now) with
  | none => rfl
  | some b =>
      obtain ⟨-, hopen⟩ := Option.filter_eq_some_iff.mp hfind
      have hexpiry : b.expiry? = none := by
        rw [lookup, hfind] at h
        exact congrArg LockedRate.expiresAt h
      rw [Booking.isOpen, hexpiry] at hopen
      cases hopen

theorem IsClosed.note {maxGrace : Duration} (h : book.IsClosed id now) (e : Episode κ)
    (htime : now ≤ e.visit.time) (hother : id ∉ idsGivenOut [e]) :
    (book.note maxGrace e).IsClosed id now := by
  obtain ⟨⟨time, move⟩, outcome⟩ := e
  have hupdate : ∀ (other : LockId) (b? : Option Booking),
      (other = id → b?.filter (·.isOpen now) = none) →
      IsClosed (Function.update book other b?) id now := by
    intro other b? hclosed
    unfold IsClosed
    by_cases hid : id = other
    · subst hid
      rw [Function.update_self]
      exact hclosed rfl
    · rw [Function.update_of_ne hid]
      exact h
  obtain r | _ | o := move
  · cases r with
    | lock pair seconds =>
        rcases outcome with c | e | a
        · exact h
        · exact h
        · cases a with
          | lock lock =>
              refine hupdate _ _ fun hid => absurd ?_ hother
              rw [← hid]
              exact List.mem_cons_self
          | _ => exact h
    | deleteLock other => exact hupdate other none fun _ => rfl
    | extendLock other grace =>
        refine hupdate other _ ?_
        intro hid
        subst hid
        rw [Option.filter_eq_none_iff]
        intro b hb
        obtain ⟨original, horiginal, rfl⟩ := Option.map_eq_some_iff.mp hb
        have hshut : original.isOpen time = false := by
          by_contra hopen
          rw [Bool.not_eq_false] at hopen
          rw [IsClosed, Option.filter_eq_none_iff] at h
          exact h original horiginal (Booking.isOpen_of_le htime hopen)
        rw [IsClosed, Option.filter_eq_none_iff] at h
        rw [Booking.extend, hshut]
        exact h original horiginal
    | _ => exact h
  · exact h
  · exact h

private theorem IsClosed.foldl_note {maxGrace : Duration} (h : book.IsClosed id now)
    {episodes : List (Episode κ)} (htimes : ∀ e ∈ episodes, now ≤ e.visit.time)
    (hother : id ∉ idsGivenOut episodes) :
    (episodes.foldl (LockBook.note maxGrace) book).IsClosed id now := by
  induction episodes generalizing book with
  | nil => exact h
  | cons e rest ih =>
      have hsplit : idsGivenOut (e :: rest) = idsGivenOut [e] ++ idsGivenOut rest :=
        List.filterMap_append (l := [e])
      rw [hsplit, List.mem_append, not_or] at hother
      exact ih (h.note e (htimes e List.mem_cons_self) hother.1)
        (fun other hmem => htimes other (List.mem_cons_of_mem e hmem)) hother.2

end LockBook

namespace MarketDesk

open RunState

variable {μ κ : Type} (h : MarketDesk μ κ)

private theorem step_findLock_of_follows {f : RunState PlainStore μ} {book : LockBook}
    (hf : f.Follows book) (now : Instant) (id : LockId) :
    h.step ⟨now, .request (.findLock id)⟩ f =
      (.ok (.ok (.lock (book.lookup id now).plain)), f) := by
  rw [step_findLock, serve_findLock, hf.shownLock_eq]
  rfl

/-- After every run from an empty store, a lock is found as the book of the run shows it. -/
theorem step_findLock_after_run (capacity : Nat) (market : μ) (id : LockId)
    {visits : List (Visit κ)} {now : Instant}
    (horder : Instant.Ascending (timesOf visits ++ [now])) :
    (h.step ⟨now, .request (.findLock id)⟩
        (h.run visits (opening (Store.empty capacity) market)).2).1 =
      .ok (.ok (.lock ((LockBook.ofEpisodes h.desk.policy.lockTerms.maxGrace
        (h.run visits (opening (Store.empty capacity) market)).1).lookup id now).plain)) := by
  obtain ⟨hepisodes, hstep⟩ := h.matches_opening capacity market horder
  have hfollows := h.follows_run (follows_opening capacity market) visits
  rw [(h.matches_step ⟨now, .request (.findLock id)⟩ hstep).1, h.step_findLock_of_follows hfollows,
    hepisodes]
  rfl

private theorem isClosed_run {σ : Type} [Shelf σ] {book : LockBook} {id : LockId} {now : Instant}
    (hclosed : book.IsClosed id now) {visits : List (Visit κ)}
    (htimes : ∀ v ∈ visits, now ≤ v.time) (f : RunState σ μ)
    (hother : id ∉ idsGivenOut (h.run visits f).1) :
    ((h.run visits f).1.foldl (LockBook.note h.desk.policy.lockTerms.maxGrace) book).IsClosed id
      now := by
  refine hclosed.foldl_note ?_ hother
  intro e he
  have hvisit : e.visit ∈ visits := by
    rw [← h.run_visits visits f]
    exact List.mem_map_of_mem he
  exact htimes e.visit hvisit

/-- A lock is found as the book of the run so far shows it, in every state that began empty: with the
rate, the times and the id it was given out with and the expiry that was granted since, or gone. A
document keeps all of it but the signs of zeros, which carry no value. What was given out was open, for
the length that was asked for. Once a lock that was given out is found gone, it is found gone at any
later time, whatever happens until then, as long as no other lock is given out under its id. -/
theorem findLock_eq_book (capacity : Nat) (market : μ) (id : LockId) {past more : List (Visit κ)}
    {now later : Instant}
    (horder : Instant.Ascending (timesOf past ++ now :: (timesOf more ++ [later]))) :
    let find : Visit κ := ⟨now, .request (.findLock id)⟩
    let first := h.run past (opening (Store.empty capacity) market)
    let second := h.run (find :: more) first.2
    let book := LockBook.ofEpisodes h.desk.policy.lockTerms.maxGrace first.1
    (h.step find first.2).1 = .ok (.ok (.lock (book.lookup id now).plain)) ∧
      (∀ e ∈ first.1, e.GivesOpen h.desk.policy.lockTerms) ∧
      (id ∈ idsGivenOut first.1 → (idsGivenOut (first.1 ++ second.1)).Nodup →
        (h.step find first.2).1 = .ok (.ok (.lock (.gone id))) →
        (h.step ⟨later, .request (.findLock id)⟩ second.2).1 = .ok (.ok (.lock (.gone id)))) := by
  intro find first second book
  obtain ⟨-, hrest, -⟩ := List.pairwise_append.mp horder
  obtain ⟨hafter, -⟩ := List.pairwise_cons.mp hrest
  have hpast : Instant.Ascending (timesOf past ++ [now]) :=
    horder.sublist (((List.nil_sublist _).cons_cons now).append_left _)
  have hwhole : Instant.Ascending (timesOf (past ++ find :: more) ++ [later]) := by
    simpa [timesOf, find] using horder
  have hfound := h.step_findLock_after_run capacity market id hpast
  have hopen : ∀ e ∈ first.1, e.GivesOpen h.desk.policy.lockTerms := by
    have hepisodes : first.1 = _ := (h.matches_opening capacity market hpast).1
    rw [hepisodes]
    exact h.givesOpen_run past _
  refine ⟨hfound, hopen, ?_⟩
  intro hgiven hnodup hgone
  have hclosed : book.IsClosed id now := by
    refine LockBook.isClosed_of_lookup ?_
    rw [hfound] at hgone
    injection hgone with hgone
    injection hgone with hgone
    injection hgone
  have hother : id ∉ idsGivenOut second.1 := by
    rw [idsGivenOut, List.filterMap_append] at hnodup
    intro hagain
    exact List.disjoint_of_nodup_append hnodup hgiven hagain
  have htimes : ∀ v ∈ find :: more, now ≤ v.time := by
    intro v hv
    rcases List.mem_cons.mp hv with rfl | hmore
    · exact Instant.le_refl now
    · exact hafter v.time (List.mem_append_left _ (List.mem_map_of_mem hmore))
  have hlast := (h.isClosed_run hclosed htimes first.2 hother).mono
    (hafter later (List.mem_append_right _ List.mem_cons_self))
  have hagain := h.step_findLock_after_run capacity market id hwhole
  rw [run_append, LockBook.ofEpisodes_append, hlast.lookup_eq] at hagain
  exact hagain

/-- A lock for half a minute that is extended by twenty seconds after ten: it is found after forty, to
end after fifty, and is gone after sixty and from then on. -/
theorem findLock_eq_book_extended :
    let pair : CurrencyPair := ⟨⟨"EUR"⟩, ⟨"USD"⟩⟩
    let locked : Visit Provider.Order := ⟨⟨0, by decide⟩, .request (.lock pair 30)⟩
    let extended (id : LockId) : Visit Provider.Order :=
      ⟨⟨10000000000, by decide⟩, .request (.extendLock id (.ofMillis 20000))⟩
    let find (time : Instant) (id : LockId) : Visit Provider.Order := ⟨time, .request (.findLock id)⟩
    let h := ofProvider .standard
    let start := opening (Store.empty 2)
      (.scripted ((ScriptedMarket.empty "par").setRate pair .one .zero))
    ∃ lock : LockedRate, lock.expired = false ∧
      lock.expiresAt = some ↑(⟨30000000000, by decide⟩ : Instant) ∧
      let first := h.run [locked, extended lock.lockId] start
      let longer : LockedRate := { lock with expiresAt := some ↑(⟨50000000000, by decide⟩ : Instant) }
      (h.step (find ⟨40000000000, by decide⟩ lock.lockId) first.2).1 = .ok (.ok (.lock longer.plain)) ∧
      (h.step (find ⟨60000000000, by decide⟩ lock.lockId) first.2).1 =
        .ok (.ok (.lock (.gone lock.lockId))) ∧
      (h.step (find ⟨70000000000, by decide⟩ lock.lockId)
        (h.run [find ⟨60000000000, by decide⟩ lock.lockId] first.2).2).1 =
          .ok (.ok (.lock (.gone lock.lockId))) := by
  intro pair locked extended find h start
  have hset : ((ScriptedMarket.empty "par").setRate pair .one .zero).rates[pair]? =
      some (Decimal.one, Decimal.zero) := Std.HashMap.getElem?_insert_self
  have hclamp : LockTerms.standard.clampLength 30 = .ok (Duration.ofMillis 30000) := by decide
  have hend : locked.time.add? (Duration.ofMillis 30000) = some ⟨30000000000, by decide⟩ := by
    decide
  obtain ⟨lock, g, hrun, hexpiry⟩ :=
    run_lock_standard Nat.one_lt_two hclamp (by decide) hend hset hend
  have hspans : Booking.Spans ⟨lock, Duration.zero⟩ ⟨30000000000, by decide⟩
      ⟨30000000000, by decide⟩ := ⟨hexpiry, Instant.add?_eq_some_iff.mpr rfl⟩
  have hlater : (⟨30000000000, by decide⟩ : Instant).add? (.ofMillis 20000) =
      some ⟨50000000000, by decide⟩ := by decide
  have hlonger := hspans.longer hlater
  have hextend := hspans.extend_eq (.ofMillis 20000) ⟨10000000000, by decide⟩
  rw [if_pos (by decide)] at hextend
  let past := [locked, extended lock.lockId]
  have htimes : timesOf past = [⟨0, by decide⟩, ⟨10000000000, by decide⟩] := rfl
  have hpast : Instant.Ascending (timesOf past ++ [⟨40000000000, by decide⟩]) := by
    rw [htimes]
    decide
  obtain ⟨outcome, hfirst⟩ : ∃ outcome, (h.run past start).1 =
      [⟨locked, .ok (.ok (.lock lock))⟩, ⟨extended lock.lockId, outcome⟩] := by
    have hsplit : past = [locked] ++ [extended lock.lockId] := rfl
    rw [(h.matches_opening 2 _ hpast).1, hsplit, run_append, hrun]
    exact ⟨_, rfl⟩
  have hbook : LockBook.ofEpisodes h.desk.policy.lockTerms.maxGrace (h.run past start).1 lock.lockId =
      some (Booking.longer ⟨lock, Duration.zero⟩ (.ofMillis 20000)) := by
    have hgiven : LockBook.note h.desk.policy.lockTerms.maxGrace LockBook.empty
        ⟨locked, .ok (.ok (.lock lock))⟩ lock.lockId = some ⟨lock, Duration.zero⟩ :=
      Function.update_self ..
    rw [hfirst]
    refine (Function.update_self ..).trans ?_
    rw [hgiven, ← hextend]
    rfl
  have hfinds : Instant.Ascending (timesOf past ++ ⟨40000000000, by decide⟩ ::
      (timesOf ([] : List (Visit Provider.Order)) ++ [⟨70000000000, by decide⟩])) := by
    rw [htimes]
    decide
  have hlapses : Instant.Ascending (timesOf past ++ ⟨60000000000, by decide⟩ ::
      (timesOf ([] : List (Visit Provider.Order)) ++ [⟨70000000000, by decide⟩])) := by
    rw [htimes]
    decide
  obtain ⟨hfound, hopens, -⟩ := findLock_eq_book h 2 _ lock.lockId hfinds
  obtain ⟨hgone, -, hstays⟩ := findLock_eq_book h 2 _ lock.lockId hlapses
  rw [hlonger.lookup_eq hbook, if_pos (by decide)] at hfound
  rw [hlonger.lookup_eq hbook, if_neg (by decide)] at hgone
  have hgiven : idsGivenOut (h.run past start).1 = [lock.lockId] := by
    rw [hfirst]
    rfl
  have hopen := hopens _ (hfirst ▸ List.mem_cons_self) pair 30 lock rfl rfl
  have hshown : (Booking.longer ⟨lock, Duration.zero⟩ (.ofMillis 20000)).shown =
      { lock with expiresAt := some ↑(⟨50000000000, by decide⟩ : Instant) } := by
    rw [Booking.shown, hlonger.expiry?_eq]
    rfl
  rw [hshown] at hfound
  refine ⟨lock, hopen.1, hexpiry, hfound, hgone, hstays ?_ ?_ hgone⟩
  · rw [hgiven]
    exact List.mem_cons_self
  · rw [idsGivenOut, List.filterMap_append, ← idsGivenOut, hgiven]
    exact List.nodup_singleton lock.lockId

end MarketDesk

end Bureau
