import Bureau.Desk.Basic
import Bureau.Office.Background
import Bureau.Proofs.Desk.Pricing

/-!
What programs can come to. A program yields only results of a kind if every way through its tree that
does not crash ends in such a result, whatever the clock, the store and the provider reply; the same
goes for what is left of a program that sleeps.
-/

set_option autoImplicit false

namespace Bureau

variable {α β : Type} {P : α → Prop} {Q : β → Prop}

namespace Program

/-- Every result has a property, whatever is replied on the way. -/
def Yields (P : α → Prop) : Program α → Prop
  | .done a => P a
  | .crash _ => True
  | .clock k => ∀ now, (k now).Yields P
  | .deadline _ k => ∀ tick, (k tick).Yields P
  | .call _ _ k => ∀ reply, (k reply).Yields P
  | .price _ k => ∀ reply, (k reply).Yields P
  | .priceAll _ k => ∀ rates, (k rates).Yields P
  | .mint k => ∀ id, (k id).Yields P

private theorem yields_true (p : Program α) : p.Yields fun _ => True := by
  induction p with
  | done a => trivial
  | crash c => trivial
  | clock k ih => exact ih
  | deadline wait k ih => exact ih
  | call tick c k ih => exact ih
  | price pair k ih => exact ih
  | priceAll pairs k ih => exact ih
  | mint k ih => exact ih

theorem Yields.bind {p : Program α} {g : α → Program β} (hp : p.Yields P)
    (hg : ∀ a, P a → (g a).Yields Q) : (p >>= g).Yields Q := by
  change (p.bind g).Yields Q
  induction p with
  | done a => exact hg a hp
  | crash c => trivial
  | clock k ih => exact fun now => ih now (hp now)
  | deadline wait k ih => exact fun tick => ih tick (hp tick)
  | call tick c k ih => exact fun reply => ih reply (hp reply)
  | price pair k ih => exact fun reply => ih reply (hp reply)
  | priceAll pairs k ih => exact fun rates => ih rates (hp rates)
  | mint k ih => exact fun id => ih id (hp id)

private theorem yields_lift {e : Except Crash α} (h : ∀ a, e = .ok a → P a) : (lift e).Yields P := by
  cases e with
  | error c => trivial
  | ok a => exact h a rfl

end Program

theorem Program.Yields.imp {P' : α → Prop} {p : Program α} (hp : p.Yields P)
    (h : ∀ a, P a → P' a) : p.Yields P' := by
  have hbind : (p.bind Program.done).Yields P' := hp.bind h
  rwa [Program.bind_done] at hbind

/-! ### Results that are no errors -/

namespace Program

variable {ε : Type}

/-- Every result that is no error has a property. -/
def Gives (P : α → Prop) (x : ExceptT ε Program α) : Prop :=
  x.run.Yields fun answer => ∀ a, answer = .ok a → P a

theorem gives_true (x : ExceptT ε Program α) : Gives (fun _ => True) x :=
  (yields_true x.run).imp fun _ _ _ _ => trivial

theorem gives_pure {a : α} (h : P a) : Gives P (pure a : ExceptT ε Program α) := by
  rintro _ ⟨⟩
  exact h

theorem Gives.bind {x : ExceptT ε Program α} {f : α → ExceptT ε Program β} (hx : Gives P x)
    (hf : ∀ a, P a → Gives Q (f a)) : Gives Q (x >>= f) := by
  unfold Gives
  rw [ExceptT.run_bind]
  apply Yields.bind hx
  rintro (e | a) ha
  · rintro _ ⟨⟩
  · exact hf a (ha a rfl)

theorem gives_lift {e : Except Crash α} (h : ∀ a, e = .ok a → P a) :
    Gives P (ExceptT.lift (Program.lift e) : ExceptT ε Program α) := by
  cases e with
  | error c => trivial
  | ok a => exact gives_pure (h a rfl)

end Program

private theorem filterMap_of_mapM_eq_ok {ε : Type} {f : α → Except ε β} {as : List α} {bs : List β}
    (h : as.mapM f = .ok bs) : bs = as.filterMap fun a => (f a).toOption := by
  induction as generalizing bs with
  | nil =>
      cases h
      rfl
  | cons a rest ih =>
      rw [List.mapM_cons] at h
      obtain ⟨b, hb, h⟩ := Attempt.exists_of_bind_eq_ok h
      obtain ⟨others, hothers, h⟩ := Attempt.exists_of_bind_eq_ok h
      cases h
      rw [List.filterMap_cons, ih hothers, hb]
      rfl

/-- A batch answers the pairs in the order they are asked for, each pair in the same way wherever it
stands, and leaves out those that it cannot price. -/
theorem Desk.yields_rates_in_order (d : Desk) (pairs : List CurrencyPair) :
    (d.rates pairs).Yields fun batch =>
      ∃ shown : CurrencyPair → Option ExchangeRate, batch = pairs.filterMap shown := by
  refine (Program.yields_true (d.ratesOnRecord pairs.eraseDups)).bind fun known _ => ?_
  refine (Program.yields_true _).bind fun new _ => Program.yields_lift fun batch hbatch => ?_
  refine ⟨fun pair => (pick? new known pair).bind fun rate => (d.withMargin rate).toOption, ?_⟩
  rw [filterMap_of_mapM_eq_ok hbatch, List.filterMap_filterMap]

theorem Desk.yields_rates (d : Desk) (pairs : List CurrencyPair) :
    (d.rates pairs).Yields fun batch => batch.length ≤ pairs.length := by
  refine (d.yields_rates_in_order pairs).imp ?_
  rintro batch ⟨shown, rfl⟩
  exact List.length_filterMap_le _ _

/-! ### Programs in the background -/

def Wakening.Yields (P : α → Prop) : Wakening α → Prop
  | .call _ k => ∀ reply, (k reply).Yields P
  | .resume p => p.Yields P

def Progress.Yields (P : α → Prop) : Progress α → Prop
  | .finished a => P a
  | .crashed => True
  | .asleep _ next => next.Yields P

namespace Office

private theorem yields_sleepUntil (deadline wake : Nat) {inTime late : Wakening α}
    (hinTime : inTime.Yields P) (hlate : late.Yields P) :
    (sleepUntil deadline wake inTime late).Yields P := by
  unfold sleepUntil
  split
  · exact hinTime
  · exact hlate

/-- A program that sleeps can still come to nothing else, by induction on its steps. -/
theorem yields_perform {p : Program α} (hp : p.Yields P) (o : Office) :
    (o.perform p).1.Yields P := by
  induction p generalizing o with
  | done a => exact hp
  | crash c => trivial
  | clock k ih =>
      unfold perform
      cases o.clock.read with
      | error c => trivial
      | ok now => exact ih now (hp now) o
  | deadline wait k ih => exact ih _ (hp _) o
  | call tick c k ih =>
      have hgo : ∀ reply (o : Office), (o.perform (k reply)).1.Yields P :=
        fun reply o => ih reply (hp reply) o
      unfold perform
      rcases (begin c).runOn o with ⟨e | reply | wait | ⟨wait, reply⟩, o⟩
      · trivial
      · exact hgo _ o
      · simp only
        split_ifs
        · rcases (ask c).runOn o with ⟨e | reply, o⟩
          · trivial
          · exact hgo _ o
        · exact hgo none o
        · exact yields_sleepUntil _ _ (fun reply => hp reply) (hp none)
      · simp only
        split_ifs
        · exact hgo _ o
        · exact hgo none o
        · exact yields_sleepUntil _ _ (hp (some reply)) (hp none)
  | price pair k ih =>
      unfold perform
      rcases (price pair).runOn o with ⟨e | reply, o⟩
      · trivial
      · exact ih reply (hp reply) o
  | priceAll pairs k ih =>
      unfold perform
      rcases (priceAll pairs).runOn o with ⟨e | rates, o⟩
      · trivial
      · exact ih rates (hp rates) o
  | mint k ih =>
      unfold perform
      rcases mint.runOn o with ⟨e | id, o⟩
      · trivial
      · exact ih id (hp id) o

theorem yields_wake {next : Wakening α} (hnext : next.Yields P) (o : Office) :
    (o.wake next).1.Yields P := by
  cases next with
  | resume p => exact yields_perform hnext o
  | call c k =>
      simp only [wake]
      rcases (ask c).runOn o with ⟨e | reply, o⟩
      · trivial
      · exact yields_perform (hnext (some reply)) o

/-- A program comes to its end after some sleeps: what holds of every end, and of a sleep if it holds
after every waking, holds of however far the program has come. -/
theorem perform_induction {Q : Progress α → Prop} (hfinished : ∀ a, Q (.finished a))
    (hcrashed : Q .crashed)
    (hasleep : ∀ tick next, (∀ o : Office, Q (o.wake next).1) → Q (.asleep tick next))
    (p : Program α) (o : Office) : Q (o.perform p).1 := by
  induction p generalizing o with
  | done a => exact hfinished a
  | crash c => exact hcrashed
  | clock k ih =>
      unfold perform
      cases o.clock.read with
      | error c => exact hcrashed
      | ok now => exact ih now o
  | deadline wait k ih => exact ih _ o
  | call tick c k ih =>
      have hgo : ∀ reply (o : Office), Q (o.perform (k reply)).1 := ih
      have hask : ∀ o : Office, Q (o.wake (.call c k)).1 := by
        intro o
        simp only [wake]
        rcases (ask c).runOn o with ⟨e | reply, o⟩
        · exact hcrashed
        · exact hgo _ o
      have hsleep : ∀ tick' (inTime : Wakening α), (∀ o : Office, Q (o.wake inTime).1) →
          Q (sleepUntil tick tick' inTime (.resume (k none))) := by
        intro tick' inTime hwake
        unfold sleepUntil
        split
        · exact hasleep _ _ hwake
        · exact hasleep _ _ (hgo none)
      unfold perform
      rcases (begin c).runOn o with ⟨e | reply | wait | ⟨wait, reply⟩, o⟩
      · exact hcrashed
      · exact hgo _ o
      · simp only
        split_ifs
        · exact hask o
        · exact hgo none o
        · exact hsleep _ _ hask
      · simp only
        split_ifs
        · exact hgo _ o
        · exact hgo none o
        · exact hsleep _ _ (hgo (some reply))
  | price pair k ih =>
      unfold perform
      rcases (price pair).runOn o with ⟨e | reply, o⟩
      · exact hcrashed
      · exact ih reply o
  | priceAll pairs k ih =>
      unfold perform
      rcases (priceAll pairs).runOn o with ⟨e | rates, o⟩
      · exact hcrashed
      · exact ih rates o
  | mint k ih =>
      unfold perform
      rcases mint.runOn o with ⟨e | id, o⟩
      · exact hcrashed
      · exact ih id o

theorem wake_induction {Q : Progress α → Prop} (hfinished : ∀ a, Q (.finished a))
    (hcrashed : Q .crashed)
    (hasleep : ∀ tick next, (∀ o : Office, Q (o.wake next).1) → Q (.asleep tick next))
    (next : Wakening α) (o : Office) : Q (o.wake next).1 := by
  cases next with
  | resume p => exact perform_induction hfinished hcrashed hasleep p o
  | call c k =>
      simp only [wake]
      rcases (ask c).runOn o with ⟨e | reply, o⟩
      · exact hcrashed
      · exact perform_induction hfinished hcrashed hasleep _ o

end Office

end Bureau
