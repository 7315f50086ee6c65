import Bureau.Proofs.Feed.Basic
import Bureau.Proofs.Host.Remote
import Bureau.Proofs.Store.Lifetime
import Bureau.Proofs.Time.Clock

/-!
What work in the background leaves in the store. All that a program or a feed does before it waits is
done at one time; so the store outlasts what it did before, up to that time.
-/

set_option autoImplicit false

namespace Bureau

open Attempt

namespace FaultyStore

variable {s : FaultyStore} {moment : Int} {clock : Except Crash Instant}

private theorem outlasts_ask (h : s.store.Outlasts moment)
    (hle : ∀ now, clock = .ok now → moment ≤ now.nanos) (c : StoreCall) :
    ((ask c clock).runOn s).2.store.Outlasts moment := by
  rw [runOn_ask]
  exact h.answer_of_clock hle c

private theorem outlasts_dropKey (h : s.store.Outlasts moment) (c : StoreCall) :
    (s.dropKey c).store.Outlasts moment := by
  unfold dropKey
  split
  · exact h.erase _
  · exact h

/-- Faults bring no entries. -/
theorem outlasts_begin (h : s.store.Outlasts moment)
    (hle : ∀ now, clock = .ok now → moment ≤ now.nanos) (c : StoreCall) :
    ((begin c clock).runOn s).2.store.Outlasts moment := by
  unfold begin
  rw [runOn_bind_ok (runOn_modify _ _), runOn_bind_ok (runOn_get _)]
  have hask := outlasts_ask (s := { s with calls := s.calls.update c.kind (· + 1) }) h hle c
  split
  · rw [runOn_bind_pure_snd]
    exact hask
  · exact h
  · exact h
  · rw [runOn_bind_pure_snd]
    exact hask
  · rw [runOn_bind_eq_andThen]
    rcases hrun : (ask c clock).runOn { s with calls := s.calls.update c.kind (· + 1) } with
      ⟨crash | reply, t⟩ <;> rw [hrun] at hask
    · exact hask
    · exact outlasts_dropKey hask c

end FaultyStore

namespace Office

variable {α : Type} {o o' : Office}

/-- An office after work at one time: its clock shows the same, and its store outlasts each moment up to
then that it has outlasted before. -/
structure WorksTo (o o' : Office) : Prop where
  clock_eq : o'.clock = o.clock
  outlasts : ∀ moment ≤ o.clock.nanos, o.store.store.Outlasts moment → o'.store.store.Outlasts moment

private theorem WorksTo.of_store (hclock : o'.clock = o.clock)
    (hstore : o'.store.store = o.store.store) :
    WorksTo o o' :=
  ⟨hclock, fun _ _ h => hstore ▸ h⟩

theorem WorksTo.refl (o : Office) : WorksTo o o := .of_store rfl rfl

theorem WorksTo.trans {o'' : Office} (h : WorksTo o o') (h' : WorksTo o' o'') : WorksTo o o'' where
  clock_eq := h'.clock_eq.trans h.clock_eq
  outlasts moment hle hlasts :=
    h'.outlasts moment (h.clock_eq ▸ hle) (h.outlasts moment hle hlasts)

private theorem le_of_read {moment : Int} (hle : moment ≤ o.clock.nanos) (now : Instant)
    (hread : o.clock.read = .ok now) : moment ≤ now.nanos :=
  hle.trans_eq (Clock.nanos_of_read hread).symm

theorem worksTo_ask (c : StoreCall) (o : Office) : WorksTo o ((ask c).runOn o).2 := by
  rw [runOn_ask]
  exact ⟨rfl, fun _ hle h => FaultyStore.outlasts_ask h (le_of_read hle) c⟩

private theorem worksTo_begin (c : StoreCall) (o : Office) : WorksTo o ((begin c).runOn o).2 := by
  rw [runOn_begin_eq]
  exact ⟨rfl, fun _ hle h => FaultyStore.outlasts_begin h (le_of_read hle) c⟩

private theorem worksTo_price (pair : CurrencyPair) (o : Office) :
    WorksTo o ((price pair).runOn o).2 := by
  rw [runOn_price]
  exact .of_store rfl rfl

private theorem worksTo_priceAll (pairs : List CurrencyPair) (o : Office) :
    WorksTo o ((priceAll pairs).runOn o).2 := by
  rw [runOn_priceAll]
  exact .of_store rfl rfl

/-- By induction on the steps of the program. -/
private theorem worksTo_perform (p : Program α) (o : Office) : WorksTo o (o.perform p).2 := by
  induction p generalizing o with
  | done a => exact .refl o
  | crash c => exact .refl o
  | clock k ih =>
    unfold perform
    cases o.clock.read with
    | ok now => exact ih now o
    | error c => exact .refl o
  | deadline wait k ih => exact ih _ o
  | call tick c k ih =>
    have hbegin := worksTo_begin c o
    unfold perform
    rcases hrun : (begin c).runOn o with ⟨crash | reply | wait | ⟨wait, reply⟩, o'⟩ <;>
      rw [hrun] at hbegin
    · exact hbegin
    · exact hbegin.trans (ih _ o')
    · have hask := hbegin.trans (worksTo_ask c o')
      simp only
      split
      · rcases hrun' : (ask c).runOn o' with ⟨crash | reply, o''⟩ <;> rw [hrun'] at hask
        · exact hask
        · exact hask.trans (ih _ o'')
      · split
        · exact hbegin.trans (ih _ o')
        · exact hbegin
    · simp only
      split
      · exact hbegin.trans (ih _ o')
      · split
        · exact hbegin.trans (ih _ o')
        · exact hbegin
  | price pair k ih =>
    have hprice := worksTo_price pair o
    unfold perform
    rcases hrun : (price pair).runOn o with ⟨crash | rate, o'⟩ <;> rw [hrun] at hprice
    · exact hprice
    · exact hprice.trans (ih rate o')
  | priceAll pairs k ih =>
    have hprices := worksTo_priceAll pairs o
    unfold perform
    rcases hrun : (priceAll pairs).runOn o with ⟨crash | rates, o'⟩ <;> rw [hrun] at hprices
    · exact hprices
    · exact hprices.trans (ih rates o')
  | mint k ih =>
    have hmint : WorksTo o { o with minted := o.minted + 1 } := .of_store rfl rfl
    exact hmint.trans (ih (Uuid.numbered o.minted) { o with minted := o.minted + 1 })

private theorem worksTo_wake (next : Wakening α) (o : Office) : WorksTo o (o.wake next).2 := by
  cases next with
  | resume p => exact worksTo_perform p o
  | call c k =>
    have hask := worksTo_ask c o
    unfold wake
    simp only
    rcases hrun : (ask c).runOn o with ⟨crash | reply, o'⟩ <;> rw [hrun] at hask
    · exact hask
    · exact hask.trans (worksTo_perform (k (some reply)) o')

end Office

namespace Feed

private theorem worksTo_resume (now : Nat) (f : Feed) (o : Office) : o.WorksTo (f.resume now o).2 := by
  unfold resume
  split
  · split
    · exact Office.worksTo_wake _ o
    · exact .refl o
  · exact .refl o
  · exact .refl o

/-- By induction on the beats that the feed catches up with. -/
private theorem worksTo_tick (d : Desk) (now : Nat) (f : Feed) (due : Nat) (o : Office) :
    o.WorksTo (f.tick d now due o).2 := by
  have hworks : ∀ (f : Feed) (o : Office), o.WorksTo (o.perform (d.rates f.pairs)).2 := fun f o =>
    Office.worksTo_perform (d.rates f.pairs) o
  fun_induction tick d now f due o with
  | case1 f due o hbatch progress o' hperform next g later hphase ih =>
    have hthis := hworks f o
    rw [hperform] at hthis
    exact hthis.trans ih
  | case2 f due o hbatch progress o' hperform next g hphase =>
    have hthis := hworks f o
    rwa [hperform] at hthis
  | case3 f due o hbatch hclosing => exact .refl o
  | case4 f due o hbatch hopen => exact .refl o

theorem worksTo_settle (d : Desk) (f : Feed) (o : Office) : o.WorksTo (f.settle d o).2 := by
  have hresume := worksTo_resume o.ticks f o
  cases hidle : (f.resume o.ticks o).1.phase with
  | idle due =>
    rw [settle_of_idle d hidle]
    exact hresume.trans (worksTo_tick d _ _ due _)
  | pricing | delivering | ended =>
    rw [settle_of_not_idle d (by unfold isIdle; rw [hidle])]
    exact hresume

end Feed

end Bureau
