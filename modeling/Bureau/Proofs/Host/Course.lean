import Bureau.Proofs.Host.Serving

/-!
The course of things in the background. What every job keeps, and what the passing of time keeps, is
kept however long things take their course, and by every errand as well.
-/

set_option autoImplicit false

namespace Bureau

namespace Host

/-- A relation between a host and what becomes of it, which every job and the passing of time keep. -/
structure IsCourse (R : Host → Host → Prop) : Prop where
  refl : ∀ h, R h h
  trans : ∀ {h k l}, R h k → R k l → R h l
  next : ∀ h rest, R h { h with ready := rest }
  perform : ∀ h job, R h (h.perform job)
  reach : ∀ h tick, R h (h.reach tick)

namespace IsCourse

variable {R : Host → Host → Prop}

theorem performReady (hR : IsCourse R) (turns : Nat) (h : Host) : R h (performReady turns h) := by
  induction turns generalizing h with
  | zero => exact hR.refl h
  | succ turns ih =>
      unfold Host.performReady
      cases h.ready with
      | nil => exact hR.refl h
      | cons job rest => exact hR.trans (hR.trans (hR.next h rest) (hR.perform _ job)) (ih _)

theorem settle (hR : IsCourse R) (h : Host) : R h h.settle := hR.performReady _ h

/-- By induction on the ticks at which something falls due. -/
theorem advanceUntil (hR : IsCourse R) (stop : Host → Bool) (target now : Nat) (h : Host) :
    R h (h.advanceUntil stop target now) := by
  fun_induction Host.advanceUntil stop target now h with
  | case1 now h settled hstop => exact hR.settle h
  | case2 now h settled hgo tick hnext hbefore ih =>
      exact hR.trans (hR.trans (hR.settle h) (hR.reach _ tick)) ih
  | case3 now h settled hgo tick hnext hpast => exact hR.trans (hR.settle h) (hR.reach _ target)
  | case4 now h settled hgo hnext => exact hR.trans (hR.settle h) (hR.reach _ target)

theorem advanceTo (hR : IsCourse R) (h : Host) (target : Nat) : R h (h.advanceTo target) := by
  unfold Host.advanceTo
  split
  · exact hR.refl h
  · exact hR.advanceUntil _ target h.ticks h

end IsCourse

theorem advanceUntil_of_settle {h : Host} {stop : Host → Bool} (hstop : stop h.settle = true)
    (target now : Nat) : h.advanceUntil stop target now = h.settle := by
  rw [advanceUntil]
  simp only [hstop, if_true]

end Host

/-! ### Errands -/

namespace Errand

/-- An errand that changes its host as the course of things may do. -/
def Keeps {α : Type} (R : Host → Host → Prop) (x : Errand α) : Prop := ∀ h, R h (x.run.run h).2

section Course

variable {α β : Type} {R : Host → Host → Prop}

private theorem keeps_onOffice (hoffice : ∀ (h : Host) o, R h { h with office := o })
    (operation : Attempt Office α) : Keeps R (onOffice operation) := by
  intro h
  rw [run_onOffice]
  exact hoffice h _

variable (hR : Host.IsCourse R)

include hR

private theorem keeps_pure (a : α) : Keeps R (pure a) := fun h => hR.refl h

private theorem keeps_throw (halt : Halt) : Keeps R (throw halt : Errand α) := fun h => hR.refl h

private theorem keeps_bind {x : Errand α} {g : α → Errand β} (hx : Keeps R x)
    (hg : ∀ a, Keeps R (g a)) :
    Keeps R (x >>= g) := by
  intro h
  have hfirst := hx h
  rw [run_bind]
  rcases hrun : x.run.run h with ⟨halt | a, k⟩ <;> rw [hrun] at hfirst
  · exact hfirst
  · exact hR.trans hfirst (hg a k)

private theorem keeps_get_bind {g : Host → Errand α} (hg : ∀ h, Keeps R (g h)) : Keeps R (get >>= g) :=
  keeps_bind hR (fun h => hR.refl h) hg

private theorem keeps_waitUntil (limit tick : Nat) : Keeps R (waitUntil limit tick) := by
  unfold waitUntil
  split
  · exact fun h => hR.advanceTo h tick
  · exact keeps_bind hR (fun h => hR.advanceTo h limit) fun _ => keeps_throw hR _

private theorem keeps_waitInTime (limit deadline wait : Nat) :
    Keeps R (waitInTime limit deadline wait) := by
  unfold waitInTime
  refine keeps_get_bind hR fun h => ?_
  simp only
  split
  · exact keeps_pure hR _
  · split
    · exact keeps_bind hR (keeps_waitUntil hR _ _) fun _ => keeps_pure hR _
    · exact keeps_bind hR (keeps_waitUntil hR _ _) fun _ => keeps_pure hR _

variable (hoffice : ∀ (h : Host) o, R h { h with office := o })

include hoffice

private theorem keeps_call (limit deadline : Nat) (c : StoreCall) :
    Keeps R (call limit deadline c) := by
  have hask : Keeps R (do return some (← onOffice (Office.ask c)) : Errand (Option c.Reply)) :=
    keeps_bind hR (keeps_onOffice hoffice _) fun _ => keeps_pure hR _
  unfold call
  refine keeps_bind hR (keeps_onOffice hoffice _) fun course => ?_
  cases course with
  | answered reply => exact keeps_pure hR _
  | asked wait =>
      simp only
      split
      · exact hask
      · refine keeps_bind hR (keeps_waitInTime hR _ _ _) fun inTime => ?_
        split
        · exact hask
        · exact keeps_pure hR _
  | held wait reply =>
      simp only
      split
      · exact keeps_pure hR _
      · exact keeps_bind hR (keeps_waitInTime hR _ _ _) fun inTime => keeps_pure hR _

/-- Serving a program takes its course, by induction on its steps. -/
private theorem keeps_program (limit : Nat) (p : Program α) : Keeps R (p.run (handler limit)) := by
  have honOffice : ∀ {γ : Type} (operation : Attempt Office γ), Keeps R (onOffice operation) :=
    fun operation => keeps_onOffice hoffice operation
  induction p with
  | done a => exact keeps_pure hR a
  | crash c => exact keeps_throw hR _
  | clock k ih => exact keeps_bind hR (honOffice Office.readClock) ih
  | deadline wait k ih => exact keeps_bind hR (honOffice (Office.deadline wait)) ih
  | call tick c k ih =>
      have hcall : Keeps R (call limit tick c) := keeps_call hR hoffice limit tick c
      exact keeps_bind hR hcall ih
  | price pair k ih => exact keeps_bind hR (honOffice (Office.price pair)) ih
  | priceAll pairs k ih => exact keeps_bind hR (honOffice (Office.priceAll pairs)) ih
  | mint k ih => exact keeps_bind hR (honOffice Office.mint) ih

theorem keeps_serve (p : Program α) : Keeps R (serve p) :=
  keeps_get_bind hR fun _ => keeps_program hR hoffice _ p

end Course

end Errand

end Bureau
