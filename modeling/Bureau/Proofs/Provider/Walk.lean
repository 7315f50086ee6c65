import Bureau.Proofs.Attempt
import Bureau.Proofs.Decimal.Places
import Bureau.Proofs.Decimal.Precision
import Bureau.Proofs.Provider.Settings

/-!
A single walk. A read either moves the offset by a part of the greatest step or leaves it as it is. The
bound of a step is the one that is set, or the offset itself where that lies beyond; so rounding and
bound together move an offset by hardly more than the greatest step, and never further out.
-/

set_option autoImplicit false

namespace Bureau.Walk

open Attempt

variable {w : Walk} {drift : Drift} {unit : Nat → Decimal} {now : Instant}

/-! ### Reads -/

/-- The walk after a read that can be taken. Its offset is the one that is read. -/
def after? (w : Walk) (drift : Drift) (unit : Nat → Decimal) (now : Instant) : Option Walk :=
  if w.isDue drift now then
    (w.stepped? drift (unit w.draws)).map fun offset =>
      { w with offset, lastUpdate := now, draws := w.draws + 1 }
  else some { w with pinned := false }

theorem runOn_read (w : Walk) (drift : Drift) (unit : Nat → Decimal) (now : Instant) :
    (read drift unit now).runOn w =
      match w.after? drift unit now with
      | some w' => (.ok w'.offset, w')
      | none => (.error .arithmetic, { w with draws := w.draws + 1 }) := by
  unfold read after?
  rw [runOn_bind_ok (runOn_get w)]
  split_ifs with hdue
  · rw [runOn_bind_ok (runOn_set w _)]
    cases w.stepped? drift (unit w.draws) <;> rfl
  · rfl

theorem isDue_iff : w.isDue drift now = true ↔
    w.pinned = false ∧ drift.enabled = true ∧ drift.interval ≤ now.since w.lastUpdate := by
  simp [isDue, and_assoc]

theorem after?_of_not_due (h : w.isDue drift now = false) :
    w.after? drift unit now = some { w with pinned := false } :=
  if_neg (Bool.eq_false_iff.mp h)

theorem after?_of_due (h : w.isDue drift now = true) :
    w.after? drift unit now = (w.stepped? drift (unit w.draws)).map fun offset =>
      { w with offset, lastUpdate := now, draws := w.draws + 1 } := if_pos h

/-- What a read does: it leaves a walk that is not due where it is, and takes one step of one that is.
-/
theorem after?_eq_some {w' : Walk} (h : w.after? drift unit now = some w') :
    (w.isDue drift now = false ∧ w' = { w with pinned := false }) ∨
    (w.isDue drift now = true ∧ ∃ offset, w.stepped? drift (unit w.draws) = some offset ∧
      w' = { w with offset, lastUpdate := now, draws := w.draws + 1 }) := by
  cases hdue : w.isDue drift now with
  | false =>
      rw [after?_of_not_due hdue] at h
      cases h
      exact .inl ⟨rfl, rfl⟩
  | true =>
      rw [after?_of_due hdue] at h
      obtain ⟨offset, hstep, rfl⟩ := Option.map_eq_some_iff.mp h
      exact .inr ⟨rfl, offset, hstep, rfl⟩

/-! ### Steps -/

variable {part offset : Decimal}

private theorem stepped?_eq_some (h : w.stepped? drift part = some offset) :
    ∃ step moved, part.mul? drift.maxStep = some step ∧ w.offset.add? step = some moved ∧
      offset.value = Max.max (-Max.max drift.maxOffset.value |w.offset.value|)
        (min (moved.roundTo 10).value (Max.max drift.maxOffset.value |w.offset.value|)) := by
  obtain ⟨step, hstep, h⟩ := Option.bind_eq_some_iff.mp h
  obtain ⟨moved, hmoved, h⟩ := Option.bind_eq_some_iff.mp h
  cases h
  have hbound : (drift.maxOffset.max w.offset.abs).value =
      Max.max drift.maxOffset.value |w.offset.value| := by
    rw [Decimal.value_max, Decimal.value_abs]
  have hnonneg : 0 ≤ Max.max drift.maxOffset.value |w.offset.value| :=
    le_max_of_le_right (abs_nonneg _)
  refine ⟨step, moved, hstep, hmoved, ?_⟩
  rw [Decimal.value_clamp, Decimal.value_neg, hbound]
  rw [Decimal.value_neg, hbound]
  linarith

theorem abs_le_of_stepped? (h : w.stepped? drift part = some offset) :
    |offset.value| ≤ Max.max drift.maxOffset.value |w.offset.value| := by
  obtain ⟨step, moved, -, -, hoffset⟩ := stepped?_eq_some h
  have hnonneg : 0 ≤ Max.max drift.maxOffset.value |w.offset.value| :=
    le_max_of_le_right (abs_nonneg _)
  rw [hoffset, abs_le]
  exact ⟨le_max_left _ _, max_le (by linarith) (min_le_right _ _)⟩

theorem abs_le_of_after? {w' : Walk} (h : w.after? drift unit now = some w') :
    |w'.offset.value| ≤ Max.max drift.maxOffset.value |w.offset.value| := by
  obtain ⟨-, rfl⟩ | ⟨-, offset, hstep, rfl⟩ := after?_eq_some h
  · exact le_max_right _ _
  · exact abs_le_of_stepped? hstep

theorem exists_stepped? (hstep : |part.value * drift.maxStep.value| ≤ 10 ^ 28)
    (hoffset : |w.offset.value| ≤ 1) : ∃ offset, w.stepped? drift part = some offset := by
  obtain ⟨step, hmul⟩ := Decimal.exists_mul? (a := part) (b := drift.maxStep) (by linarith)
  have herror := (Decimal.rounds_mul? hmul).abs_sub_le
  have hsum : |w.offset.value + step.value| < 2 ^ 96 - 1 / 2 := by
    have hnear := abs_sub_abs_le_abs_sub step.value (part.value * drift.maxStep.value)
    have htriangle := abs_add_le w.offset.value step.value
    linarith
  obtain ⟨moved, hadd⟩ := Decimal.exists_add? hsum
  unfold stepped?
  rw [hmul, Option.bind_eq_bind, Option.bind_some, hadd]
  exact ⟨_, rfl⟩

private theorem abs_le_of_mul? {step : Decimal} (hdrift : drift.IsValid) (hpart : |part.value| ≤ 1)
    (h : part.mul? drift.maxStep = some step) : |step.value| ≤ drift.maxStep.value := by
  have hrounds := Decimal.rounds_mul? h
  have hproduct : |part.value * drift.maxStep.value| ≤ drift.maxStep.value := by
    rw [abs_mul, abs_of_nonneg hdrift.step_nonneg]
    exact mul_le_of_le_one_left hdrift.step_nonneg hpart
  have hbounds := abs_le.mp hproduct
  have hle : step ≤ drift.maxStep := hrounds.le_of_le hbounds.2
  have hge : drift.maxStep.neg ≤ step := hrounds.ge_of_ge (by rw [Decimal.value_neg]; exact hbounds.1)
  rw [Decimal.le_iff] at hle hge
  rw [Decimal.value_neg] at hge
  exact abs_le.mpr ⟨hge, hle⟩

theorem abs_sub_le_of_stepped? (hdrift : drift.IsValid) (hpart : |part.value| ≤ 1)
    (hoffset : |w.offset.value| < 1) (h : w.stepped? drift part = some offset) :
    |offset.value - w.offset.value| ≤ drift.maxStep.value + 1 / 10 ^ 10 := by
  have hbound := abs_le_of_stepped? h
  have hlt : Max.max drift.maxOffset.value |w.offset.value| < 1 := max_lt hdrift.offset_lt hoffset
  rcases lt_or_ge drift.maxStep.value 2 with hsmall | hgreat
  · obtain ⟨step, moved, hstep, hmoved, hclamped⟩ := stepped?_eq_some h
    have hstep' := abs_le_of_mul? hdrift hpart hstep
    have hsmall : |w.offset.value + step.value| ≤ 7 := by
      have htriangle := abs_add_le w.offset.value step.value
      linarith
    have hsum := Decimal.value_of_add? hmoved hsmall
    have hround := abs_le.mp (Decimal.abs_roundTo_sub_le moved 10)
    rw [hsum] at hround
    have hsteps := abs_le.mp hstep'
    have hinside := abs_le.mp (le_max_right drift.maxOffset.value |w.offset.value|)
    have hnonneg := hdrift.step_nonneg
    -- the bound only brings the rounded offset nearer to the one before
    have hlow : w.offset.value - (drift.maxStep.value + 1 / 10 ^ 10) ≤
        min (moved.roundTo 10).value (Max.max drift.maxOffset.value |w.offset.value|) :=
      le_min (by linarith) (by linarith)
    have hhigh : Max.max (-Max.max drift.maxOffset.value |w.offset.value|)
        (min (moved.roundTo 10).value (Max.max drift.maxOffset.value |w.offset.value|)) ≤
          w.offset.value + (drift.maxStep.value + 1 / 10 ^ 10) :=
      max_le (by linarith) (min_le_of_left_le (by linarith))
    have hlow' := le_trans hlow
      (le_max_right (-Max.max drift.maxOffset.value |w.offset.value|) _)
    rw [hclamped, abs_le]
    constructor <;> linarith
  · have hfar := abs_le.mp (le_trans hbound hlt.le)
    have hnear := abs_le.mp hoffset.le
    rw [abs_le]
    constructor <;> linarith

end Bureau.Walk
