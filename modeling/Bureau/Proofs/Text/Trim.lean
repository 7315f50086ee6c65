import Bureau.Text.Blank
import Mathlib.Data.List.TakeWhile

/-!
Text with white space around it: trimming finds what stands between the white space, and nothing else is
left when it neither begins nor ends with a blank.
-/

set_option autoImplicit false

namespace Bureau.Text

variable {before after inner outer cs : List Char}

def Blanks (cs : List Char) : Prop := ∀ c ∈ cs, isBlank c = true

/-- A text that stands in another one with only white space around it. -/
def Pads (inner outer : List Char) : Prop :=
  ∃ before after, Blanks before ∧ Blanks after ∧ outer = before ++ inner ++ after

/-- A text that neither begins nor ends with a blank. -/
def IsTight (cs : List Char) : Prop :=
  (∀ c ∈ cs.head?, isBlank c = false) ∧ ∀ c ∈ cs.getLast?, isBlank c = false

theorem blanks_of_all (h : cs.all isBlank = true) : Blanks cs := List.all_eq_true.mp h

theorem Blanks.reverse (h : Blanks cs) : Blanks cs.reverse := fun c hc => h c (List.mem_reverse.mp hc)

theorem IsTight.reverse (h : IsTight cs) : IsTight cs.reverse :=
  ⟨fun c hc => h.2 c (List.head?_reverse ▸ hc), fun c hc => h.1 c (List.getLast?_reverse ▸ hc)⟩

theorem isTight_of_forall (h : ∀ c ∈ cs, isBlank c = false) : IsTight cs :=
  ⟨fun c hc => h c (List.mem_of_head? hc), fun c hc => h c (List.mem_of_getLast? hc)⟩

/-! ### One end -/

private theorem trimStart_append (h : Blanks before) : trimStart (before ++ cs) = trimStart cs :=
  List.dropWhile_append_of_pos h

private theorem Blanks.trimStart_eq (h : Blanks cs) : trimStart cs = [] :=
  List.dropWhile_eq_nil_iff.mpr h

private theorem trimStart_of_isTight (h : IsTight cs) : trimStart cs = cs := by
  cases cs with
  | nil => rfl
  | cons c cs => exact List.dropWhile_cons_of_neg (by simpa using h.1 c rfl)

private theorem exists_blanks_append_trimStart (cs : List Char) :
    ∃ before, Blanks before ∧ cs = before ++ trimStart cs :=
  ⟨cs.takeWhile isBlank, fun _ hc => List.mem_takeWhile_imp hc,
    List.takeWhile_append_dropWhile.symm⟩

private theorem head?_trimStart (cs : List Char) : ∀ c ∈ (trimStart cs).head?, isBlank c = false := by
  intro c hc
  have h := List.head?_dropWhile_not isBlank cs
  rw [show (List.dropWhile isBlank cs).head? = some c from hc] at h
  exact h

/-! ### Both ends -/

theorem trim_pads (cs : List Char) : Pads (trim cs) cs := by
  obtain ⟨before, hbefore, hstart⟩ := exists_blanks_append_trimStart cs
  obtain ⟨after, hafter, hend⟩ := exists_blanks_append_trimStart (trimStart cs).reverse
  refine ⟨before, after.reverse, hbefore, hafter.reverse, ?_⟩
  have hrest : trimStart cs = trim cs ++ after.reverse := by
    rw [trim, ← List.reverse_append, ← hend, List.reverse_reverse]
  rw [List.append_assoc, ← hrest, ← hstart]

theorem trim_append_append (hbefore : Blanks before) (hafter : Blanks after) (cs : List Char) :
    trim (before ++ cs ++ after) = trim cs := by
  obtain ⟨front, hfront, hcs⟩ := exists_blanks_append_trimStart cs
  rw [trim, trim, List.append_assoc, trimStart_append hbefore]
  cases hrest : trimStart cs with
  | nil =>
      rw [hrest, List.append_nil] at hcs
      have hall : trimStart (cs ++ after) = [] := by
        rw [hcs, trimStart_append hfront, hafter.trimStart_eq]
      rw [hall]
  | cons c rest =>
      have htight : isBlank c = false := head?_trimStart cs c (by rw [hrest]; rfl)
      have hstart : trimStart (cs ++ after) = c :: rest ++ after := by
        rw [hcs, hrest, List.append_assoc, trimStart_append hfront]
        exact List.dropWhile_cons_of_neg (by simpa using htight)
      rw [hstart, List.reverse_append, trimStart_append hafter.reverse]

private theorem trim_of_isTight (h : IsTight cs) : trim cs = cs := by
  rw [trim, trimStart_of_isTight h, trimStart_of_isTight h.reverse, List.reverse_reverse]

theorem Pads.trim_eq (h : Pads inner outer) (htight : IsTight inner) : trim outer = inner := by
  obtain ⟨before, after, hbefore, hafter, rfl⟩ := h
  rw [trim_append_append hbefore hafter, trim_of_isTight htight]

theorem trim_eq_nil_iff : trim cs = [] ↔ Blanks cs := by
  obtain ⟨before, after, hbefore, hafter, hcs⟩ := trim_pads cs
  constructor
  · intro h
    rw [h, List.append_nil] at hcs
    rw [hcs]
    exact List.forall_mem_append.mpr ⟨hbefore, hafter⟩
  · intro h
    rw [trim, h.trimStart_eq]
    rfl

end Bureau.Text
