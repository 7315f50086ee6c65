import Bureau.Decimal.Text
import Bureau.Proofs.Text.Digits

/-!
Decimals read back from their text with every place of their scale. Only the sign of a zero is lost,
which carries no value.
-/

set_option autoImplicit false

namespace Bureau.Decimal

open Bureau.Text

def plain (a : Decimal) : Decimal := if a.isZero then a.withSign false else a

theorem coefficient_plain (a : Decimal) : a.plain.coefficient = a.coefficient := by
  unfold plain
  split_ifs with hzero
  · have hsize : a.size = 0 := beq_iff_eq.mp hzero
    simp [coefficient, withSign, hsize]
  · rfl

theorem scale_plain (a : Decimal) : a.plain.scale = a.scale := by
  unfold plain
  split_ifs <;> rfl

theorem plain_plain (a : Decimal) : a.plain.plain = a.plain := by
  unfold plain
  split_ifs <;> rfl

theorem plain_of_unsigned {a : Decimal} (h : a.isZero = true → a.negative = false) :
    a.plain = a := by
  unfold plain
  by_cases hzero : a.isZero = true
  · rw [if_pos hzero, withSign, ← h hzero]
  · rw [if_neg hzero]

/-! ### Reading digits -/

private theorem readDigits_whole {ds : List Char} (hds : ∀ c ∈ ds, isDigit c = true) {n : Nat}
    (hsize : valueFrom n ds < twoTo 96) (seen : Bool) (rest : List Char) :
    readDigits ⟨false, seen, n, 0⟩ (ds ++ rest) =
      readDigits ⟨false, seen || !ds.isEmpty, valueFrom n ds, 0⟩ rest := by
  induction ds generalizing n seen with
  | nil => simp [valueFrom]
  | cons c ds ih =>
      have hdigit := hds c List.mem_cons_self
      rw [valueFrom_cons] at hsize ⊢
      have hfits := Nat.lt_of_le_of_lt (le_valueFrom (10 * n + digitValue c) ds) hsize
      have hrest := ih (fun d hd => hds d (List.mem_cons_of_mem c hd)) hsize true
      rw [List.cons_append, readDigits]
      simp [hdigit, hfits, hrest]

private theorem readDigits_places {ds : List Char} (hds : ∀ c ∈ ds, isDigit c = true) {n scale : Nat}
    (hsize : valueFrom n ds < twoTo 96) (hscale : scale + ds.length ≤ maxScale) :
    readDigits ⟨true, true, n, scale⟩ ds = some (valueFrom n ds, scale + ds.length) := by
  induction ds generalizing n scale with
  | nil => simp [readDigits, valueFrom]
  | cons c ds ih =>
      have hdigit := hds c List.mem_cons_self
      rw [valueFrom_cons] at hsize ⊢
      rw [List.length_cons] at hscale ⊢
      have hfits := Nat.lt_of_le_of_lt (le_valueFrom (10 * n + digitValue c) ds) hsize
      have hroom : scale ≠ maxScale := by omega
      have hnext : scale + 1 + ds.length ≤ maxScale := by omega
      have hrest := ih (fun d hd => hds d (List.mem_cons_of_mem c hd)) hsize hnext
      rw [readDigits]
      simp [hroom, hdigit, hfits, hrest]
      omega

private theorem isEmpty_digits (n : Nat) : (digits n).isEmpty = false :=
  List.isEmpty_eq_false_iff.mpr (digits_ne_nil n)

private theorem readDigits_pointed {size scale : Nat} (hsize : size < twoTo 96)
    (hscale : scale ≤ maxScale) : readDigits {} (pointed size scale) = some (size, scale) := by
  unfold pointed
  split_ifs with hzero
  · subst hzero
    have hvalue : valueFrom 0 (digits size) = size := valueOf_digits size
    have hread := readDigits_whole (all_digits size) (n := 0) (by rwa [hvalue]) false []
    rw [List.append_nil, hvalue] at hread
    rw [hread, readDigits, isEmpty_digits]
    rfl
  · have hpos : 0 < tenTo scale := tenTo_pos scale
    have hlen : (paddedDigits scale (size % tenTo scale)).length = scale :=
      length_paddedDigits (Nat.pos_of_ne_zero hzero) (Nat.mod_lt size hpos)
    have hwhole : valueFrom 0 (digits (size / tenTo scale)) = size / tenTo scale :=
      valueOf_digits _
    have hvalue : valueFrom (size / tenTo scale) (paddedDigits scale (size % tenTo scale)) =
        size := by
      rw [valueFrom_eq, hlen, valueOf_paddedDigits, ← tenTo_eq]
      exact Nat.div_add_mod' size (tenTo scale)
    have hbound : size / tenTo scale < twoTo 96 := Nat.lt_of_le_of_lt (Nat.div_le_self _ _) hsize
    rw [readDigits_whole (all_digits _) (by rwa [hwhole]) false, hwhole, readDigits]
    have hplaces : 0 + (paddedDigits scale (size % tenTo scale)).length ≤ maxScale := by
      rw [hlen]
      omega
    have hplaces := readDigits_places (all_paddedDigits scale (size % tenTo scale))
      (n := size / tenTo scale) (by rwa [hvalue]) hplaces
    rw [hvalue, hlen, Nat.zero_add] at hplaces
    rw [isEmpty_digits]
    exact hplaces

/-! ### Reading a number -/

private theorem exists_head_pointed (size scale : Nat) :
    ∃ c cs, pointed size scale = c :: cs ∧ isDigit c = true := by
  have hhead : ∀ n, ∃ c cs, digits n = c :: cs ∧ isDigit c = true := by
    intro n
    cases hdigits : digits n with
    | nil => exact absurd hdigits (digits_ne_nil n)
    | cons c cs => exact ⟨c, cs, rfl, all_digits n c (by simp [hdigits])⟩
  unfold pointed
  split_ifs
  · exact hhead size
  · obtain ⟨c, cs, hcs, hc⟩ := hhead (size / tenTo scale)
    exact ⟨c, _, by rw [hcs, List.cons_append], hc⟩

private theorem ofPlain?_pointed {size scale : Nat} (hsize : size < twoTo 96)
    (hscale : scale ≤ maxScale) :
    ofPlain? (pointed size scale) = ofParts? size scale := by
  have hread := readDigits_pointed hsize hscale
  obtain ⟨c, cs, hcs, hdigit⟩ := exists_head_pointed size scale
  rw [hcs] at hread ⊢
  unfold ofPlain?
  split
  · rename_i heq
    cases heq
    cases hdigit
  · rename_i heq
    cases heq
    cases hdigit
  · rw [hread]
    rfl

private theorem ofPlain?_chars (a : Decimal) : ofPlain? a.chars = some a.plain := by
  obtain ⟨negative, size, scale, hsize, hscale⟩ := a
  cases negative
  · simp only [chars, Bool.false_eq_true, if_false]
    rw [ofPlain?_pointed hsize hscale, ofParts?, dif_pos ⟨by simpa using hsize, hscale⟩]
    simp [plain, withSign]
  · have hread := readDigits_pointed hsize hscale
    simp only [chars, if_true, ofPlain?, hread, Option.bind_eq_bind, Option.bind_some]
    rw [ofParts?, dif_pos ⟨by simpa using hsize, hscale⟩]
    by_cases hzero : size = 0
    · simp [plain, isZero, hzero, withSign]
    · have hpos : 0 < size := Nat.pos_of_ne_zero hzero
      simp [plain, isZero, hzero, hpos]

theorem parse?_text (a : Decimal) : parse? a.text = some a.plain := by
  rw [parse?, text, String.toList_ofList, ofChars?, ofPlain?_chars, Option.some_or]

end Bureau.Decimal
