import Bureau.Text.Digits
import Bureau.Text.Hex
import Mathlib.Tactic.Ring
import Mathlib.Tactic.SplitIfs

/-!
Digits read back: the value of the digits of a number is the number, with zeros in front or without,
in base ten and in base sixteen.
-/

set_option autoImplicit false

namespace Bureau

theorem tenTo_eq (n : Nat) : tenTo n = 10 ^ n := rfl

namespace Text

theorem bind_of_eq_some {α β : Type} {x : Option α} {a : α} (h : x = some a)
    (f : α → Option β) : (x >>= f) = f a := by
  rw [h]
  rfl

/-! ### Single digits -/

private theorem digitValue_digitChar {d : Nat} (h : d < 10) : digitValue (digitChar d) = d := by
  have hall : ∀ d < 10, digitValue (digitChar d) = d := by decide
  exact hall d h

private theorem isDigit_digitChar {d : Nat} (h : d < 10) : isDigit (digitChar d) = true := by
  have hall : ∀ d < 10, isDigit (digitChar d) = true := by decide
  exact hall d h

private theorem hexValue?_hexChar {d : Nat} (h : d < 16) : hexValue? (hexChar d) = some d := by
  have hall : ∀ d < 16, hexValue? (hexChar d) = some d := by decide
  exact hall d h

/-! ### Runs of digits -/

def valueFrom (n : Nat) (cs : List Char) : Nat := cs.foldl (fun n c => 10 * n + digitValue c) n

theorem valueFrom_cons (n : Nat) (c : Char) (cs : List Char) :
    valueFrom n (c :: cs) = valueFrom (10 * n + digitValue c) cs := by
  simp only [valueFrom, List.foldl_cons]

private theorem valueFrom_append (n : Nat) (cs ds : List Char) :
    valueFrom n (cs ++ ds) = valueFrom (valueFrom n cs) ds := by
  simp [valueFrom]

theorem valueFrom_eq (n : Nat) (cs : List Char) :
    valueFrom n cs = n * 10 ^ cs.length + valueOf cs := by
  induction cs generalizing n with
  | nil => simp [valueFrom, valueOf]
  | cons c cs ih =>
      have hzero : valueOf (c :: cs) = valueFrom (digitValue c) cs := by
        simp [valueOf, valueFrom]
      rw [valueFrom_cons, hzero, ih, ih, List.length_cons, Nat.pow_succ]
      ring

theorem le_valueFrom (n : Nat) (cs : List Char) : n ≤ valueFrom n cs := by
  rw [valueFrom_eq]
  have hpos : 0 < 10 ^ cs.length := Nat.pow_pos (by decide)
  exact Nat.le_trans (Nat.le_mul_of_pos_right n hpos) (Nat.le_add_right _ _)

private theorem valueOf_append (cs ds : List Char) :
    valueOf (cs ++ ds) = valueOf cs * 10 ^ ds.length + valueOf ds := by
  have h := valueFrom_append 0 cs ds
  rwa [valueFrom_eq (valueFrom 0 cs)] at h

theorem valueOf_digits (n : Nat) : valueOf (digits n) = n := by
  induction n using digits.induct with
  | case1 n h =>
      rw [digits, if_pos h]
      simp [valueOf, digitValue_digitChar h]
  | case2 n h ih =>
      rw [digits, if_neg h, valueOf_append, ih]
      have hlast := digitValue_digitChar (Nat.mod_lt n (by decide : 0 < 10))
      simp only [valueOf, List.foldl_cons, List.foldl_nil, List.length_singleton, hlast]
      omega

theorem digits_ne_nil (n : Nat) : digits n ≠ [] := by
  rw [digits]
  split_ifs <;> simp

theorem all_digits (n : Nat) : ∀ c ∈ digits n, isDigit c = true := by
  induction n using digits.induct with
  | case1 n h =>
      rw [digits, if_pos h]
      simpa using isDigit_digitChar h
  | case2 n h ih =>
      rw [digits, if_neg h]
      intro c hc
      rcases List.mem_append.mp hc with hc | hc
      · exact ih c hc
      · rw [List.mem_singleton.mp hc]
        exact isDigit_digitChar (Nat.mod_lt n (by decide))

private theorem length_digits_le {n width : Nat} (hpos : 0 < width) (h : n < 10 ^ width) :
    (digits n).length ≤ width := by
  induction n using digits.induct generalizing width with
  | case1 n hn =>
      rw [digits, if_pos hn]
      exact hpos
  | case2 n hn ih =>
      obtain ⟨w, rfl⟩ : ∃ w, width = w + 1 := ⟨width - 1, by omega⟩
      have hw : 0 < w := by
        rcases Nat.eq_zero_or_pos w with rfl | hw
        · simp at h
          omega
        · exact hw
      have hdiv : n / 10 < 10 ^ w := by
        rw [Nat.pow_succ] at h
        omega
      have hlen := ih hw hdiv
      rw [digits, if_neg hn, List.length_append, List.length_singleton]
      omega

/-! ### Zeros in front -/

private theorem valueOf_padLeft (width : Nat) (cs : List Char) :
    valueOf (padLeft width cs) = valueOf cs := by
  unfold padLeft
  have hzeros : ∀ k, valueOf (List.replicate k '0') = 0 := by
    intro k
    induction k with
    | zero => rfl
    | succ k ih => simpa [List.replicate_succ, valueOf, digitValue] using ih
  rw [valueOf_append, hzeros, Nat.zero_mul, Nat.zero_add]

theorem valueOf_paddedDigits (width n : Nat) : valueOf (paddedDigits width n) = n := by
  rw [paddedDigits, valueOf_padLeft, valueOf_digits]

theorem all_paddedDigits (width n : Nat) : ∀ c ∈ paddedDigits width n, isDigit c = true := by
  intro c hc
  rcases List.mem_append.mp hc with hc | hc
  · rw [List.eq_of_mem_replicate hc]
    rfl
  · exact all_digits n c hc

theorem length_paddedDigits {n width : Nat} (hpos : 0 < width) (h : n < 10 ^ width) :
    (paddedDigits width n).length = width := by
  have hlen := length_digits_le hpos h
  simp only [paddedDigits, padLeft, List.length_append, List.length_replicate]
  omega

/-! ### Where digits end -/

theorem takeWhile_isDigit_append {ds rest : List Char} (hds : ∀ c ∈ ds, isDigit c = true)
    (hrest : ∀ c, rest.head? = some c → isDigit c = false) :
    (ds ++ rest).takeWhile isDigit = ds := by
  rw [List.takeWhile_append_of_pos hds]
  cases rest with
  | nil => simp
  | cons c rest => simp [hrest c rfl]

/-! ### Numbers with a sign -/

def IsNumeral (ds : List Char) : Prop := ds ≠ [] ∧ ∀ d ∈ ds, isDigit d = true

/-- A text that spells a natural number: its digits, after a plus sign or not. -/
inductive SpellsNat : List Char → Nat → Prop
  | plain {ds : List Char} (h : IsNumeral ds) : SpellsNat ds (valueOf ds)
  | plus {ds : List Char} (h : IsNumeral ds) : SpellsNat ('+' :: ds) (valueOf ds)

inductive SpellsInt : List Char → Int → Prop
  | nat {cs : List Char} {n : Nat} (h : SpellsNat cs n) : SpellsInt cs n
  | minus {ds : List Char} (h : IsNumeral ds) : SpellsInt ('-' :: ds) (-(valueOf ds : Int))

private theorem not_isNumeral_cons {c : Char} {ds : List Char} (h : isDigit c = false) :
    ¬ IsNumeral (c :: ds) := fun hds => by
  have hdigit := hds.2 c List.mem_cons_self
  rw [h] at hdigit
  cases hdigit

private theorem ite_isNumeral_eq_some_iff {α : Type} {ds : List Char} {small : Prop} [Decidable small]
    {value a : α} :
    (if ds ≠ [] && ds.all isDigit && small then some value else none) = some a ↔
      IsNumeral ds ∧ small ∧ value = a := by
  have hnumeral : (ds ≠ [] && ds.all isDigit && decide small) = true ↔ IsNumeral ds ∧ small := by
    simp [IsNumeral]
  rw [Option.ite_none_right_eq_some, hnumeral, Option.some.injEq, and_assoc]

theorem readNat?_eq_some_iff {bound n : Nat} {cs : List Char} :
    readNat? bound cs = some n ↔ SpellsNat cs n ∧ n < bound := by
  unfold readNat?
  split
  · next ds =>
      rw [ite_isNumeral_eq_some_iff]
      constructor
      · rintro ⟨hds, hlt, rfl⟩
        exact ⟨.plus hds, hlt⟩
      · rintro ⟨h, hlt⟩
        cases h with
        | plain hds => exact absurd hds (not_isNumeral_cons rfl)
        | plus hds => exact ⟨hds, hlt, rfl⟩
  · next hplus =>
      rw [ite_isNumeral_eq_some_iff]
      constructor
      · rintro ⟨hds, hlt, rfl⟩
        exact ⟨.plain hds, hlt⟩
      · rintro ⟨h, hlt⟩
        cases h with
        | plain hds => exact ⟨hds, hlt, rfl⟩
        | plus hds => exact absurd rfl (hplus _)

theorem readInt64?_eq_some_iff {n : Int} {cs : List Char} :
    readInt64? cs = some n ↔ SpellsInt cs n ∧ -(twoTo 63 : Int) ≤ n ∧ n < twoTo 63 := by
  have hpos := twoTo_pos 63
  unfold readInt64?
  split
  · next ds =>
      rw [ite_isNumeral_eq_some_iff]
      constructor
      · rintro ⟨hds, hle, rfl⟩
        exact ⟨.minus hds, by omega, by omega⟩
      · rintro ⟨h, hle, -⟩
        cases h with
        | nat h =>
            cases h with
            | plain hds => exact absurd hds (not_isNumeral_cons rfl)
        | minus hds => exact ⟨hds, by omega, rfl⟩
  · next hminus =>
      rw [Option.map_eq_some_iff]
      constructor
      · rintro ⟨m, hm, rfl⟩
        obtain ⟨hspells, hlt⟩ := readNat?_eq_some_iff.mp hm
        have hcast : Int.ofNat m = (m : Int) := rfl
        exact ⟨.nat hspells, by omega, by omega⟩
      · rintro ⟨h, -, hlt⟩
        cases h with
        | nat hspells => exact ⟨_, readNat?_eq_some_iff.mpr ⟨hspells, Int.ofNat_lt.mp hlt⟩, rfl⟩
        | minus hds => exact absurd rfl (hminus _)

/-! ### Hexadecimal digits -/

private theorem readHex?_append (n : Nat) (cs ds : List Char) :
    readHex? n (cs ++ ds) = (readHex? n cs).bind (readHex? · ds) := by
  induction cs generalizing n with
  | nil => rfl
  | cons c cs ih =>
      simp only [List.cons_append, readHex?, Option.bind_assoc]
      congr 1
      funext d
      exact ih _

theorem readHex?_hexFixed (a k n : Nat) :
    readHex? a (hexFixed k n) = some (a * 16 ^ k + n % 16 ^ k) := by
  induction k generalizing n with
  | zero => simp [hexFixed, readHex?, Nat.mod_one]
  | succ k ih =>
      have hlast := hexValue?_hexChar (Nat.mod_lt n (by decide : 0 < 16))
      rw [hexFixed, readHex?_append, ih]
      simp only [Option.bind_some, readHex?, hlast, Option.some.injEq]
      rw [Nat.pow_succ, Nat.mul_comm (16 ^ k) 16, Nat.mod_mul]
      ring

end Text

end Bureau
