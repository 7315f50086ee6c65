import Bureau.Corridor.Registry
import Bureau.Proofs.Attempt
import Mathlib.Tactic.SplitIfs

/-!
Corridors and tables of them that were accepted. A corridor is added to a table if it passes its check
and its pair is new; so every corridor of an accepted table is valid, is the one that is found by its
pair, and no other pair leads to it.
-/

set_option autoImplicit false

namespace Bureau

open Attempt

/-! ### Corridors -/

/-- A margin from zero up to below a hundred percent. -/
def Decimal.IsMargin (m : Decimal) : Prop := zero ≤ m ∧ m < hundred

theorem Decimal.le_of_not_lt {a b : Decimal} (h : ¬ a < b) : b ≤ a := Int.not_lt.mp h

theorem Decimal.lt_of_not_le {a b : Decimal} (h : ¬ a ≤ b) : b < a := Int.not_le.mp h

/-- A corridor between two currencies whose fee and margin make sense. -/
structure Corridor.IsValid (c : Corridor) : Prop where
  isIdentity_eq : c.pair.isIdentity = false
  fee_nonneg : Decimal.zero ≤ c.feePercentage
  isMargin : c.marginPercentage.IsMargin
  minimum_currency : c.feeMinimum.currency = c.sourceCurrency

theorem Corridor.isValid_of_validate {c : Corridor} (h : c.validate = .ok ()) : c.IsValid := by
  unfold validate at h
  split_ifs at h with hpair hnegative hmargin hcurrency
  rw [not_or] at hnegative
  exact
    { isIdentity_eq := Bool.eq_false_iff.mpr hpair
      fee_nonneg := Decimal.le_of_not_lt hnegative.1
      isMargin := ⟨Decimal.le_of_not_lt hnegative.2, Decimal.lt_of_not_le hmargin⟩
      minimum_currency := Decidable.not_not.mp hcurrency }

namespace Registry

variable {r s : Registry} {c : Corridor} {pair : CurrencyPair} {corridors : List Corridor}

/-! ### Additions -/

private theorem add_eq_ok (h : r.add c = .ok s) :
    c.validate = .ok () ∧ (∀ entry ∈ r.index, entry.1 ≠ c.pair) ∧
      s = ⟨r.corridors ++ [c], (c.pair, r.corridors.length) :: r.index⟩ := by
  unfold add at h
  obtain ⟨⟨⟩, hvalid, h⟩ := exists_of_bind_eq_ok h
  change (if r.index.any fun entry => entry.1 == c.pair then _ else _) = _ at h
  split_ifs at h with hknown
  · cases h
  · cases h
    refine ⟨hvalid, fun entry hentry heq => hknown ?_, rfl⟩
    exact List.any_eq_true.mpr ⟨entry, hentry, beq_iff_eq.mpr heq⟩

/-- What holds of the empty table and is kept by every addition holds of an accepted table, by
induction on the corridors that are added. -/
private theorem ofList_induction {P : Registry → Prop} (hempty : P empty)
    (hadd : ∀ {r s c}, P r → r.add c = .ok s → P s) (h : ofList corridors = .ok r) : P r := by
  have hfold : ∀ (s : Registry) (rest : List Corridor), P s → rest.foldlM add s = .ok r → P r := by
    intro s rest hs hrest
    induction rest generalizing s with
    | nil =>
        cases hrest
        exact hs
    | cons c rest ih =>
        rw [List.foldlM_cons] at hrest
        obtain ⟨t, ht, hrest⟩ := exists_of_bind_eq_ok hrest
        exact ih t (hadd hs ht) hrest
  exact hfold empty corridors hempty h

theorem corridors_ofList (h : ofList corridors = .ok r) : r.corridors = corridors := by
  have hfold : ∀ (s : Registry) (rest : List Corridor), rest.foldlM add s = .ok r →
      r.corridors = s.corridors ++ rest := by
    intro s rest hrest
    induction rest generalizing s with
    | nil =>
        cases hrest
        exact (List.append_nil _).symm
    | cons c rest ih =>
        rw [List.foldlM_cons] at hrest
        obtain ⟨t, ht, hrest⟩ := exists_of_bind_eq_ok hrest
        obtain ⟨-, -, rfl⟩ := add_eq_ok ht
        rw [ih _ hrest, List.append_assoc]
        rfl
  exact hfold empty corridors h

/-! ### Accepted tables -/

/-- A table in which every corridor is valid. -/
def IsValid (r : Registry) : Prop := ∀ c ∈ r.corridors, c.validate = .ok ()

theorem isValid_ofList (h : ofList corridors = .ok r) : r.IsValid := by
  refine ofList_induction (fun c hc => absurd hc List.not_mem_nil) ?_ h
  intro r s c hr hadd d hd
  obtain ⟨hvalid, -, rfl⟩ := add_eq_ok hadd
  rcases List.mem_append.mp hd with hd | hd
  · exact hr d hd
  · rw [List.mem_singleton.mp hd]
    exact hvalid

theorem mem_of_find? (h : r.find? pair = some c) : c ∈ r.corridors := by
  obtain ⟨entry, -, hentry⟩ := Option.bind_eq_some_iff.mp h
  exact List.mem_of_getElem? hentry

/-- A table whose positions lead to corridors, each to the one of its pair. -/
structure IsIndexed (r : Registry) : Prop where
  lt_length : ∀ entry ∈ r.index, entry.2 < r.corridors.length
  pair_of_find? : ∀ {pair c}, r.find? pair = some c → c.pair = pair
  find?_of_mem : ∀ c ∈ r.corridors, r.find? c.pair = some c

theorem IsIndexed.find?_append (hr : r.IsIndexed) (c : Corridor) (pair : CurrencyPair) :
    find? ⟨r.corridors ++ [c], (c.pair, r.corridors.length) :: r.index⟩ pair =
      if c.pair = pair then some c else r.find? pair := by
  unfold find?
  rw [List.find?_cons]
  by_cases hpair : c.pair = pair
  · have hsame : (c.pair == pair) = true := beq_iff_eq.mpr hpair
    rw [if_pos hpair, hsame]
    exact List.getElem?_concat_length
  · have hother : (c.pair == pair) = false := beq_eq_false_iff_ne.mpr hpair
    rw [if_neg hpair, hother]
    cases hfind : r.index.find? (fun entry => entry.1 == pair) with
    | none => rfl
    | some entry =>
        exact List.getElem?_append_left (hr.lt_length entry (List.mem_of_find?_eq_some hfind))

theorem IsIndexed.add (hr : r.IsIndexed) (h : r.add c = .ok s) : s.IsIndexed := by
  obtain ⟨-, hnew, rfl⟩ := add_eq_ok h
  refine ⟨?_, ?_, ?_⟩
  · intro entry hentry
    rw [List.length_append, List.length_singleton]
    rcases List.mem_cons.mp hentry with rfl | hentry
    · exact Nat.lt_succ_self _
    · exact Nat.lt_succ_of_lt (hr.lt_length entry hentry)
  · intro pair d hd
    rw [hr.find?_append] at hd
    split_ifs at hd with hpair
    · cases hd
      exact hpair
    · exact hr.pair_of_find? hd
  · intro d hd
    rw [hr.find?_append]
    rcases List.mem_append.mp hd with hd | hd
    · -- the pair of an older corridor is in the index, so it is not the new one
      have hfind := hr.find?_of_mem d hd
      obtain ⟨entry, hentry, -⟩ := Option.bind_eq_some_iff.mp hfind
      have hsame := List.find?_some hentry
      have hpair : entry.1 = d.pair := beq_iff_eq.mp hsame
      rw [if_neg, hfind]
      rw [← hpair]
      exact (hnew entry (List.mem_of_find?_eq_some hentry)).symm
    · rw [List.mem_singleton.mp hd, if_pos rfl]

private theorem isIndexed_empty : empty.IsIndexed where
  lt_length _ hentry := absurd hentry List.not_mem_nil
  pair_of_find? hfind := by cases hfind
  find?_of_mem _ hc := absurd hc List.not_mem_nil

theorem isIndexed_ofList (h : ofList corridors = .ok r) : r.IsIndexed :=
  ofList_induction isIndexed_empty IsIndexed.add h

theorem IsIndexed.find?_eq_some_iff (h : r.IsIndexed) (hc : c ∈ r.corridors) :
    r.find? pair = some c ↔ pair = c.pair := by
  constructor
  · exact fun hfind => (h.pair_of_find? hfind).symm
  · rintro rfl
    exact h.find?_of_mem c hc

theorem IsIndexed.find?_eq_none_iff (h : r.IsIndexed) :
    r.find? pair = none ↔ ∀ c ∈ r.corridors, c.pair ≠ pair := by
  constructor
  · rintro hnone c hc rfl
    rw [h.find?_of_mem c hc] at hnone
    cases hnone
  · intro hother
    cases hfind : r.find? pair with
    | none => rfl
    | some c => exact absurd (h.pair_of_find? hfind) (hother c (mem_of_find? hfind))

theorem mem_list_iff (hc : c ∈ r.corridors) {source : Currency} :
    c ∈ r.list (some source) ↔ source = c.sourceCurrency := by
  rw [list, List.mem_filter, beq_iff_eq]
  exact ⟨fun h => h.2.symm, fun h => ⟨hc, h.symm⟩⟩

end Registry

end Bureau
