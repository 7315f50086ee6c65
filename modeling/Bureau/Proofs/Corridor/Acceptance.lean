import Bureau.Proofs.Corridor.Registry
import Mathlib.Data.List.Induction
import Mathlib.Data.List.Nodup

/-!
Which lists of corridors make a table. A list is accepted exactly if every corridor is valid and no two
have one pair; else the error is that of the first corridor that cannot stand after those before it. In
an accepted table the index and the list say the same: a pair leads to the only corridor that has it.
-/

set_option autoImplicit false

namespace Bureau

open Attempt

/-- The check of a corridor says just whether it is valid. -/
theorem Corridor.validate_eq_ok_iff {c : Corridor} : c.validate = .ok () ↔ c.IsValid := by
  refine ⟨isValid_of_validate, fun h => ?_⟩
  have hnegative : ¬ (c.feePercentage < Decimal.zero ∨ c.marginPercentage < Decimal.zero) :=
    not_or.mpr ⟨Int.not_lt.mpr h.fee_nonneg, Int.not_lt.mpr h.isMargin.1⟩
  have hmargin : ¬ Decimal.hundred ≤ c.marginPercentage := Int.not_le.mpr h.isMargin.2
  unfold validate
  rw [if_neg (Bool.eq_false_iff.mp h.isIdentity_eq), if_neg hnegative, if_neg hmargin,
    if_neg (Decidable.not_not.mpr h.minimum_currency)]

namespace Registry

variable {r s : Registry} {c : Corridor} {pair : CurrencyPair} {before after corridors : List Corridor}
  {e : FxError}

/-! ### Tables and faults -/

/-- Corridors that can stand in one table. -/
structure IsTable (corridors : List Corridor) : Prop where
  isValid : ∀ c ∈ corridors, c.IsValid
  nodup : (corridors.map Corridor.pair).Nodup

/-- What a table has against a corridor after those before it. -/
inductive Faults (before : List Corridor) (c : Corridor) : FxError → Prop
  | invalid {e : FxError} (h : c.validate = .error e) : Faults before c e
  | duplicate (hvalid : c.IsValid) (h : c.pair ∈ before.map Corridor.pair) :
      Faults before c (.invalidConfig s!"duplicate corridor {c.pair}")

/-- The first corridor that cannot stand after those before it, with what is wrong with it. -/
def FirstFault (corridors : List Corridor) (e : FxError) : Prop :=
  ∃ before c after, corridors = before ++ c :: after ∧ IsTable before ∧ Faults before c e

private theorem isTable_nil : IsTable [] :=
  ⟨fun _ hc => absurd hc List.not_mem_nil, List.nodup_nil⟩

private theorem isTable_append_singleton :
    IsTable (before ++ [c]) ↔ IsTable before ∧ c.IsValid ∧ c.pair ∉ before.map Corridor.pair := by
  constructor
  · intro h
    have hnodup := h.nodup
    rw [List.map_append, List.nodup_append] at hnodup
    obtain ⟨hbefore, -, hnew⟩ := hnodup
    refine ⟨⟨fun d hd => h.isValid d (List.mem_append_left _ hd), hbefore⟩,
      h.isValid c (List.mem_append_right _ (List.mem_singleton_self c)), fun hc => ?_⟩
    exact hnew c.pair hc c.pair (List.mem_singleton_self _) rfl
  · rintro ⟨h, hvalid, hnew⟩
    refine ⟨fun d hd => ?_, ?_⟩
    · rcases List.mem_append.mp hd with hd | hd
      · exact h.isValid d hd
      · rw [List.mem_singleton.mp hd]
        exact hvalid
    · rw [List.map_append, List.nodup_append]
      refine ⟨h.nodup, List.nodup_singleton _, ?_⟩
      rintro p hp q hq rfl
      rw [List.mem_singleton.mp hq] at hp
      exact hnew hp

/-- A list makes a table or has a first fault, by induction on its last corridor. -/
private theorem isTable_or_firstFault (corridors : List Corridor) :
    IsTable corridors ∨ ∃ e, FirstFault corridors e := by
  induction corridors using List.reverseRecOn with
  | nil => exact .inl isTable_nil
  | append_singleton before c ih =>
      rcases ih with htable | ⟨e, first, d, rest, rfl, hfirst, hfault⟩
      · cases hcheck : c.validate with
        | error e => exact .inr ⟨e, before, c, [], rfl, htable, .invalid hcheck⟩
        | ok u =>
            have hvalid := Corridor.isValid_of_validate hcheck
            by_cases hknown : c.pair ∈ before.map Corridor.pair
            · exact .inr ⟨_, before, c, [], rfl, htable, .duplicate hvalid hknown⟩
            · exact .inl (isTable_append_singleton.mpr ⟨htable, hvalid, hknown⟩)
      · refine .inr ⟨e, first, d, rest ++ [c], ?_, hfirst, hfault⟩
        rw [List.append_assoc, List.cons_append]

/-! ### How tables are built -/

/-- A table of corridors whose index has their pairs, the last one first. -/
structure Lists (r : Registry) (corridors : List Corridor) : Prop where
  corridors_eq : r.corridors = corridors
  pairs_eq : r.index.map (·.1) = (corridors.map Corridor.pair).reverse

private theorem Lists.any_index (h : r.Lists before) (pair : CurrencyPair) :
    (r.index.any fun entry => entry.1 == pair) = true ↔ pair ∈ before.map Corridor.pair := by
  rw [← List.mem_reverse, ← h.pairs_eq, List.any_eq_true, List.mem_map]
  simp only [beq_iff_eq]

private theorem Lists.add_of_new (h : r.Lists before) (hvalid : c.IsValid)
    (hnew : c.pair ∉ before.map Corridor.pair) :
    ∃ s, r.add c = .ok s ∧ s.Lists (before ++ [c]) := by
  refine ⟨⟨r.corridors ++ [c], (c.pair, r.corridors.length) :: r.index⟩, ?_, ?_, ?_⟩
  · unfold add
    rw [Corridor.validate_eq_ok_iff.mpr hvalid, ok_bind, if_neg fun hany => hnew
      ((h.any_index c.pair).mp hany)]
    rfl
  · rw [h.corridors_eq]
  · rw [List.map_cons, h.pairs_eq, List.map_append, List.reverse_append]
    rfl

/-- A corridor that cannot stand after those of a table is refused, with what is wrong with it. -/
theorem Lists.add_of_faults (h : r.Lists before) (hfault : Faults before c e) :
    r.add c = .error e := by
  unfold add
  cases hfault with
  | invalid hcheck =>
      rw [hcheck]
      rfl
  | duplicate hvalid hknown =>
      rw [Corridor.validate_eq_ok_iff.mpr hvalid, ok_bind, if_pos ((h.any_index c.pair).mpr hknown)]
      rfl

private theorem ofList_append_singleton (before : List Corridor) (c : Corridor) :
    ofList (before ++ [c]) = ofList before >>= fun r => r.add c := by
  unfold ofList
  rw [List.foldlM_append]
  refine congrArg (_ >>= ·) (funext fun r => ?_)
  exact List.foldlM_cons.trans (bind_pure _)

/-- Corridors that can stand in one table make one, by induction on the last one. -/
private theorem IsTable.exists_ofList (h : IsTable corridors) :
    ∃ r, ofList corridors = .ok r ∧ r.Lists corridors := by
  induction corridors using List.reverseRecOn with
  | nil => exact ⟨empty, rfl, rfl, rfl⟩
  | append_singleton before c ih =>
      obtain ⟨htable, hvalid, hnew⟩ := isTable_append_singleton.mp h
      obtain ⟨r, hr, hlists⟩ := ih htable
      rw [ofList_append_singleton, hr, ok_bind]
      exact hlists.add_of_new hvalid hnew

private theorem ofList_of_firstFault (h : FirstFault corridors e) : ofList corridors = .error e := by
  obtain ⟨before, c, after, rfl, htable, hfault⟩ := h
  obtain ⟨r, hr, hlists⟩ := htable.exists_ofList
  have hbefore : ofList (before ++ [c]) = .error e := by
    rw [ofList_append_singleton, hr, ok_bind]
    exact hlists.add_of_faults hfault
  unfold ofList at hbefore ⊢
  rw [List.append_cons, List.foldlM_append, hbefore]
  rfl

theorem exists_ofList_iff : (∃ r, ofList corridors = .ok r) ↔ IsTable corridors := by
  refine ⟨?_, fun h => h.exists_ofList.imp fun r hr => hr.1⟩
  rintro ⟨r, hr⟩
  rcases isTable_or_firstFault corridors with htable | ⟨e, hfault⟩
  · exact htable
  · rw [ofList_of_firstFault hfault] at hr
    cases hr

theorem ofList_eq_error_iff : ofList corridors = .error e ↔ FirstFault corridors e := by
  refine ⟨fun h => ?_, ofList_of_firstFault⟩
  rcases isTable_or_firstFault corridors with htable | ⟨e', hfault⟩
  · obtain ⟨r, hr, -⟩ := htable.exists_ofList
    rw [hr] at h
    cases h
  · rw [ofList_of_firstFault hfault] at h
    cases h
    exact hfault

/-! ### Index and list -/

private theorem filter_pair_eq_singleton_iff (h : (corridors.map Corridor.pair).Nodup) :
    (corridors.filter fun d => d.pair = pair) = [c] ↔ c ∈ corridors ∧ c.pair = pair := by
  have hmem : ∀ d, d ∈ corridors.filter (fun d => d.pair = pair) ↔ d ∈ corridors ∧ d.pair = pair := by
    intro d
    rw [List.mem_filter, decide_eq_true_eq]
  constructor
  · intro hfilter
    rw [← hmem, hfilter]
    exact List.mem_singleton_self c
  · intro hc
    have hsame : ∀ d ∈ corridors.filter (fun d => d.pair = pair), d = c := fun d hd =>
      List.inj_on_of_nodup_map h ((hmem d).mp hd).1 hc.1 (((hmem d).mp hd).2.trans hc.2.symm)
    have hnodup : (corridors.filter fun d => d.pair = pair).Nodup := h.of_map.filter _
    have hreplicate := List.eq_replicate_of_mem hsame
    rw [hreplicate, List.nodup_replicate] at hnodup
    have hpos : 0 < (corridors.filter fun d => d.pair = pair).length :=
      List.length_pos_of_mem ((hmem c).mpr hc)
    rw [hreplicate, Nat.le_antisymm hnodup hpos]
    rfl

theorem find?_eq_some_iff_filter (h : ofList corridors = .ok r) :
    r.find? pair = some c ↔ (corridors.filter fun d => d.pair = pair) = [c] := by
  have hindexed := isIndexed_ofList h
  have hcorridors := corridors_ofList h
  rw [filter_pair_eq_singleton_iff (exists_ofList_iff.mp ⟨r, h⟩).nodup]
  constructor
  · intro hfind
    rw [← hcorridors]
    exact ⟨mem_of_find? hfind, hindexed.pair_of_find? hfind⟩
  · rintro ⟨hc, rfl⟩
    rw [← hcorridors] at hc
    exact hindexed.find?_of_mem c hc

end Registry

end Bureau
