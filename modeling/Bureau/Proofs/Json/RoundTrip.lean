import Bureau.Json.Reader
import Bureau.Json.Writer
import Bureau.Proofs.Text.Digits

/-!
Documents read back. A value without numbers and without broken strings is what its text is read as,
whatever characters its strings hold.
-/

set_option autoImplicit false

namespace Bureau.Json

open Bureau.Text

/-! ### Strings -/

private theorem readUnits?_unicode (c : Char) (h : c.toNat < 32) (rest : List Char) :
    readUnits? ('\\' :: 'u' :: hexFixed 4 c.toNat ++ rest) =
      (readUnits? rest).map fun (us, rest) => (.char c :: us, rest) := by
  obtain ⟨a, b, d, e, hdigits⟩ : ∃ a b d e, hexFixed 4 c.toNat = [a, b, d, e] := by
    simp [hexFixed]
  have hread : readHex? 0 [a, b, d, e] = some c.toNat := by
    rw [← hdigits, readHex?_hexFixed, Nat.zero_mul, Nat.zero_add,
      Nat.mod_eq_of_lt (Nat.lt_trans h (by decide))]
  have hunit : Unit16.ofNat c.toNat = .char c := by
    rw [Unit16.ofNat, if_neg (by omega), if_neg (by omega), Char.ofNat_toNat]
  simp only [hdigits, List.cons_append, List.nil_append, readUnits?, hread, hunit,
    Option.map_eq_bind, Option.bind_eq_bind, Option.bind_some]
  rfl

private theorem readUnits?_escapedChar (c : Char) (rest : List Char) :
    readUnits? (escapedChar c ++ rest) =
      (readUnits? rest).map fun (us, rest) => (.char c :: us, rest) := by
  unfold escapedChar
  split
  iterate 7 · simp [readUnits?, escape?, Option.map_eq_bind]
  · rename_i hquote hslash _ _ _ _ _
    split_ifs with hcontrol
    · exact readUnits?_unicode c hcontrol rest
    · rw [List.cons_append, List.nil_append, readUnits?.eq_def]
      split <;> simp_all [Option.map_eq_bind]

private theorem readUnits?_flatMap_escapedChar (cs rest : List Char) :
    readUnits? (cs.flatMap escapedChar ++ '"' :: rest) = some (cs.map .char, rest) := by
  induction cs with
  | nil => simp [readUnits?]
  | cons c cs ih =>
      rw [List.flatMap_cons, List.append_assoc, readUnits?_escapedChar, ih]
      rfl

private theorem join?_map_char (cs : List Char) : join? (cs.map .char) = some cs := by
  induction cs with
  | nil => rfl
  | cons c cs ih => rw [List.map_cons, join?, ih, Option.map_some]

private theorem readString?_stringChars (s : String) (rest : List Char) :
    readString? (s.toList.flatMap escapedChar ++ '"' :: rest) = some (some s, rest) := by
  rw [readString?, readUnits?_flatMap_escapedChar, Option.map_some]
  simp only [join?_map_char, Option.map_some, String.ofList_toList]

/-! ### Values -/

/-- Values of records, lists, texts, truth values and null: what documents are written as. -/
inductive IsPlain : Json → Prop
  | null : IsPlain .null
  | bool (b : Bool) : IsPlain (.bool b)
  | text (s : String) : IsPlain (.text (some s))
  | array (items : List Json) : (∀ item ∈ items, IsPlain item) → IsPlain (.array items)
  | record (members : List (String × Json)) : (∀ m ∈ members, IsPlain m.2) →
      IsPlain (.record members)

/-- Whatever follows its text, a value is read from it with fuel for twice its length. -/
def ReadsBack (j : Json) : Prop :=
  ∀ (fuel : Nat) (rest : List Char), 2 * j.chars.length ≤ fuel →
    readValue? fuel (j.chars ++ rest) = some (j, rest)

private theorem skipSpace_of_not_space {c : Char} (h : isSpace c = false) (cs : List Char) :
    skipSpace (c :: cs) = c :: cs := by
  simp [skipSpace, h]

/-- The text of a plain value begins with neither white space nor a closing bracket. -/
theorem IsPlain.exists_head {j : Json} (h : IsPlain j) :
    ∃ c cs, j.chars = c :: cs ∧ isSpace c = false ∧ c ≠ ']' := by
  cases h with
  | null => exact ⟨'n', _, rfl, rfl, by decide⟩
  | bool b => cases b <;> exact ⟨_, _, rfl, rfl, by decide⟩
  | text s => exact ⟨'"', _, by rw [chars, textChars, stringChars]; rfl, rfl, by decide⟩
  | array items => exact ⟨'[', _, by rw [chars], rfl, by decide⟩
  | record members => exact ⟨'\x7b', _, by rw [Json.record, chars], rfl, by decide⟩

private theorem readItems?_itemChars {items : List Json} (hne : items ≠ [])
    (hitems : ∀ item ∈ items, ReadsBack item) (fuel : Nat) (rest : List Char)
    (hfuel : 2 * (itemChars items).length ≤ fuel) :
    readItems? fuel (itemChars items ++ rest) = some (items, rest) := by
  induction items generalizing fuel with
  | nil => exact absurd rfl hne
  | cons item items ih =>
      have hitem := hitems item List.mem_cons_self
      cases items with
      | nil =>
          simp only [itemChars, List.length_append, List.length_singleton] at hfuel
          obtain ⟨f, rfl⟩ : ∃ f, fuel = f + 1 := ⟨fuel - 1, by omega⟩
          have hread := hitem f (']' :: rest) (by omega)
          rw [itemChars, List.append_assoc, List.singleton_append, readItems?, hread]
          rfl
      | cons next items =>
          simp only [itemChars, List.length_append, List.length_cons] at hfuel
          obtain ⟨f, rfl⟩ : ∃ f, fuel = f + 1 := ⟨fuel - 1, by omega⟩
          have hread := hitem f (',' :: (itemChars (next :: items) ++ rest)) (by omega)
          have hothers := ih (by simp) (fun i hi => hitems i (List.mem_cons_of_mem item hi)) f
            (by omega)
          rw [itemChars, List.append_assoc, List.cons_append, readItems?, hread]
          · simp only [Option.bind_eq_bind, Option.bind_some,
              skipSpace_of_not_space (show isSpace ',' = false from rfl), hothers]
            rfl
          · simp

def named (members : List (String × Json)) : List (Option String × Json) :=
  members.map fun (name, value) => (some name, value)

private theorem readMembers?_cons (name : String) {value : Json} (hvalue : ReadsBack value) {fuel : Nat}
    (hfuel : 2 * value.chars.length ≤ fuel) (rest : List Char) :
    readMembers? (fuel + 1) (textChars (some name) ++ ':' :: (value.chars ++ rest)) =
      match skipSpace rest with
      | '\x7d' :: rest => some ([(some name, value)], rest)
      | ',' :: rest =>
          (readMembers? fuel rest).map fun (ms, rest) => ((some name, value) :: ms, rest)
      | _ => none := by
  have hread := hvalue fuel rest hfuel
  have hname := readString?_stringChars name (':' :: (value.chars ++ rest))
  rw [textChars, stringChars]
  simp only [List.cons_append, List.append_assoc, List.nil_append, readMembers?,
    skipSpace_of_not_space (show isSpace '"' = false from rfl), Option.bind_eq_bind,
    Option.bind_some, hname, skipSpace_of_not_space (show isSpace ':' = false from rfl), hread,
    Option.map_eq_bind]
  generalize skipSpace rest = next
  split
  · rfl
  · rfl
  · simp_all

private theorem readMembers?_memberChars {members : List (String × Json)} (hne : members ≠ [])
    (hmembers : ∀ m ∈ members, ReadsBack m.2) (fuel : Nat) (rest : List Char)
    (hfuel : 2 * (memberChars (named members)).length ≤ fuel) :
    readMembers? fuel (memberChars (named members) ++ rest) = some (named members, rest) := by
  induction members generalizing fuel with
  | nil => exact absurd rfl hne
  | cons member members ih =>
      obtain ⟨name, value⟩ := member
      have hvalue : ReadsBack value := hmembers (name, value) List.mem_cons_self
      cases members with
      | nil =>
          have hchars : memberChars (named [(name, value)]) =
              textChars (some name) ++ ':' :: (value.chars ++ ['\x7d']) := by
            simp [named, memberChars]
          rw [hchars] at hfuel ⊢
          simp only [List.length_append, List.length_cons] at hfuel
          obtain ⟨f, rfl⟩ : ∃ f, fuel = f + 1 := ⟨fuel - 1, by omega⟩
          simp only [List.append_assoc, List.cons_append, List.nil_append]
          rw [readMembers?_cons name hvalue (by omega)]
          rfl
      | cons next members =>
          have hchars : memberChars (named ((name, value) :: next :: members)) =
              textChars (some name) ++ ':' :: (value.chars ++
                ',' :: memberChars (named (next :: members))) := by
            simp [named, memberChars]
          rw [hchars] at hfuel ⊢
          simp only [List.length_append, List.length_cons] at hfuel
          obtain ⟨f, rfl⟩ : ∃ f, fuel = f + 1 := ⟨fuel - 1, by omega⟩
          have hothers := ih (by simp) (fun m hm => hmembers m (List.mem_cons_of_mem _ hm)) f
            (by omega)
          simp only [List.append_assoc, List.cons_append]
          rw [readMembers?_cons name hvalue (by omega),
            skipSpace_of_not_space (show isSpace ',' = false from rfl)]
          simp only [hothers, Option.map_some]
          rfl

theorem ReadsBack.array {items : List Json} (hplain : ∀ item ∈ items, IsPlain item)
    (hitems : ∀ item ∈ items, ReadsBack item) : ReadsBack (.array items) := by
  intro fuel rest hfuel
  rw [chars, List.length_cons] at hfuel
  obtain ⟨f, rfl⟩ : ∃ f, fuel = f + 1 := ⟨fuel - 1, by omega⟩
  cases items with
  | nil =>
      rw [chars, itemChars]
      simp [readValue?, skipSpace, isSpace]
  | cons item items =>
      have hread := readItems?_itemChars (by simp) hitems f rest (by omega)
      obtain ⟨c, cs, hhead, hspace, hbracket⟩ := (hplain item List.mem_cons_self).exists_head
      obtain ⟨ds, hds⟩ : ∃ ds, itemChars (item :: items) = c :: ds := by
        cases items <;> simp [itemChars, hhead]
      rw [chars, List.cons_append, readValue?,
        skipSpace_of_not_space (show isSpace '[' = false from rfl)]
      simp only [hds, List.cons_append] at hread ⊢
      rw [skipSpace_of_not_space hspace]
      simp [hbracket, hread]

theorem ReadsBack.record {members : List (String × Json)}
    (hmembers : ∀ m ∈ members, ReadsBack m.2) : ReadsBack (.record members) := by
  intro fuel rest hfuel
  change 2 * (chars (.object (named members))).length ≤ fuel at hfuel
  change readValue? fuel (chars (.object (named members)) ++ rest) =
    some (.object (named members), rest)
  rw [chars, List.length_cons] at hfuel
  obtain ⟨f, rfl⟩ : ∃ f, fuel = f + 1 := ⟨fuel - 1, by omega⟩
  rw [chars, List.cons_append, readValue?,
    skipSpace_of_not_space (show isSpace '\x7b' = false from rfl)]
  cases members with
  | nil => simp [named, memberChars, skipSpace, isSpace]
  | cons member members =>
      have hread := readMembers?_memberChars (by simp) hmembers f rest (by omega)
      obtain ⟨ds, hds⟩ : ∃ ds, memberChars (named (member :: members)) = '"' :: ds := by
        cases members <;> simp [named, memberChars, textChars, stringChars]
      simp only [hds, List.cons_append] at hread ⊢
      rw [skipSpace_of_not_space (show isSpace '"' = false from rfl)]
      simp [hread]

private theorem IsPlain.readsBack {j : Json} (h : IsPlain j) : ReadsBack j := by
  induction h with
  | null =>
      intro fuel rest hfuel
      obtain ⟨f, rfl⟩ : ∃ f, fuel = f + 1 := ⟨fuel - 1, by simp [chars] at hfuel; omega⟩
      simp [chars, readValue?, skipSpace, isSpace]
  | bool b =>
      intro fuel rest hfuel
      obtain ⟨f, rfl⟩ : ∃ f, fuel = f + 1 :=
        ⟨fuel - 1, by cases b <;> simp [chars] at hfuel <;> omega⟩
      cases b <;> simp [chars, readValue?, skipSpace, isSpace]
  | text s =>
      intro fuel rest hfuel
      rw [chars, textChars, stringChars] at hfuel ⊢
      simp only [List.cons_append, List.append_assoc, List.length_cons] at hfuel ⊢
      obtain ⟨f, rfl⟩ : ∃ f, fuel = f + 1 := ⟨fuel - 1, by omega⟩
      rw [readValue?, skipSpace_of_not_space (show isSpace '"' = false from rfl)]
      simp [readString?_stringChars]
  | array items hplain hitems => exact .array hplain hitems
  | record members _ hmembers => exact .record hmembers

/-- A plain value is read back from its text. -/
theorem parse?_write {j : Json} (h : IsPlain j) : parse? j.write = some j := by
  have hread := h.readsBack (2 * j.chars.length + 2) [] (by omega)
  rw [List.append_nil] at hread
  rw [parse?, write, String.toList_ofList, ofChars?, hread]
  rfl

end Bureau.Json
