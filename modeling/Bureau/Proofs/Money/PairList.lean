import Bureau.Money.PairList
import Bureau.Proofs.Attempt
import Bureau.Proofs.Text.Trim
import Mathlib.Data.List.Forall2
import Mathlib.Data.String.Basic

/-!
The grammar of typed pairs and of lists of them. A grammar says which texts spell a pair without any
reader; the readers accept exactly these texts, and read what they spell.
-/

set_option autoImplicit false

namespace Bureau

/-! ### Reading item by item -/

section Items

variable {α β ε : Type} {read : α → Except ε β} {items : List α} {bs : List β} {e : ε}

private theorem forall₂_of_mapM_eq_ok (h : items.mapM read = .ok bs) :
    List.Forall₂ (fun item b => read item = .ok b) items bs := by
  induction items generalizing bs with
  | nil =>
      cases h
      exact .nil
  | cons item items ih =>
      rw [List.mapM_cons] at h
      obtain ⟨b, hb, h⟩ := Attempt.exists_of_bind_eq_ok h
      obtain ⟨rest, hrest, h⟩ := Attempt.exists_of_bind_eq_ok h
      cases h
      exact .cons hb (ih hrest)

private theorem mapM_append_of_forall₂ (h : List.Forall₂ (fun item b => read item = .ok b) items bs)
    (rest : List α) :
    (items ++ rest).mapM read = (rest.mapM read).map (bs ++ ·) := by
  induction h with
  | nil =>
      rw [List.nil_append]
      cases rest.mapM read <;> rfl
  | cons hb _ ih =>
      rw [List.cons_append, List.mapM_cons, hb, ih]
      cases rest.mapM read <;> rfl

private theorem mapM_eq_ok_iff :
    items.mapM read = .ok bs ↔ List.Forall₂ (fun item b => read item = .ok b) items bs := by
  refine ⟨forall₂_of_mapM_eq_ok, fun h => ?_⟩
  have hall := mapM_append_of_forall₂ h []
  rw [List.append_nil] at hall
  rw [hall]
  exact congrArg Except.ok (List.append_nil bs)

private theorem exists_of_mapM_eq_error (h : items.mapM read = .error e) :
    ∃ before item after, items = before ++ item :: after ∧
      (∀ x ∈ before, ∃ b, read x = .ok b) ∧ read item = .error e := by
  induction items with
  | nil => cases h
  | cons item items ih =>
      rw [List.mapM_cons] at h
      cases hitem : read item with
      | error e' =>
          rw [hitem] at h
          cases h
          exact ⟨[], item, items, rfl, nofun, hitem⟩
      | ok b =>
          rw [hitem, Attempt.ok_bind] at h
          cases hrest : items.mapM read with
          | ok rest =>
              rw [hrest] at h
              cases h
          | error e' =>
              rw [hrest] at h
              cases h
              obtain ⟨before, bad, after, rfl, hbefore, hbad⟩ := ih hrest
              exact ⟨item :: before, bad, after, rfl,
                List.forall_mem_cons.mpr ⟨⟨b, hitem⟩, hbefore⟩, hbad⟩

private theorem exists_forall₂_iff {R : α → β → Prop} :
    (∃ bs, List.Forall₂ R items bs) ↔ ∀ x ∈ items, ∃ b, R x b := by
  induction items with
  | nil => exact ⟨fun _ => nofun, fun _ => ⟨[], .nil⟩⟩
  | cons item items ih =>
      rw [List.forall_mem_cons, ← ih]
      constructor
      · rintro ⟨_ | ⟨b, bs⟩, h⟩
        · cases h
        · obtain ⟨hb, hbs⟩ := List.forall₂_cons.mp h
          exact ⟨⟨b, hb⟩, bs, hbs⟩
      · rintro ⟨⟨b, hb⟩, bs, hbs⟩
        exact ⟨b :: bs, .cons hb hbs⟩

private theorem mapM_eq_error_iff :
    items.mapM read = .error e ↔
      ∃ before item after, items = before ++ item :: after ∧
        (∀ x ∈ before, ∃ b, read x = .ok b) ∧ read item = .error e := by
  refine ⟨exists_of_mapM_eq_error, ?_⟩
  rintro ⟨before, item, after, rfl, hbefore, hitem⟩
  obtain ⟨bs, hbs⟩ := exists_forall₂_iff.mpr hbefore
  rw [mapM_append_of_forall₂ hbs, List.mapM_cons, hitem]
  rfl

end Items

/-! ### Codes -/

namespace Currency

open Text

variable {cs before after letters : List Char} {c : Currency}

/-- A text that spells a currency: three ASCII letters between white space, its code being these in
upper case. -/
def SpellsCode (cs : List Char) (c : Currency) : Prop :=
  ∃ letters, Pads letters cs ∧ letters.length = 3 ∧ (∀ l ∈ letters, l.isAlpha = true) ∧
    c = ⟨String.ofList (letters.map Char.toUpper)⟩

private theorem isAlpha_iff (c : Char) :
    c.isAlpha = true ↔ ('A' ≤ c ∧ c ≤ 'Z') ∨ ('a' ≤ c ∧ c ≤ 'z') := by
  change (c.isUpper || c.isLower) = true ↔ _
  rw [Bool.or_eq_true]
  refine or_congr decide_eq_true_iff ?_
  exact (Bool.and_eq_true _ _).to_iff.trans (and_congr decide_eq_true_iff decide_eq_true_iff)

private theorem isLetter_eq_isAlpha (c : Char) : isLetter c = c.isAlpha := by
  rw [Bool.eq_iff_iff, isAlpha_iff, isLetter]
  simp only [Bool.or_eq_true, Bool.and_eq_true, decide_eq_true_eq]
  exact Or.comm

private theorem toNat_lt_of_isAlpha {l : Char} (h : l.isAlpha = true) :
    64 < l.toNat ∧ l.toNat < 123 := by
  have hbounds : 65 ≤ l.toNat ∧ l.toNat ≤ 90 ∨ 97 ≤ l.toNat ∧ l.toNat ≤ 122 := (isAlpha_iff l).mp h
  omega

private theorem isBlank_of_isAlpha {l : Char} (h : l.isAlpha = true) : isBlank l = false := by
  have := toNat_lt_of_isAlpha h
  simp [isBlank]
  omega

private theorem utf8ByteSize_ofList_of_isAlpha (h : ∀ l ∈ letters, l.isAlpha = true) :
    (String.ofList letters).utf8ByteSize = letters.length := by
  rw [String.utf8ByteSize_ofList]
  induction letters with
  | nil => rfl
  | cons l letters ih =>
      have hsize : l.utf8Size = 1 := by
        have hrange := toNat_lt_of_isAlpha (h l List.mem_cons_self)
        have hle : l.val ≤ 127 := UInt32.le_iff_toNat_le.mpr (Nat.le_of_lt_succ
          (Nat.lt_trans hrange.2 (by decide)))
        exact if_pos hle
      rw [String.utf8Len_cons, hsize, ih fun x hx => h x (List.mem_cons_of_mem l hx)]
      rfl

private theorem ofCode_of_isAlpha (h : ∀ l ∈ letters, l.isAlpha = true) :
    ofCode (String.ofList letters) = ⟨String.ofList (letters.map Char.toUpper)⟩ := by
  have hupper : letters.flatMap upperChar = letters.map Char.toUpper := by
    rw [List.map_eq_flatMap]
    refine List.flatMap_congr fun l hl => ?_
    exact if_pos (Nat.lt_trans (toNat_lt_of_isAlpha (h l hl)).2 (by decide))
  rw [ofCode, upperCase, String.toList_ofList, hupper]

private theorem spellsCode_iff :
    SpellsCode cs c ↔ (trim cs).length = 3 ∧ (∀ l ∈ trim cs, l.isAlpha = true) ∧
      c = ⟨String.ofList ((trim cs).map Char.toUpper)⟩ := by
  constructor
  · rintro ⟨letters, hpads, hlength, halpha, rfl⟩
    rw [hpads.trim_eq (isTight_of_forall fun l hl => isBlank_of_isAlpha (halpha l hl))]
    exact ⟨hlength, halpha, rfl⟩
  · rintro ⟨hlength, halpha, rfl⟩
    exact ⟨trim cs, trim_pads cs, hlength, halpha, rfl⟩

private theorem SpellsCode.blank_or_alpha (h : SpellsCode cs c) :
    ∀ x ∈ cs, isBlank x = true ∨ x.isAlpha = true := by
  obtain ⟨letters, ⟨before, after, hbefore, hafter, rfl⟩, -, halpha, -⟩ := h
  intro x hx
  simp only [List.mem_append, or_assoc] at hx
  obtain hx | hx | hx := hx
  · exact .inl (hbefore x hx)
  · exact .inr (halpha x hx)
  · exact .inl (hafter x hx)

private theorem spellsCode_append_append (hbefore : Blanks before) (hafter : Blanks after) :
    SpellsCode (before ++ cs ++ after) c ↔ SpellsCode cs c := by
  rw [spellsCode_iff, spellsCode_iff, trim_append_append hbefore hafter]

private theorem parse_eq_ok_iff (text : String) : parse text = .ok c ↔ SpellsCode text.toList c := by
  rw [spellsCode_iff]
  generalize hinner : trim text.toList = inner
  have hall : inner.all isLetter = true ↔ ∀ l ∈ inner, l.isAlpha = true := by
    simp only [List.all_eq_true, isLetter_eq_isAlpha]
  have hparse : parse text =
      if (String.ofList inner).utf8ByteSize = 3 ∧ inner.all isLetter then
        .ok (ofCode (String.ofList inner)) else .error ⟨text⟩ := by
    rw [parse, hinner]
  by_cases halpha : ∀ l ∈ inner, l.isAlpha = true
  · rw [hparse, utf8ByteSize_ofList_of_isAlpha halpha, ofCode_of_isAlpha halpha]
    by_cases hlength : inner.length = 3
    · rw [if_pos ⟨hlength, hall.mpr halpha⟩]
      exact ⟨fun h => ⟨hlength, halpha, (Except.ok.inj h).symm⟩, fun h => congrArg _ h.2.2.symm⟩
    · rw [if_neg (fun h => hlength h.1)]
      exact ⟨nofun, fun h => absurd h.1 hlength⟩
  · rw [hparse, if_neg (fun h => halpha (hall.mp h.2))]
    exact ⟨nofun, fun h => absurd h.2.1 halpha⟩

/-- A code of three letters of ASCII, all in upper case. -/
def IsPlain (c : Currency) : Prop :=
  c.code.toList.length = 3 ∧ ∀ l ∈ c.code.toList, l.isUpper = true

private theorem toUpper_of_isUpper {l : Char} (h : l.isUpper = true) : l.toUpper = l := by
  have hbounds := of_decide_eq_true h
  refine dif_neg fun hlower => ?_
  exact absurd (UInt32.le_trans hlower.1 hbounds.2) (by decide)

private theorem IsPlain.spellsCode (h : c.IsPlain) : SpellsCode c.code.toList c := by
  have hupper : c.code.toList.map Char.toUpper = c.code.toList := by
    refine (List.map_congr_left fun l hl => ?_).trans (List.map_id _)
    exact toUpper_of_isUpper (h.2 l hl)
  refine ⟨c.code.toList, ⟨[], [], nofun, nofun, by simp⟩, h.1, fun l hl => ?_, ?_⟩
  · change (l.isUpper || l.isLower) = true
    rw [h.2 l hl, Bool.true_or]
  · rw [hupper, String.ofList_toList]

end Currency

namespace CurrencyPair

open Currency Text

variable {a b before after cs inner outer : List Char} {p : CurrencyPair}

/-! ### Pairs -/

/-- A text that spells a pair: texts that spell its source and its target, with a slash between them. -/
def SpellsPair (cs : List Char) (p : CurrencyPair) : Prop :=
  ∃ source target, cs = source ++ '/' :: target ∧
    SpellsCode source p.source ∧ SpellsCode target p.target

private theorem parseCode_eq_ok_iff {c : Currency} : parseCode cs = .ok c ↔ SpellsCode cs c := by
  have hparse := parse_eq_ok_iff (c := c) (String.ofList cs)
  rw [String.toList_ofList] at hparse
  rw [← hparse, parseCode]
  cases Currency.parse (String.ofList cs) with
  | error e => exact ⟨nofun, nofun⟩
  | ok c' => exact ⟨fun h => congrArg _ (Except.ok.inj h), fun h => congrArg _ (Except.ok.inj h)⟩

private theorem takeWhile_append_slash (h : '/' ∉ a) : (a ++ '/' :: b).takeWhile (· != '/') = a := by
  have hall : ∀ c ∈ a, (c != '/') = true := fun c hc => bne_iff_ne.mpr (ne_of_mem_of_not_mem hc h)
  rw [List.takeWhile_append_of_pos hall]
  exact List.append_nil a

private theorem dropWhile_append_slash (h : '/' ∉ a) :
    (a ++ '/' :: b).dropWhile (· != '/') = '/' :: b := by
  have hall : ∀ c ∈ a, (c != '/') = true := fun c hc => bne_iff_ne.mpr (ne_of_mem_of_not_mem hc h)
  rw [List.dropWhile_append_of_pos hall]
  rfl

/-- A pair is spelt around the first slash. -/
theorem spellsPair_iff (h : '/' ∉ a) :
    SpellsPair (a ++ '/' :: b) p ↔ SpellsCode a p.source ∧ SpellsCode b p.target := by
  refine ⟨?_, fun hcodes => ⟨a, b, rfl, hcodes⟩⟩
  rintro ⟨source, target, hsplit, hsource, htarget⟩
  have hfirst : '/' ∉ source := fun hmem => (hsource.blank_or_alpha '/' hmem).elim nofun nofun
  have htake := congrArg (List.takeWhile (· != '/')) hsplit
  have hdrop := congrArg (List.dropWhile (· != '/')) hsplit
  rw [takeWhile_append_slash h, takeWhile_append_slash hfirst] at htake
  rw [dropWhile_append_slash h, dropWhile_append_slash hfirst] at hdrop
  cases htake
  cases hdrop
  exact ⟨hsource, htarget⟩

private theorem SpellsPair.mem_slash (h : SpellsPair cs p) : '/' ∈ cs := by
  obtain ⟨source, target, rfl, -⟩ := h
  exact List.mem_append_right source List.mem_cons_self

private theorem not_mem_slash_of_blanks (h : Blanks cs) : '/' ∉ cs :=
  fun hmem => absurd (h '/' hmem) (by decide)

private theorem spellsPair_pads_iff (hpads : Pads inner outer) :
    SpellsPair outer p ↔ SpellsPair inner p := by
  obtain ⟨before, after, hbefore, hafter, rfl⟩ := hpads
  have hbeforeSlash := not_mem_slash_of_blanks hbefore
  by_cases hslash : '/' ∈ inner
  · obtain ⟨a, b, rfl, ha⟩ := List.eq_append_cons_of_mem hslash
    have hsplit : before ++ (a ++ '/' :: b) ++ after = before ++ a ++ '/' :: (b ++ after) := by
      simp only [List.append_assoc, List.cons_append]
    have hfirst : '/' ∉ before ++ a := by
      rw [List.mem_append]
      exact not_or.mpr ⟨hbeforeSlash, ha⟩
    have hsource : SpellsCode (before ++ a ++ []) p.source ↔ SpellsCode a p.source :=
      spellsCode_append_append hbefore nofun
    have htarget : SpellsCode ([] ++ b ++ after) p.target ↔ SpellsCode b p.target :=
      spellsCode_append_append nofun hafter
    rw [List.append_nil] at hsource
    rw [hsplit, spellsPair_iff hfirst, spellsPair_iff ha, hsource, ← htarget, List.nil_append]
  · have houter : '/' ∉ before ++ inner ++ after := by
      simp only [List.mem_append, not_or]
      exact ⟨⟨hbeforeSlash, hslash⟩, not_mem_slash_of_blanks hafter⟩
    exact ⟨fun h => absurd h.mem_slash houter, fun h => absurd h.mem_slash hslash⟩

private theorem parseChars_of_slash (ha : '/' ∉ a) (hinner : trim cs = a ++ '/' :: b) :
    parseChars cs = parseCode a >>= fun source => parseCode b >>= fun target =>
      .ok ⟨source, target⟩ := by
  rw [parseChars, hinner, takeWhile_append_slash ha, dropWhile_append_slash ha]
  rfl

private theorem parseChars_of_not_mem (h : '/' ∉ trim cs) :
    parseChars cs = .error (.noSlash (String.ofList cs)) := by
  have hrest : (trim cs).dropWhile (· != '/') = [] :=
    List.dropWhile_eq_nil_iff.mpr fun c hc => bne_iff_ne.mpr (ne_of_mem_of_not_mem hc h)
  rw [parseChars, hrest]
  rfl

/-- A pair is read exactly from the texts that spell it. -/
theorem parseChars_eq_ok_iff : parseChars cs = .ok p ↔ SpellsPair cs p := by
  rw [spellsPair_pads_iff (trim_pads cs)]
  by_cases hslash : '/' ∈ trim cs
  · obtain ⟨a, b, hinner, ha⟩ := List.eq_append_cons_of_mem hslash
    rw [parseChars_of_slash ha hinner, hinner, spellsPair_iff ha]
    constructor
    · intro h
      obtain ⟨source, hsource, h⟩ := Attempt.exists_of_bind_eq_ok h
      obtain ⟨target, htarget, h⟩ := Attempt.exists_of_bind_eq_ok h
      cases h
      exact ⟨parseCode_eq_ok_iff.mp hsource, parseCode_eq_ok_iff.mp htarget⟩
    · rintro ⟨hsource, htarget⟩
      rw [parseCode_eq_ok_iff.mpr hsource, parseCode_eq_ok_iff.mpr htarget]
      rfl
  · rw [parseChars_of_not_mem hslash]
    exact ⟨nofun, fun h => absurd h.mem_slash hslash⟩

/-! ### Lists -/

private theorem items_eq_splitOn (separator : Char) (cs : List Char) :
    items separator cs = cs.splitOn separator := by
  induction cs with
  | nil => rfl
  | cons c cs ih =>
      rw [items, List.splitOn, List.splitOnP_cons_eq_if_modifyHead, ih]
      by_cases hc : c = separator
      · rw [if_pos hc, if_pos (beq_iff_eq.mpr hc)]
        rfl
      · rw [if_neg hc, if_neg (fun h => hc (beq_iff_eq.mp h))]
        change _ = (cs.splitOn separator).modifyHead _
        cases hrest : cs.splitOn separator with
        | nil => exact absurd hrest (List.splitOnP_ne_nil _ _)
        | cons item rest => rfl

def segments (cs : List Char) : List (List Char) :=
  (cs.splitOn ',').filter fun segment => !segment.all isBlank

private theorem parseList_eq_mapM (text : String) :
    parseList text = (segments text.toList).mapM parseChars := by
  rw [parseList, items_eq_splitOn, segments]
  congr 1
  refine List.filter_congr fun segment _ => congrArg _ (Bool.eq_iff_iff.mpr ?_)
  rw [List.isEmpty_iff, trim_eq_nil_iff, List.all_eq_true]
  rfl

theorem parseList_eq_ok_iff {text : String} {ps : List CurrencyPair} :
    parseList text = .ok ps ↔ List.Forall₂ SpellsPair (segments text.toList) ps := by
  simp only [parseList_eq_mapM, mapM_eq_ok_iff, parseChars_eq_ok_iff]

private theorem IsPlain.spellsPair (hsource : p.source.IsPlain) (htarget : p.target.IsPlain) :
    SpellsPair p.text.toList p := by
  refine ⟨p.source.code.toList, p.target.code.toList, ?_, hsource.spellsCode, htarget.spellsCode⟩
  rw [text, String.toList_append, String.toList_append, List.append_assoc]
  rfl

private theorem SpellsPair.not_mem_comma (h : SpellsPair cs p) : ',' ∉ cs := by
  obtain ⟨source, target, rfl, hsource, htarget⟩ := h
  have hcomma : ¬ (isBlank ',' = true ∨ Char.isAlpha ',' = true) := by decide
  rw [List.mem_append, List.mem_cons]
  rintro (h | h | h)
  · exact hcomma (hsource.blank_or_alpha ',' h)
  · cases h
  · exact hcomma (htarget.blank_or_alpha ',' h)

private theorem SpellsPair.not_blanks (h : SpellsPair cs p) : cs.all isBlank = false :=
  Bool.eq_false_iff.mpr fun hblank =>
    not_mem_slash_of_blanks (List.all_eq_true.mp hblank) h.mem_slash

private theorem segments_intercalate {texts : List (List Char)} {ps : List CurrencyPair}
    (h : List.Forall₂ SpellsPair texts ps) : segments ([','].intercalate texts) = texts := by
  have heach : ∀ cs ∈ texts, ∃ p, SpellsPair cs p := exists_forall₂_iff.mp ⟨ps, h⟩
  cases texts with
  | nil => rfl
  | cons first rest =>
      rw [segments, List.splitOn_intercalate ',' _ (List.cons_ne_nil first rest)]
      · refine List.filter_eq_self.mpr fun cs hcs => ?_
        obtain ⟨p, hp⟩ := heach cs hcs
        rw [hp.not_blanks]
        rfl
      · intro cs hcs
        obtain ⟨p, hp⟩ := heach cs hcs
        exact hp.not_mem_comma

/-- A pair is read exactly from the texts of its grammar, and a list exactly if every item that is more
than white space is such a text; the pairs come in order, and the error is that of the first item that
is none. So the texts of pairs of plain codes, with commas between them and white space around them,
are read as these pairs. -/
theorem parse_by_grammar :
    (∀ text p, parse text = .ok p ↔ SpellsPair text.toList p) ∧
    (∀ text ps, parseList text = .ok ps ↔
      List.Forall₂ SpellsPair (segments text.toList) ps) ∧
    (∀ text e, parseList text = .error e ↔
      ∃ before segment after, segments text.toList = before ++ segment :: after ∧
        (∀ cs ∈ before, ∃ p, SpellsPair cs p) ∧ parse (String.ofList segment) = .error e) ∧
    ∀ ps texts, (∀ p ∈ ps, p.source.IsPlain ∧ p.target.IsPlain) →
      List.Forall₂ (fun p cs => Pads p.text.toList cs) ps texts →
      parseList (String.ofList ([','].intercalate texts)) = .ok ps := by
  refine ⟨fun text p => parseChars_eq_ok_iff, fun text ps => parseList_eq_ok_iff, fun text e => ?_,
    fun ps texts hplain hpads => ?_⟩
  · simp only [parseList_eq_mapM, mapM_eq_error_iff, parseChars_eq_ok_iff, parse,
      String.toList_ofList]
  · have hspells : List.Forall₂ SpellsPair texts ps := by
      induction hpads with
      | nil => exact .nil
      | cons hpad _ ih =>
          obtain ⟨⟨hsource, htarget⟩, hrest⟩ := List.forall_mem_cons.mp hplain
          exact .cons ((spellsPair_pads_iff hpad).mpr (IsPlain.spellsPair hsource htarget)) (ih hrest)
    rw [parseList_eq_ok_iff, String.toList_ofList, segments_intercalate hspells]
    exact hspells

/-- Two pairs with white space before the comma and a line break after the last. -/
theorem parse_by_grammar_two :
    let singapore : CurrencyPair := ⟨⟨"SGD"⟩, ⟨"PHP"⟩⟩
    let dollar : CurrencyPair := ⟨⟨"USD"⟩, ⟨"SGD"⟩⟩
    parse "sgd /\u00a0Php" = .ok singapore ∧
      parseList "SGD/PHP ,USD/SGD\n" = .ok [singapore, dollar] := by
  intro singapore dollar
  obtain ⟨hparse, -, -, hround⟩ := parse_by_grammar
  refine ⟨(hparse _ _).mpr ⟨['s', 'g', 'd', ' '], ['\u00a0', 'P', 'h', 'p'], rfl, ?_, ?_⟩, ?_⟩
  · exact ⟨['s', 'g', 'd'], ⟨[], [' '], nofun, blanks_of_all rfl, rfl⟩, rfl,
      List.all_eq_true.mp rfl, rfl⟩
  · exact ⟨['P', 'h', 'p'], ⟨['\u00a0'], [], blanks_of_all rfl, nofun, rfl⟩, rfl,
      List.all_eq_true.mp rfl, rfl⟩
  · have htext : "SGD/PHP ,USD/SGD\n" = String.ofList ([','].intercalate
        [singapore.text.toList ++ [' '], dollar.text.toList ++ ['\n']]) := by decide
    have hsgd : singapore.source.IsPlain := ⟨by decide, List.all_eq_true.mp (by decide)⟩
    have hphp : singapore.target.IsPlain := ⟨by decide, List.all_eq_true.mp (by decide)⟩
    have husd : dollar.source.IsPlain := ⟨by decide, List.all_eq_true.mp (by decide)⟩
    rw [htext]
    refine hround [singapore, dollar] _ ?_ (.cons ?_ (.cons ?_ .nil))
    · exact List.forall_mem_cons.mpr ⟨⟨hsgd, hphp⟩, List.forall_mem_singleton.mpr ⟨husd, hsgd⟩⟩
    · exact ⟨[], [' '], nofun, blanks_of_all rfl, rfl⟩
    · exact ⟨[], ['\n'], nofun, blanks_of_all rfl, rfl⟩

end CurrencyPair

end Bureau
