import Bureau.Proofs.Corridor.Registry
import Bureau.Proofs.Desk.Standard
import Bureau.Proofs.Document.Kinds
import Mathlib.Data.List.Forall2

/-!
Which corridors of a document can be reached. A code of a document is taken as it is written, a code of
a request is put in upper case; so a corridor is reached by the codes of its document exactly if these
are in upper case already.
-/

set_option autoImplicit false

namespace Bureau

open Attempt

/-! ### Codes of documents -/

def Text.IsUpper (s : String) : Prop := upperCase s = s

private theorem Currency.ofCode_eq_iff {code : String} {c : Currency} (hcode : c.code = code) :
    ofCode code = c ↔ Text.IsUpper code := by
  subst hcode
  exact ⟨congrArg Currency.code, congrArg Currency.mk⟩

private theorem CurrencyPair.ofCodes_eq_iff {a b : String} {p : CurrencyPair}
    (hsource : p.source.code = a) (htarget : p.target.code = b) :
    ofCodes a b = p ↔ Text.IsUpper a ∧ Text.IsUpper b := by
  rw [← Currency.ofCode_eq_iff hsource, ← Currency.ofCode_eq_iff htarget]
  exact CurrencyPair.mk.injEq .. ▸ Iff.rfl

namespace Corridor

/-- The codes of the two currencies as they are written in the document of a corridor. -/
def writtenCodes? (j : Json) : Option (String × String) := do
  let source :: target :: _ ← Document.fields? fieldNames j | none
  return (← source.required?, ← target.required?)

private theorem required?_code (f : Document.Field) :
    (f.required? : Option Currency) = (f.required? : Option String).map Currency.mk := by
  cases f <;> rfl

private theorem writtenCodes?_of_decode? {j : Json} {c : Corridor} (h : Document.decode? j = some c) :
    writtenCodes? j = some (c.sourceCurrency.code, c.targetCurrency.code) := by
  obtain ⟨fields, hfields, h⟩ := Option.bind_eq_some_iff.mp h
  split at h
  case _ source target enabled fee minimum margin methods =>
    obtain ⟨sourceCurrency, hsource, h⟩ := Option.bind_eq_some_iff.mp h
    obtain ⟨targetCurrency, htarget, h⟩ := Option.bind_eq_some_iff.mp h
    obtain ⟨_, -, h⟩ := Option.bind_eq_some_iff.mp h
    obtain ⟨_, -, h⟩ := Option.bind_eq_some_iff.mp h
    obtain ⟨_, -, h⟩ := Option.bind_eq_some_iff.mp h
    obtain ⟨_, -, h⟩ := Option.bind_eq_some_iff.mp h
    obtain ⟨_, -, h⟩ := Option.bind_eq_some_iff.mp h
    cases h
    rw [required?_code] at hsource htarget
    obtain ⟨a, ha, rfl⟩ := Option.map_eq_some_iff.mp hsource
    obtain ⟨b, hb, rfl⟩ := Option.map_eq_some_iff.mp htarget
    change (Document.fields? fieldNames j).bind _ = _
    rw [hfields, Option.bind_some]
    change (source.required? : Option String).bind _ = _
    rw [ha, Option.bind_some, hb]
    rfl
  case _ => cases h

end Corridor

/-! ### Tables of documents -/

private theorem Document.forall₂_of_mapM {α β : Type} {read : α → Option β} {items : List α}
    {bs : List β} (h : items.mapM read = some bs) :
    List.Forall₂ (fun item b => read item = some b) items bs := by
  induction items generalizing bs with
  | nil =>
      cases h
      exact .nil
  | cons item rest ih =>
      rw [List.mapM_cons] at h
      obtain ⟨b, hb, h⟩ := Option.bind_eq_some_iff.mp h
      obtain ⟨others, hothers, h⟩ := Option.bind_eq_some_iff.mp h
      cases h
      exact .cons hb (ih hothers)

namespace Registry

variable {r : Registry} {text : String}

private theorem exists_items_of_ofText (h : ofText text = .ok r) :
    ∃ items, Json.parse? text = some (.array items) ∧ r.IsIndexed ∧
      List.Forall₂ (fun item c => Corridor.writtenCodes? item =
        some (c.sourceCurrency.code, c.targetCurrency.code)) items r.corridors := by
  unfold ofText at h
  split at h
  case _ corridors hread =>
    obtain ⟨j, hparse, hdecode⟩ := Option.bind_eq_some_iff.mp hread
    obtain ⟨items, rfl⟩ : ∃ items, j = .array items := by
      cases j with
      | array items => exact ⟨items, rfl⟩
      | _ => cases hdecode
    refine ⟨items, hparse, isIndexed_ofList h, ?_⟩
    rw [corridors_ofList h]
    have hitems : items.mapM (Document.decode? (α := Corridor)) = some corridors := hdecode
    exact (Document.forall₂_of_mapM hitems).imp fun item c hc => Corridor.writtenCodes?_of_decode? hc
  case _ => cases h

end Registry

namespace Desk

/-- A quote fails for want of a corridor exactly if the amount is positive and the pair has none. -/
theorem run_quote_eq_notFound_iff (d : Desk) (pair : CurrencyPair) (amount : Decimal) :
    (d.quote pair amount).run = .done (.error (.corridorNotFound pair)) ↔
      Decimal.zero < amount ∧ d.registry.find? pair = none := by
  have hpositive : Decimal.zero < amount ↔ ¬ amount ≤ Decimal.zero := Int.not_le.symm
  rw [quote, ExceptT.run_bind, hpositive]
  cases hcorridor : d.corridorFor pair amount with
  | error e =>
      change (Program.done (Except.error e) : Program (Except FxError Quote)) = _ ↔ _
      unfold corridorFor at hcorridor
      split_ifs at hcorridor with hamount
      · cases hcorridor
        simp [hamount]
      · cases hfind : d.registry.find? pair with
        | none =>
            rw [hfind] at hcorridor
            cases hcorridor
            simp [hamount]
        | some corridor =>
            rw [hfind] at hcorridor
            simp only at hcorridor
            split_ifs at hcorridor
            cases hcorridor
            simp
  | ok corridor =>
      -- a quote over a corridor asks for the rate first, so it does not end at once
      have hfind : d.registry.find? pair ≠ none := by
        intro hnone
        unfold corridorFor at hcorridor
        rw [hnone] at hcorridor
        split_ifs at hcorridor
      simp only [hfind, and_false, iff_false]
      intro h
      cases h

/-- What requests by two codes in any case make of a corridor with these codes: it is found by the pair,
and listed by the source, exactly if the codes are in upper case; a quote for a positive amount finds no
corridor exactly if none has the pair. -/
structure Reaches (d : Desk) (a b : String) (c : Corridor) : Prop where
  find?_iff : d.registry.find? (.ofCodes a b) = some c ↔ Text.IsUpper a ∧ Text.IsUpper b
  mem_corridors_iff : c ∈ d.corridors (some (.ofCode a)) ↔ Text.IsUpper a
  notFound_iff : ∀ amount,
    (d.quote (.ofCodes a b) amount).run = .done (.error (.corridorNotFound (.ofCodes a b))) ↔
      Decimal.zero < amount ∧ ∀ other ∈ d.registry.corridors, other.pair ≠ .ofCodes a b

private theorem reaches_of_mem {d : Desk} (hindexed : d.registry.IsIndexed) {c : Corridor}
    (hc : c ∈ d.registry.corridors) :
    d.Reaches c.sourceCurrency.code c.targetCurrency.code c where
  find?_iff := (hindexed.find?_eq_some_iff hc).trans (CurrencyPair.ofCodes_eq_iff rfl rfl)
  mem_corridors_iff := (Registry.mem_list_iff hc).trans (Currency.ofCode_eq_iff rfl)
  notFound_iff amount := by rw [run_quote_eq_notFound_iff, hindexed.find?_eq_none_iff]

/-- A corridor of a document is reached by the codes that are written there exactly if these are in
upper case: the document has them as they are written, a request in upper case. Each item of the
document becomes a corridor of the table, whose codes are those of the item; requests by these codes
find the corridor if both are in upper case, and list it if the first is. A quote by them fails for
want of a corridor exactly if no corridor of the table has the pair in upper case. -/
theorem corridors_reached_iff {text : String} {r : Registry} (h : Registry.ofText text = .ok r)
    (policy : Policy) :
    ∃ items, Json.parse? text = some (.array items) ∧
      List.Forall₂ (fun item c => ∃ a b, Corridor.writtenCodes? item = some (a, b) ∧
        Reaches ⟨r, policy⟩ a b c) items r.corridors := by
  obtain ⟨items, hparse, hindexed, hitems⟩ := Registry.exists_items_of_ofText h
  rw [List.forall₂_iff_zip] at hitems
  refine ⟨items, hparse, List.forall₂_iff_zip.mpr ⟨hitems.1, fun {item c} hpair => ?_⟩⟩
  have hc : c ∈ r.corridors := (List.of_mem_zip hpair).2
  exact ⟨_, _, hitems.2 hpair, reaches_of_mem (d := ⟨r, policy⟩) hindexed hc⟩

/-- A corridor of euros for dollars, in upper case, is reached by its codes. -/
theorem corridors_reached_iff_euro :
    let c : Corridor := .euroDollar .one
    ∃ r, Registry.ofText (Document.write [c]) = .ok r ∧
      Reaches ⟨r, Policy.standard⟩ "EUR" "USD" c ∧ r.find? (.ofCodes "EUR" "USD") = some c := by
  intro c
  have hkeeps := Document.keeps_list Document.keeps_corridor [c]
  have htable : Registry.ofText (Document.write [c]) = .ok ⟨[c], [(c.pair, 0)]⟩ := by
    rw [Registry.ofText, hkeeps.read?_write]
    rfl
  obtain ⟨items, hparse, hitems⟩ := corridors_reached_iff htable Policy.standard
  have hparse' : Json.parse? (Document.write [c]) = some (.array [Document.encode c]) :=
    Json.parse?_write hkeeps.isPlain
  cases hparse.symm.trans hparse'
  cases hitems with
  | cons hitem _ =>
      obtain ⟨a, b, hwritten, hreaches⟩ := hitem
      have hcodes : Corridor.writtenCodes? (Document.encode c) = some ("EUR", "USD") :=
        Corridor.writtenCodes?_of_decode? (Document.keeps_corridor c).decode_eq
      cases hwritten.symm.trans hcodes
      have hupper : Text.IsUpper "EUR" ∧ Text.IsUpper "USD" := by
        unfold Text.IsUpper
        decide +kernel
      exact ⟨_, htable, hreaches, hreaches.find?_iff.mpr hupper⟩

/-- A corridor that is written in lower case is in the table, but is not found by its codes. -/
theorem unreached_lower_case :
    let c : Corridor := { Corridor.euroDollar .one with
      sourceCurrency := ⟨"eur"⟩, targetCurrency := ⟨"usd"⟩, feeMinimum := ⟨.one, ⟨"eur"⟩⟩ }
    ∃ r, Registry.ofText (Document.write [c]) = .ok r ∧ c ∈ r.corridors ∧
      r.find? (.ofCodes "eur" "usd") = none ∧ r.list (some (.ofCode "eur")) = [] ∧
      (Desk.quote ⟨r, Policy.standard⟩ (.ofCodes "eur" "usd") .one).run =
        .done (.error (.corridorNotFound (.ofCodes "eur" "usd"))) := by
  intro c
  have hread : Document.read? (Document.write [c]) = some [c] :=
    (Document.keeps_list Document.keeps_corridor [c]).read?_write
  have htable : Registry.ofText (Document.write [c]) = .ok ⟨[c], [(c.pair, 0)]⟩ := by
    rw [Registry.ofText, hread]
    rfl
  refine ⟨_, htable, List.mem_cons_self, by decide +kernel, by decide +kernel, ?_⟩
  rw [run_quote_eq_notFound_iff]
  decide +kernel

end Desk

end Bureau
