import Bureau.Program.Records
import Mathlib.Data.Set.Function

/-!
Keys of records. Keys of rates and keys of locks are apart, and different locks have different keys.
Different pairs have different keys as long as their source codes have no colon.
-/

set_option autoImplicit false

namespace Bureau.Records

theorem lockKey_injective : Function.Injective lockKey := by
  intro a b h
  have htext : a.text = b.text := (String.append_right_inj "lock:").mp h
  cases a
  cases b
  cases htext
  rfl

theorem rateKey_ne_lockKey (pair : CurrencyPair) (id : LockId) : rateKey pair ≠ lockKey id := by
  intro h
  have hlist := congrArg String.toList h
  simp only [rateKey, lockKey, String.toList_append] at hlist
  exact absurd (List.cons.inj hlist).1 (by decide)

def IsColonFree (c : Currency) : Prop := ':' ∉ c.code.toList

private theorem split_at_colon {a c : List Char} (ha : ':' ∉ a) (hc : ':' ∉ c) {b d : List Char}
    (h : a ++ ':' :: b = c ++ ':' :: d) : a = c ∧ b = d := by
  induction a generalizing c with
  | nil =>
      cases c with
      | nil => exact ⟨rfl, (List.cons.inj h).2⟩
      | cons x c =>
          have hx := (List.cons.inj h).1
          exact absurd (hx ▸ List.mem_cons_self) hc
  | cons x a ih =>
      cases c with
      | nil =>
          have hx := (List.cons.inj h).1
          exact absurd (hx ▸ List.mem_cons_self) ha
      | cons y c =>
          obtain ⟨rfl, hrest⟩ := List.cons.inj h
          obtain ⟨rfl, hb⟩ := ih (fun hmem => ha (List.mem_cons_of_mem x hmem))
            (fun hmem => hc (List.mem_cons_of_mem x hmem)) hrest
          exact ⟨rfl, hb⟩

/-- The key of a pair shows where the source code ends if no colon stands in it. -/
theorem rateKey_injOn : Set.InjOn rateKey {pair | IsColonFree pair.source} := by
  rintro ⟨⟨a⟩, ⟨b⟩⟩ hfree ⟨⟨c⟩, ⟨d⟩⟩ hfree' h
  have hlist := congrArg String.toList h
  simp only [rateKey, String.toList_append, List.append_assoc] at hlist
  obtain ⟨hsource, htarget⟩ := split_at_colon hfree hfree' (List.append_cancel_left hlist)
  obtain rfl : a = c := String.toList_inj.mp hsource
  obtain rfl : b = d := String.toList_inj.mp htarget
  rfl

end Bureau.Records
