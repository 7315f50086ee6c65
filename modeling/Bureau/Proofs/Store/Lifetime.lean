import Bureau.Proofs.Store.Interludes
import Bureau.Proofs.Time.Instant

/-!
How long entries last. A store outlasts a moment when all of its entries expire after it, whether they
have been reclaimed or not. A purge brings a store to outlast its own time, and no call at that time or
later puts an entry into the store that does not.
-/

set_option autoImplicit false

namespace Bureau

private theorem Instant.lt_of_add? {now expiry : Instant} {ttl : Duration}
    (hexpiry : now.add? ttl = some expiry) (httl : ¬ ttl ≤ Duration.zero) :
    now.nanos < expiry.nanos := by
  have hpos : 0 < ttl.nanos := Int.not_le.mp httl
  rw [add?_eq_some_iff.mp hexpiry]
  exact Int.lt_add_of_pos_right _ hpos

namespace Store

variable {s : Store} {moment : Int} {now : Instant}

/-- All entries of a store expire after a moment, in nanoseconds from 1970. -/
def Outlasts (s : Store) (moment : Int) : Prop :=
  ∀ (key : String) (e : Entry), s.entries[key]? = some e → moment < e.expiresAt.nanos

theorem Outlasts.mono {earlier : Int} (h : s.Outlasts moment) (hle : earlier ≤ moment) :
    s.Outlasts earlier := fun key e he => Int.lt_of_le_of_lt hle (h key e he)

theorem outlasts_purge (s : Store) (now : Instant) : (s.purge now).Outlasts now.nanos := by
  intro key e he
  rw [getElem?_purge] at he
  exact Entry.isLive_iff.mp (Option.filter_eq_some_iff.mp he).2

theorem Outlasts.purge (h : s.Outlasts moment) (now : Instant) : (s.purge now).Outlasts moment := by
  intro key e he
  rw [getElem?_purge] at he
  exact h key e (Option.filter_eq_some_iff.mp he).1

theorem Outlasts.erase (h : s.Outlasts moment) (key : String) : (s.erase key).Outlasts moment := by
  intro other e he
  rw [Store.erase, Std.HashMap.getElem?_erase] at he
  split at he
  · cases he
  · exact h other e he

theorem Outlasts.insert (h : s.Outlasts moment) (key : String) {e : Entry}
    (he : moment < e.expiresAt.nanos) : (s.insert key e).Outlasts moment := by
  intro other e' he'
  rw [Store.insert, Std.HashMap.getElem?_insert] at he'
  split at he'
  · cases he'
    exact he
  · exact h other e' he'

theorem Outlasts.makeRoom (h : s.Outlasts moment) (key : String) (now : Instant) :
    (s.makeRoom key now).Outlasts moment := by
  unfold Store.makeRoom
  split
  · exact h.purge now
  · exact h

private theorem Outlasts.rewrite (h : s.Outlasts moment) {key : String} {e : Entry}
    (hlive : s.live? key now = some e) (value : String) :
    (s.insert key { e with value }).Outlasts moment :=
  h.insert key (h key e (Option.filter_eq_some_iff.mp hlive).1)

theorem Outlasts.answer (h : s.Outlasts moment) (hle : moment ≤ now.nanos) (c : StoreCall) :
    ((Store.answer (.ok now) c).runOn s).2.Outlasts moment := by
  have hnew : ∀ {ttl : Duration} {expiry : Instant}, now.add? ttl = some expiry →
      ¬ ttl ≤ Duration.zero → moment < expiry.nanos := fun hexpiry httl =>
    Int.lt_of_le_of_lt hle (Instant.lt_of_add? hexpiry httl)
  cases c with
  | get key =>
    cases hlive : s.live? key now with
    | some e => rwa [runOn_answer_get_of_live hlive]
    | none =>
      obtain ⟨t, hget, rfl | rfl⟩ := runOn_answer_get_of_gone hlive
      · rwa [hget]
      · rw [hget]
        exact h.erase key
  | set key value ttl =>
    by_cases httl : ttl ≤ Duration.zero
    · simp only [Store.answer, if_pos httl]
      exact h.erase key
    · simp only [Store.answer, if_neg httl]
      change ((Store.put key value ttl now).runOn s).2.Outlasts moment
      have hroom := h.makeRoom key now
      rw [runOn_put]
      split
      · cases hexpiry : now.add? ttl with
        | none => exact hroom
        | some expiry => exact hroom.insert key (hnew hexpiry httl)
      · exact hroom
  | delete key => exact h.erase key
  | replace key value ttl =>
    rw [runOn_answer_replace]
    cases hlive : s.live? key now with
    | none => exact h
    | some e =>
      have hrewritten := h.rewrite hlive value
      simp only []
      split
      · exact h.erase key
      · next httl =>
        cases hexpiry : now.add? ttl with
        | none => exact hrewritten
        | some expiry => exact hrewritten.insert key (hnew hexpiry httl)
  | ping => exact h

private theorem runOn_answer_error (crash : Crash) (c : StoreCall) (s : Store) :
    ((Store.answer (.error crash) c).runOn s).2 = s ∨
      ∃ key, ((Store.answer (.error crash) c).runOn s).2 = s.erase key := by
  cases c with
  | set key value ttl =>
    by_cases httl : ttl ≤ Duration.zero
    · simp only [Store.answer, if_pos httl]
      exact .inr ⟨key, rfl⟩
    · simp only [Store.answer, if_neg httl]
      exact .inl rfl
  | delete key => exact .inr ⟨key, rfl⟩
  | get | replace | ping => exact .inl rfl

theorem Outlasts.answer_of_clock (h : s.Outlasts moment) {clock : Except Crash Instant}
    (hle : ∀ now, clock = .ok now → moment ≤ now.nanos) (c : StoreCall) :
    ((Store.answer clock c).runOn s).2.Outlasts moment := by
  cases clock with
  | ok now => exact h.answer (hle now rfl) c
  | error crash =>
    obtain hsame | ⟨key, herased⟩ := runOn_answer_error crash c s
    · rwa [hsame]
    · rw [herased]
      exact h.erase key

end Store

end Bureau
