import Bureau.Proofs.Attempt
import Bureau.Proofs.Time.Instant
import Bureau.Store.Call
import Mathlib.Data.Set.Card
import Mathlib.Tactic.SplitIfs

/-!
The plain map behind a store. It holds a text and an expiry under each key, reclaims nothing and
never runs full by what has lapsed. A store whose entries fit its capacity answers every call as its
plain map does, whatever it has reclaimed meanwhile, and keeps the two in step.
-/

set_option autoImplicit false

namespace Bureau

namespace Entry

@[simp] theorem isLive_iff {e : Entry} {t : Instant} : e.isLive t = true ↔ t < e.expiresAt := by
  simp [isLive]

theorem isLive_of_le {e : Entry} {s t : Instant} (hst : s ≤ t) (ht : e.isLive t = true) :
    e.isLive s = true := by
  rw [isLive_iff] at ht ⊢
  exact Instant.lt_of_le_of_lt hst ht

end Entry

/-- A text and an expiry under each of some keys. -/
def TimedMap : Type := String → Option Entry

namespace TimedMap

def empty : TimedMap := fun _ => none

def live? (m : TimedMap) (key : String) (t : Instant) : Option Entry := (m key).filter (·.isLive t)

noncomputable def count (m : TimedMap) (t : Instant) : Nat :=
  {key : String | (m.live? key t).isSome}.ncard

def assign (m : TimedMap) (key : String) (e : Option Entry) : TimedMap :=
  fun other => if other = key then e else m other

theorem assign_self (m : TimedMap) (key : String) (e : Option Entry) : m.assign key e key = e :=
  if_pos rfl

private theorem live?_assign (m : TimedMap) (key : String) (e : Option Entry) (other : String)
    (t : Instant) :
    (m.assign key e).live? other t =
      if other = key then e.filter (·.isLive t) else m.live? other t := by
  unfold live? assign
  split_ifs <;> rfl

theorem assign_assign (m : TimedMap) (key : String) (d e : Option Entry) :
    (m.assign key d).assign key e = m.assign key e := by
  funext other
  unfold assign
  split_ifs <;> rfl

theorem count_empty (t : Instant) : empty.count t = 0 := by
  have hnone : {key : String | (empty.live? key t).isSome} = ∅ :=
    Set.eq_empty_of_forall_notMem fun key hkey => by cases hkey
  rw [count, hnone, Set.ncard_empty]

theorem count_assign_empty_le (key : String) (e : Option Entry) (t : Instant) :
    (empty.assign key e).count t ≤ 1 := by
  have hone : {other : String | ((empty.assign key e).live? other t).isSome} ⊆ {key} := by
    intro other hother
    by_contra hne
    have hnone : (empty.assign key e).live? other t = none := by
      rw [live?_assign, if_neg (Set.mem_singleton_iff.not.mp hne)]
      rfl
    exact absurd hother (by simp [hnone])
  calc (empty.assign key e).count t ≤ ({key} : Set String).ncard :=
        Set.ncard_le_ncard hone (Set.finite_singleton key)
    _ = 1 := Set.ncard_singleton key

open Classical in
noncomputable def answer (capacity : Nat) (now : Instant) (m : TimedMap) :
    (c : StoreCall) → Except Crash c.Reply × TimedMap
  | .get key => (.ok (.ok ((m.live? key now).map (·.value))), m)
  | .set key value ttl =>
      if ttl ≤ Duration.zero then (.ok (.ok ()), m.assign key none)
      else if m.live? key now = none ∧ capacity ≤ m.count now then
        (.ok (.error (.unavailable s!"capacity of {capacity} entries reached")), m)
      else
        match now.add? ttl with
        | some expiry => (.ok (.ok ()), m.assign key (some ⟨value, expiry⟩))
        | none => (.error .calendar, m)
  | .delete key => (.ok (.ok ()), m.assign key none)
  | .replace key value ttl =>
      match m.live? key now with
      | none => (.ok (.ok false), m)
      | some e =>
          if ttl ≤ Duration.zero then (.ok (.ok true), m.assign key none)
          else
            match now.add? ttl with
            | some expiry => (.ok (.ok true), m.assign key (some ⟨value, expiry⟩))
            | none => (.error .calendar, m.assign key (some { e with value }))
  | .ping => (.ok (.ok ()), m)

end TimedMap

namespace Store

def live? (s : Store) (key : String) (t : Instant) : Option Entry :=
  s.entries[key]?.filter (·.isLive t)

/-- A store in step with its plain map: from now on both show the same, and the entries are within
the capacity. -/
structure Tracks (s : Store) (capacity : Nat) (m : TimedMap) (now : Instant) : Prop where
  capacity_eq : s.capacity = capacity
  size_le : s.size ≤ capacity
  live_eq : ∀ t, now ≤ t → ∀ key, s.live? key t = m.live? key t

variable {s : Store} {capacity : Nat} {m : TimedMap} {now : Instant} {key : String}

theorem tracks_empty (capacity : Nat) (now : Instant) :
    (empty capacity).Tracks capacity .empty now where
  capacity_eq := rfl
  size_le := by simp [size, empty]
  live_eq t _ key := by simp [live?, empty, TimedMap.live?, TimedMap.empty]

theorem Tracks.mono {later : Instant} (h : s.Tracks capacity m now) (hle : now ≤ later) :
    s.Tracks capacity m later :=
  ⟨h.capacity_eq, h.size_le, fun t ht => h.live_eq t (Instant.le_trans hle ht)⟩

private theorem Tracks.live?_now (h : s.Tracks capacity m now) (key : String) :
    s.live? key now = m.live? key now :=
  h.live_eq now (Instant.le_refl now) key

theorem Tracks.find?_eq (h : s.Tracks capacity m now) (key : String) :
    s.find? key now = (m.live? key now).map (·.value) := by
  rw [← h.live?_now key]
  rfl

/-! ### Reclaiming -/

theorem getElem?_purge (s : Store) (t : Instant) (key : String) :
    (s.purge t).entries[key]? = s.live? key t := by
  simp [purge, live?]

theorem live?_purge {later : Instant} (h : now ≤ later) (key : String) :
    (s.purge now).live? key later = s.live? key later := by
  unfold live?
  rw [getElem?_purge, live?, Option.filter_filter]
  congr 1
  funext e
  have he := @Entry.isLive_of_le e now later h
  cases hl : e.isLive later <;> simp_all

theorem size_purge_le (s : Store) (t : Instant) : (s.purge t).size ≤ s.size :=
  Std.HashMap.size_filter_le_size

private theorem size_purge_lt {e : Entry} {t : Instant} (hkey : s.entries[key]? = some e)
    (hlapsed : e.isLive t = false) : (s.purge t).size < s.size := by
  refine Nat.lt_of_le_of_ne (size_purge_le s t) ?_
  intro heq
  have hall := Std.HashMap.size_filter_eq_size_iff.mp heq
  have hmem : key ∈ s.entries := by
    rw [Std.HashMap.mem_iff_isSome_getElem?, hkey]
    rfl
  have hlive := hall key hmem
  rw [Std.HashMap.getElem_eq_get_getElem?] at hlive
  simp [hkey, hlapsed] at hlive

theorem Tracks.purge (h : s.Tracks capacity m now) : (s.purge now).Tracks capacity m now where
  capacity_eq := h.capacity_eq
  size_le := Nat.le_trans (size_purge_le s now) h.size_le
  live_eq t ht key := by rw [live?_purge ht, h.live_eq t ht]

private theorem size_eq_ncard (s : Store) : s.size = {key : String | s.entries[key]?.isSome}.ncard := by
  have hkeys : {key : String | s.entries[key]?.isSome} = ↑s.entries.keys.toFinset := by
    ext key
    simp [Std.HashMap.isSome_getElem?_eq_contains]
  have hnodup : s.entries.keys.Nodup := by
    have h := s.entries.distinct_keys
    simpa [List.Nodup] using h
  rw [hkeys, Set.ncard_coe_finset, List.toFinset_card_of_nodup hnodup, Std.HashMap.length_keys]
  rfl

theorem Tracks.size_purge (h : s.Tracks capacity m now) {t : Instant} (ht : now ≤ t) :
    (s.purge t).size = m.count t := by
  rw [size_eq_ncard, TimedMap.count]
  simp only [getElem?_purge, h.live_eq t ht]

/-! ### Changing one key -/

theorem live?_erase (s : Store) (key other : String) (t : Instant) :
    (s.erase key).live? other t = if other = key then none else s.live? other t := by
  unfold live? erase
  rw [Std.HashMap.getElem?_erase]
  by_cases hk : other = key
  · simp [hk]
  · simp [hk, Ne.symm hk]

theorem Tracks.erase (h : s.Tracks capacity m now) (key : String) :
    (s.erase key).Tracks capacity (m.assign key none) now where
  capacity_eq := h.capacity_eq
  size_le := Nat.le_trans Std.HashMap.size_erase_le h.size_le
  live_eq t ht other := by
    rw [live?_erase, TimedMap.live?_assign, h.live_eq t ht]
    rfl

private theorem Tracks.erase_lapsed (h : s.Tracks capacity m now) (hkey : s.live? key now = none) :
    (s.erase key).Tracks capacity m now where
  capacity_eq := h.capacity_eq
  size_le := Nat.le_trans Std.HashMap.size_erase_le h.size_le
  live_eq t ht other := by
    rw [live?_erase]
    split_ifs with hk
    · rw [← h.live_eq t ht, hk]
      unfold live? at hkey ⊢
      rw [Option.filter_eq_none_iff] at hkey
      rw [eq_comm, Option.filter_eq_none_iff]
      intro e he hlive
      exact hkey e he (Entry.isLive_of_le ht hlive)
    · exact h.live_eq t ht other

def insert (s : Store) (key : String) (e : Entry) : Store :=
  { s with entries := s.entries.insert key e }

theorem live?_insert (s : Store) (key : String) (e : Entry) (other : String) (t : Instant) :
    (s.insert key e).live? other t =
      if other = key then (some e).filter (·.isLive t) else s.live? other t := by
  unfold live? insert
  rw [Std.HashMap.getElem?_insert]
  by_cases hk : other = key
  · simp [hk]
  · simp [hk, Ne.symm hk]

theorem Tracks.insert (h : s.Tracks capacity m now) (hroom : s.hasRoom key = true) (e : Entry) :
    (s.insert key e).Tracks capacity (m.assign key (some e)) now where
  capacity_eq := h.capacity_eq
  size_le := by
    have hsize := h.size_le
    have hcap := h.capacity_eq
    simp only [hasRoom, Bool.or_eq_true, decide_eq_true_eq] at hroom
    simp only [size, Store.insert, Std.HashMap.size_insert, Std.HashMap.mem_iff_contains] at *
    split_ifs with hk
    · exact hsize
    · have hlt := hroom.resolve_right hk
      omega
  live_eq t ht other := by
    rw [live?_insert, TimedMap.live?_assign, h.live_eq t ht]

/-! ### Room -/

theorem Tracks.makeRoom (h : s.Tracks capacity m now) (key : String) :
    (s.makeRoom key now).Tracks capacity m now := by
  unfold Store.makeRoom
  split_ifs
  · exact h.purge
  · exact h

/-- A new text finds no room just when its key cannot be read and as many others can as there is
room for. The bound on the entries is needed where the key is taken up by a text that has lapsed. -/
theorem Tracks.hasRoom_eq_false_iff (h : s.Tracks capacity m now) (key : String) :
    (s.makeRoom key now).hasRoom key = false ↔
      m.live? key now = none ∧ capacity ≤ m.count now := by
  have hcount := h.size_purge (Instant.le_refl now)
  have hsize := h.size_le
  have hcap := h.capacity_eq
  rw [← h.live?_now key]
  cases hkey : s.entries[key]? with
  | none =>
      have hlive : s.live? key now = none := by simp [live?, hkey]
      have hcontains : s.entries.contains key = false := by
        rw [← Std.HashMap.isSome_getElem?_eq_contains, hkey]
        rfl
      have hpurged : (s.purge now).entries.contains key = false := by
        rw [← Std.HashMap.isSome_getElem?_eq_contains, getElem?_purge, hlive]
        rfl
      unfold Store.makeRoom
      split_ifs with hfull
      · have hpcap : (s.purge now).capacity = s.capacity := rfl
        simp only [hasRoom, hpurged, hlive, hcount, hpcap, Bool.or_false, true_and]
        simp
        omega
      · have hlt : s.size < s.capacity := by
          by_contra hge
          exact hfull ⟨Nat.le_of_not_lt hge, by simp [hcontains]⟩
        have hle := size_purge_le s now
        simp only [hasRoom, hlt]
        simp
        omega
  | some e =>
      have hcontains : s.entries.contains key = true := by
        rw [← Std.HashMap.isSome_getElem?_eq_contains, hkey]
        rfl
      have hroom : s.makeRoom key now = s := by simp [Store.makeRoom, hcontains]
      rw [hroom]
      simp only [hasRoom, hcontains, Bool.or_true, Bool.true_eq_false, false_iff, not_and]
      intro hlapsed
      have hdead : e.isLive now = false := by
        cases hl : e.isLive now
        · rfl
        · simp [live?, hkey, Option.filter, hl] at hlapsed
      have hlt := size_purge_lt hkey hdead
      omega

/-! ### Calls -/

/-- What a call on a store leads to is what it leads to on the plain map: the same answer, and a
store in step with the map. -/
def Agrees {α : Type} (outcome : Except Crash α × Store) (capacity : Nat) (now : Instant)
    (plain : Except Crash α × TimedMap) : Prop :=
  outcome.1 = plain.1 ∧ outcome.2.Tracks capacity plain.2 now

theorem runOn_get (key : String) (now : Instant) (s : Store) :
    (Store.get key now).runOn s =
      match s.entries[key]? with
      | none => (.ok none, s)
      | some e => if e.isLive now then (.ok (some e.value), s) else (.ok none, s.erase key) := by
  rw [Store.get, Attempt.runOn_bind_ok (Attempt.runOn_monadState_get s)]
  cases s.entries[key]? with
  | none => rfl
  | some e => cases hl : e.isLive now <;> simp only [hl] <;> rfl

theorem runOn_put (key value : String) (ttl : Duration) (now : Instant) (s : Store) :
    (Store.put key value ttl now).runOn s =
      if (s.makeRoom key now).hasRoom key then
        match now.add? ttl with
        | some expiry => (.ok (.ok ()), (s.makeRoom key now).insert key ⟨value, expiry⟩)
        | none => (.error .calendar, s.makeRoom key now)
      else
        (.ok (.error (.unavailable
          s!"capacity of {(s.makeRoom key now).capacity} entries reached")),
        s.makeRoom key now) := by
  rw [Store.put, Attempt.runOn_bind_ok (Attempt.runOn_modify _ _),
    Attempt.runOn_bind_ok (Attempt.runOn_monadState_get _)]
  cases (s.makeRoom key now).hasRoom key with
  | false => rfl
  | true => cases now.add? ttl <;> rfl

theorem runOn_overwrite (key value : String) (ttl : Duration) (now : Instant) (s : Store) :
    (Store.overwrite key value ttl now).runOn s =
      match s.live? key now with
      | none => (.ok false, s)
      | some e =>
          match now.add? ttl with
          | some expiry =>
              (.ok true, (s.insert key { e with value }).insert key ⟨value, expiry⟩)
          | none => (.error .calendar, s.insert key { e with value }) := by
  rw [Store.overwrite, Attempt.runOn_bind_ok (Attempt.runOn_monadState_get s), live?]
  cases s.entries[key]?.filter (·.isLive now) with
  | none => rfl
  | some e => cases now.add? ttl <;> rfl

theorem runOn_removeLive (key : String) (now : Instant) (s : Store) :
    (Store.removeLive key now).runOn s =
      match s.live? key now with
      | none => (.ok false, s)
      | some _ => (.ok true, s.erase key) := by
  rw [Store.removeLive, Attempt.runOn_bind_ok (Attempt.runOn_monadState_get s), live?]
  cases s.entries[key]?.filter (·.isLive now) <;> rfl

theorem Tracks.get (h : s.Tracks capacity m now) (key : String) :
    Agrees ((Store.get key now).runOn s) capacity now
      (.ok ((m.live? key now).map (·.value)), m) := by
  rw [runOn_get, ← h.live?_now key]
  cases hkey : s.entries[key]? with
  | none => exact ⟨by simp [live?, hkey], h⟩
  | some e =>
      by_cases hl : e.isLive now = true
      · have hlive : s.live? key now = some e := by rw [live?, hkey, Option.filter_some, if_pos hl]
        simp only [hl, if_true, hlive]
        exact ⟨rfl, h⟩
      · have hnone : s.live? key now = none := by rw [live?, hkey, Option.filter_some, if_neg hl]
        simp only [hl, hnone]
        exact ⟨rfl, h.erase_lapsed hnone⟩

open Classical in
theorem Tracks.put (h : s.Tracks capacity m now) (key value : String) (ttl : Duration) :
    Agrees ((Store.put key value ttl now).runOn s) capacity now
      (if m.live? key now = none ∧ capacity ≤ m.count now then
        (.ok (.error (.unavailable s!"capacity of {capacity} entries reached")), m)
      else
        match now.add? ttl with
        | some expiry => (.ok (.ok ()), m.assign key (some ⟨value, expiry⟩))
        | none => (.error .calendar, m)) := by
  have hroom := h.makeRoom key
  rw [runOn_put, hroom.capacity_eq]
  by_cases hfull : m.live? key now = none ∧ capacity ≤ m.count now
  · rw [if_pos hfull, (h.hasRoom_eq_false_iff key).mpr hfull]
    exact ⟨rfl, hroom⟩
  · have hfree : (s.makeRoom key now).hasRoom key = true := by
      rwa [← h.hasRoom_eq_false_iff key, Bool.not_eq_false] at hfull
    rw [if_neg hfull, hfree]
    cases now.add? ttl with
    | none => exact ⟨rfl, hroom⟩
    | some expiry => exact ⟨rfl, hroom.insert hfree _⟩

private theorem hasRoom_of_live? {e : Entry} (hlive : s.live? key now = some e) :
    s.hasRoom key = true := by
  obtain ⟨hkey, -⟩ := Option.filter_eq_some_iff.mp hlive
  simp [hasRoom, ← Std.HashMap.isSome_getElem?_eq_contains, hkey]

theorem Tracks.overwrite (h : s.Tracks capacity m now) (key value : String) (ttl : Duration) :
    Agrees ((Store.overwrite key value ttl now).runOn s) capacity now
      (match m.live? key now with
      | none => (.ok false, m)
      | some e =>
          match now.add? ttl with
          | some expiry => (.ok true, m.assign key (some ⟨value, expiry⟩))
          | none => (.error .calendar, m.assign key (some { e with value }))) := by
  rw [runOn_overwrite, ← h.live?_now key]
  cases hlive : s.live? key now with
  | none => exact ⟨rfl, h⟩
  | some e =>
      have hfirst := h.insert (hasRoom_of_live? hlive) { e with value }
      cases now.add? ttl with
      | none => exact ⟨rfl, hfirst⟩
      | some expiry =>
          have hroom : (s.insert key { e with value }).hasRoom key = true := by
            simp [hasRoom, Store.insert]
          have hsecond := hfirst.insert hroom ⟨value, expiry⟩
          exact ⟨rfl, by simpa only [TimedMap.assign_assign] using hsecond⟩

theorem Tracks.removeLive (h : s.Tracks capacity m now) (key : String) :
    Agrees ((Store.removeLive key now).runOn s) capacity now
      (match m.live? key now with
      | none => (.ok false, m)
      | some _ => (.ok true, m.assign key none)) := by
  rw [runOn_removeLive, ← h.live?_now key]
  cases s.live? key now with
  | none => exact ⟨rfl, h⟩
  | some e => exact ⟨rfl, h.erase key⟩

private theorem Agrees.map_ok {α β : Type} {x : Attempt Store α} {plain : Except Crash α × TimedMap}
    (f : α → β) (h : Agrees (x.runOn s) capacity now plain) :
    Agrees ((do return f (← x) : Attempt Store β).runOn s) capacity now
      (plain.1.map f, plain.2) := by
  obtain ⟨hreply, hstate⟩ := h
  rw [Attempt.runOn_bind]
  rcases hx : x.runOn s with ⟨a | a, t⟩ <;> rw [hx] at hreply hstate <;>
    exact ⟨by rw [← hreply]; rfl, hstate⟩

/-- A store in step with a plain map answers a call as the map does and stays in step with it. -/
theorem Tracks.answer (h : s.Tracks capacity m now) (c : StoreCall) :
    Agrees ((Store.answer (.ok now) c).runOn s) capacity now (m.answer capacity now c) := by
  cases c with
  | get key => exact (h.get key).map_ok Except.ok
  | set key value ttl =>
      by_cases httl : ttl ≤ Duration.zero
      · simp only [Store.answer, TimedMap.answer, if_pos httl]
        exact ⟨rfl, h.erase key⟩
      · simp only [Store.answer, TimedMap.answer, if_neg httl]
        exact h.put key value ttl
  | delete key => exact ⟨rfl, h.erase key⟩
  | replace key value ttl =>
      by_cases httl : ttl ≤ Duration.zero
      · have hremove := (h.removeLive key).map_ok (Except.ok (ε := StoreError))
        simp only [Store.answer, TimedMap.answer, if_pos httl]
        cases hlive : m.live? key now <;> simp only [hlive] at hremove <;> exact hremove
      · have hwrite := (h.overwrite key value ttl).map_ok (Except.ok (ε := StoreError))
        simp only [Store.answer, TimedMap.answer, if_neg httl]
        cases hlive : m.live? key now <;> simp only [hlive] at hwrite
        · exact hwrite
        · cases htime : now.add? ttl <;> simp only [htime] at hwrite <;> exact hwrite
  | ping => exact ⟨rfl, h⟩

end Store

end Bureau
