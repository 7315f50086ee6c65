import Bureau.Proofs.Store.History
import Bureau.Program.Query

/-!
A store that is shared. Between two steps of a query others may use the store and time may go by. What
they leave of a key that cannot be read is still nothing that can be read, as long as nobody sets it.
-/

set_option autoImplicit false

namespace Bureau

variable {α : Type}

def StoreDeed.Sets (key : String) : StoreDeed → Prop
  | .call (.set other _ _) => other = key
  | _ => False

def NeverSets (key : String) (history : List StoreVisit) : Prop :=
  ∀ v ∈ history, ¬ v.deed.Sets key

namespace Store

variable {s : Store} {key : String} {now later : Instant}

def after (s : Store) (v : StoreVisit) : Store := (replay [v] s).2

private theorem replay_cons_snd (v : StoreVisit) (rest : List StoreVisit) (s : Store) :
    (replay (v :: rest) s).2 = (replay rest (s.after v)).2 := by
  rcases v with ⟨now, c | -⟩ <;> rfl

private theorem after_call (s : Store) (now : Instant) (c : StoreCall) :
    s.after ⟨now, .call c⟩ = ((Store.answer (.ok now) c).runOn s).2 := rfl

private theorem live?_eq_none_of_le (hle : now ≤ later) (h : s.live? key now = none) :
    s.live? key later = none := by
  unfold live? at h ⊢
  rw [Option.filter_eq_none_iff] at h ⊢
  intro e he hlive
  exact h e he (Entry.isLive_of_le hle hlive)

theorem live?_erase_eq_none (other : String) (h : s.live? key now = none) :
    (s.erase other).live? key now = none := by
  rw [live?_erase]
  split_ifs
  · rfl
  · exact h

private theorem live?_insert_of_ne {other : String} (hne : other ≠ key) (e : Entry) :
    (s.insert other e).live? key now = s.live? key now := by
  rw [live?_insert, if_neg (Ne.symm hne)]

private theorem live?_makeRoom (s : Store) (key other : String) (now : Instant) :
    (s.makeRoom other now).live? key now = s.live? key now := by
  unfold makeRoom
  split_ifs
  · exact live?_purge (Instant.le_refl now) key
  · rfl

/-! ### What single calls leave -/

theorem runOn_answer_get_of_live {e : Entry} (h : s.live? key now = some e) :
    (Store.answer (.ok now) (.get key)).runOn s = (.ok (.ok (some e.value)), s) := by
  obtain ⟨hkey, hlive⟩ := Option.filter_eq_some_iff.mp h
  have hget : (Store.get key now).runOn s = (.ok (some e.value), s) := by
    simp only [runOn_get, hkey, hlive, if_true]
  exact Attempt.runOn_bind_ok hget _

theorem runOn_answer_get_of_gone (h : s.live? key now = none) :
    ∃ t, (Store.answer (.ok now) (.get key)).runOn s = (.ok (.ok none), t) ∧
      (t = s ∨ t = s.erase key) := by
  rw [live?, Option.filter_eq_none_iff] at h
  cases hkey : s.entries[key]? with
  | none =>
    have hget : (Store.get key now).runOn s = (.ok none, s) := by
      simp only [runOn_get, hkey]
    exact ⟨s, Attempt.runOn_bind_ok hget _, .inl rfl⟩
  | some e =>
    have hget : (Store.get key now).runOn s = (.ok none, s.erase key) := by
      simp only [runOn_get, hkey, if_neg (h e hkey)]
    exact ⟨s.erase key, Attempt.runOn_bind_ok hget _, .inr rfl⟩

theorem runOn_answer_replace (key value : String) (ttl : Duration) (now : Instant) (s : Store) :
    (Store.answer (.ok now) (.replace key value ttl)).runOn s =
      match s.live? key now with
      | none => (.ok (.ok false), s)
      | some e =>
          if ttl ≤ Duration.zero then (.ok (.ok true), s.erase key)
          else
            match now.add? ttl with
            | some expiry =>
                (.ok (.ok true), (s.insert key { e with value }).insert key ⟨value, expiry⟩)
            | none => (.error .calendar, s.insert key { e with value }) := by
  by_cases httl : ttl ≤ Duration.zero
  · have hanswer : (Store.answer (.ok now) (.replace key value ttl)).runOn s =
        (do return .ok (← Store.removeLive key now) :
          Attempt Store (StoreCall.Reply (.replace key value ttl))).runOn s := by
      simp only [Store.answer, if_pos httl]
      rfl
    rw [hanswer, Attempt.runOn_bind, runOn_removeLive]
    cases s.live? key now with
    | none => rfl
    | some e => simp only [if_pos httl, Attempt.runOn_pure]
  · have hanswer : (Store.answer (.ok now) (.replace key value ttl)).runOn s =
        (do return .ok (← Store.overwrite key value ttl now) :
          Attempt Store (StoreCall.Reply (.replace key value ttl))).runOn s := by
      simp only [Store.answer, if_neg httl]
      rfl
    rw [hanswer, Attempt.runOn_bind, runOn_overwrite]
    cases s.live? key now with
    | none => rfl
    | some e =>
      simp only [if_neg httl]
      cases now.add? ttl <;> rfl

/-! ### Keys that stay gone -/

/-- A visit that does not set a key leaves it unreadable. A call that overwrites it finds nothing to
overwrite. -/
theorem live?_after {v : StoreVisit} (hsets : ¬ v.deed.Sets key) (h : s.live? key v.time = none) :
    (s.after v).live? key v.time = none := by
  obtain ⟨now, deed⟩ := v
  change s.live? key now = none at h
  change (s.after ⟨now, deed⟩).live? key now = none
  cases deed with
  | purge => exact (live?_purge (Instant.le_refl now) key).trans h
  | call c =>
    rw [after_call]
    cases c with
    | get other =>
      cases hother : s.live? other now with
      | some e => rwa [runOn_answer_get_of_live hother]
      | none =>
        obtain ⟨t, hget, rfl | rfl⟩ := runOn_answer_get_of_gone hother
        · rwa [hget]
        · rw [hget]
          exact live?_erase_eq_none other h
    | set other value ttl =>
      by_cases httl : ttl ≤ Duration.zero
      · simp only [Store.answer, if_pos httl]
        exact live?_erase_eq_none other h
      · simp only [Store.answer, if_neg httl]
        have hroom := (live?_makeRoom s key other now).trans h
        change ((Store.put other value ttl now).runOn s).2.live? key now = none
        rw [runOn_put]
        split_ifs
        · cases now.add? ttl with
          | none => exact hroom
          | some expiry => exact (live?_insert_of_ne hsets _).trans hroom
        · exact hroom
    | delete other => exact live?_erase_eq_none other h
    | replace other value ttl =>
      rw [runOn_answer_replace]
      cases hother : s.live? other now with
      | none => exact h
      | some e =>
        have hne : other ≠ key := by
          rintro rfl
          rw [h] at hother
          cases hother
        have hwritten := (live?_insert_of_ne hne { e with value }).trans h
        simp only []
        split_ifs
        · exact live?_erase_eq_none other h
        · cases now.add? ttl with
          | none => exact hwritten
          | some expiry => exact (live?_insert_of_ne hne _).trans hwritten
    | ping => exact h

/-- A key that is gone stays gone over every history in which nobody sets it, by induction on the
visits, each at no earlier time than the one before. -/
private theorem live?_replay {history : List StoreVisit} (hsets : NeverSets key history)
    (horder : Instant.Ascending (now :: history.map (·.time))) (h : s.live? key now = none)
    (hnow : now ≤ later) (hlater : ∀ v ∈ history, v.time ≤ later) :
    (replay history s).2.live? key later = none := by
  induction history generalizing s now with
  | nil => exact live?_eq_none_of_le hnow h
  | cons v rest ih =>
    obtain ⟨hfirst, hrest⟩ := List.pairwise_cons.mp horder
    have hv : now ≤ v.time := hfirst v.time List.mem_cons_self
    have hgone := live?_after (hsets v List.mem_cons_self) (live?_eq_none_of_le hv h)
    rw [replay_cons_snd]
    exact ih (fun w hw => hsets w (List.mem_cons_of_mem v hw)) hrest hgone
      (hlater v List.mem_cons_self) fun w hw => hlater w (List.mem_cons_of_mem v hw)

end Store

/-! ### Queries among others -/

/-- What others do to a store before the next step of a query, and the time of that step. -/
structure Interlude where
  visits : List StoreVisit
  time : Instant

def Interlude.pass (i : Interlude) (s : Store) : Store := (Store.replay i.visits s).2

def Interlude.times (i : Interlude) : List Instant := i.visits.map (·.time) ++ [i.time]

theorem Interlude.live?_pass {i : Interlude} {s : Store} {key : String} {now : Instant}
    (hsets : NeverSets key i.visits) (horder : Instant.Ascending (now :: i.times))
    (h : s.live? key now = none) : (i.pass s).live? key i.time = none := by
  obtain ⟨hbefore, -, hlater⟩ := List.pairwise_append.mp (show Instant.Ascending
    ((now :: i.visits.map (·.time)) ++ [i.time]) from horder)
  have hle : ∀ t ∈ now :: i.visits.map (·.time), t ≤ i.time :=
    fun t ht => hlater t ht i.time List.mem_cons_self
  exact Store.live?_replay hsets hbefore h (hle now List.mem_cons_self) fun v hv =>
    hle v.time (List.mem_cons_of_mem now (List.mem_map_of_mem hv))

/-- From a time on a key cannot be read, whatever is done to the store, until somebody sets it. -/
def Store.StaysGone (s : Store) (key : String) (now : Instant) : Prop :=
  ∀ i : Interlude, NeverSets key i.visits → Instant.Ascending (now :: i.times) →
    (i.pass s).find? key i.time = none

theorem Store.staysGone {s : Store} {key : String} {now : Instant} (h : s.live? key now = none) :
    s.StaysGone key now := by
  intro i hsets horder
  exact congrArg (Option.map Entry.value) (i.live?_pass hsets horder h)

/-- A store that others use between the steps of a query, with what they are going to do before each
of its steps. -/
structure SharedStore where
  store : Store
  ahead : Nat → Interlude

namespace SharedStore

/-- The store that a step meets, if the steps before it leave it as it is. -/
def meets (s : SharedStore) : Nat → Store
  | 0 => (s.ahead 0).pass s.store
  | n + 1 => (s.ahead (n + 1)).pass (s.meets n)

def turn : Attempt SharedStore Instant := do
  let ⟨store, ahead⟩ ← get
  set (⟨(ahead 0).pass store, fun n => ahead (n + 1)⟩ : SharedStore)
  return (ahead 0).time

def onStore (operation : Attempt Store α) : Attempt SharedStore α := do
  let ⟨store, ahead⟩ ← get
  let (outcome, store) := operation.runOn store
  set (⟨store, ahead⟩ : SharedStore)
  outcome

def ask (c : StoreCall) : Attempt SharedStore c.Reply := do
  let now ← turn
  onStore (Store.answer (.ok now) c)

/-- What a query comes to and the store after it, others having a turn before each of its steps. -/
def inquire (q : Query α) (s : SharedStore) : Except Crash α × SharedStore :=
  (q.run turn ask).runOn s

theorem inquire_clock (k : Instant → Query α) (s : SharedStore) :
    inquire (.clock k) s =
      inquire (k (s.ahead 0).time) ⟨(s.ahead 0).pass s.store, fun n => s.ahead (n + 1)⟩ := rfl

theorem runOn_onStore (operation : Attempt Store α) (s : SharedStore) :
    (onStore operation).runOn s =
      ((operation.runOn s.store).1, ⟨(operation.runOn s.store).2, s.ahead⟩) := by
  rcases hrun : operation.runOn s.store with ⟨c | a, store⟩ <;>
    simp only [onStore, Attempt.runOn_bind, Attempt.runOn_get, hrun] <;> rfl

theorem runOn_ask (c : StoreCall) (s : SharedStore) :
    (ask c).runOn s =
      let answered := (Store.answer (.ok (s.ahead 0).time) c).runOn ((s.ahead 0).pass s.store)
      (answered.1, ⟨answered.2, fun n => s.ahead (n + 1)⟩) := by
  have hturn : turn.runOn s =
      (.ok (s.ahead 0).time, ⟨(s.ahead 0).pass s.store, fun n => s.ahead (n + 1)⟩) := rfl
  rw [ask, Attempt.runOn_bind_ok hturn, runOn_onStore]

theorem inquire_call (c : StoreCall) (k : c.Reply → Query α) (s : SharedStore) :
    inquire (.call c k) s =
      let answered := (Store.answer (.ok (s.ahead 0).time) c).runOn ((s.ahead 0).pass s.store)
      Attempt.andThen (answered.1, ⟨answered.2, fun n => s.ahead (n + 1)⟩) fun reply =>
        inquire (k reply) := by
  change (ask c >>= fun reply => (k reply).run turn ask).runOn s = _
  rw [Attempt.runOn_bind_eq_andThen, runOn_ask]
  rfl

end SharedStore

end Bureau
