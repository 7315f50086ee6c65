import Bureau.Proofs.Store.TimedMap

/-!
Histories of a store: calls and purges at times that never go back. A store that begins empty
answers every call of a history as the plain map does, which purges do not touch. So nobody who
calls the store can tell when it was purged, or whether it was.
-/

set_option autoImplicit false

namespace Bureau

inductive StoreDeed where
  | call (c : StoreCall)
  | purge

def StoreDeed.isCall : StoreDeed → Bool
  | .call _ => true
  | .purge => false

structure StoreVisit where
  time : Instant
  deed : StoreDeed

abbrev CallReply : Type := Σ c : StoreCall, Except Crash c.Reply

def callsOf (history : List StoreVisit) : List StoreVisit := history.filter (·.deed.isCall)

namespace Store

/-- What comes back from the calls of a history, and the store after it. -/
def replay : List StoreVisit → Store → List CallReply × Store
  | [], s => ([], s)
  | ⟨now, .call c⟩ :: rest, s =>
      let (reply, s) := (Store.answer (.ok now) c).runOn s
      let (replies, s) := replay rest s
      (⟨c, reply⟩ :: replies, s)
  | ⟨now, .purge⟩ :: rest, s => replay rest ((Store.reclaim now).runOn s).2

end Store

namespace TimedMap

/-- What the plain map answers to the calls of a history, and the map after it. Purges do not touch
it. -/
noncomputable def replay (capacity : Nat) : List StoreVisit → TimedMap → List CallReply × TimedMap
  | [], m => ([], m)
  | ⟨now, .call c⟩ :: rest, m =>
      let (reply, m) := m.answer capacity now c
      let (replies, m) := replay capacity rest m
      (⟨c, reply⟩ :: replies, m)
  | ⟨_, .purge⟩ :: rest, m => replay capacity rest m

private theorem replay_callsOf (capacity : Nat) (history : List StoreVisit) (m : TimedMap) :
    m.replay capacity (callsOf history) = m.replay capacity history := by
  induction history generalizing m with
  | nil => rfl
  | cons v rest ih =>
      rcases v with ⟨now, c | -⟩
      · change replay capacity (_ :: callsOf rest) m = _
        simp only [replay, ih]
      · exact ih m

end TimedMap

namespace Store

variable {s : Store} {capacity : Nat} {m : TimedMap} {now : Instant}

theorem Tracks.stats (h : s.Tracks capacity m now) :
    (s.stats now).live = m.count now ∧
      ((Store.reclaim now).runOn s).1 = .ok (s.stats now).expired := by
  exact ⟨h.size_purge (Instant.le_refl now), rfl⟩

/-- One visit keeps a store in step with its plain map, and a whole history does by induction. -/
theorem Tracks.replay {history : List StoreVisit} (h : s.Tracks capacity m now)
    (hstart : ∀ v ∈ history, now ≤ v.time) (horder : Instant.Ascending (history.map (·.time)))
    {later : Instant} (hnow : now ≤ later) (hend : ∀ v ∈ history, v.time ≤ later) :
    (Store.replay history s).1 = (m.replay capacity history).1 ∧
      (Store.replay history s).2.Tracks capacity (m.replay capacity history).2 later := by
  induction history generalizing s m now with
  | nil => exact ⟨rfl, h.mono hnow⟩
  | cons v rest ih =>
      obtain ⟨hrest, hsorted⟩ := List.pairwise_cons.mp horder
      rw [List.forall_mem_map] at hrest
      have hv := h.mono (hstart v List.mem_cons_self)
      have hlast := hend v List.mem_cons_self
      have hothers : ∀ w ∈ rest, w.time ≤ later := fun w hw => hend w (List.mem_cons_of_mem v hw)
      rcases v with ⟨time, c | -⟩
      · obtain ⟨hreply, hstate⟩ := hv.answer c
        obtain ⟨hreplies, hfinal⟩ := ih hstate hrest hsorted hlast hothers
        refine ⟨?_, hfinal⟩
        simp only [Store.replay, TimedMap.replay]
        rw [hreplies, hreply]
      · exact ih hv.purge hrest hsorted hlast hothers

/-- A store behaves as a plain map with expiry, and nobody can tell when it was purged. Over every
history from the empty store, each call is answered as the plain map answers it; at any time after
it the store shows what the map shows, holds no more entries than its capacity, counts as live what
can be read, and a purge removes what the statistics count as expired. Another history with the
same calls, purged at other times or never, gives the same answers and the same count of live
entries. -/
theorem replay_eq_plain (capacity : Nat) {history other : List StoreVisit} {now : Instant}
    (horder : Instant.Ascending (history.map (·.time))) (hnow : ∀ v ∈ history, v.time ≤ now)
    (horder' : Instant.Ascending (other.map (·.time))) (hnow' : ∀ v ∈ other, v.time ≤ now)
    (hcalls : callsOf other = callsOf history) :
    let run := Store.replay history (empty capacity)
    let plain := TimedMap.empty.replay capacity history
    let run' := Store.replay other (empty capacity)
    run.1 = plain.1 ∧ run.2.size ≤ capacity ∧
      (∀ key, run.2.find? key now = (plain.2.live? key now).map (·.value)) ∧
      (run.2.stats now).live = plain.2.count now ∧
      ((Store.reclaim now).runOn run.2).1 = .ok (run.2.stats now).expired ∧
      run'.1 = run.1 ∧ (run'.2.stats now).live = (run.2.stats now).live := by
  intro run plain run'
  have hempty := tracks_empty capacity Instant.first
  have hfirst : ∀ (visits : List StoreVisit), ∀ v ∈ visits, Instant.first ≤ v.time :=
    fun _ v _ => v.time.first_le
  obtain ⟨hreplies, htracks⟩ := hempty.replay (hfirst history) horder now.first_le hnow
  obtain ⟨hreplies', htracks'⟩ := hempty.replay (hfirst other) horder' now.first_le hnow'
  have hplain : TimedMap.empty.replay capacity other = plain := by
    rw [← TimedMap.replay_callsOf, hcalls, TimedMap.replay_callsOf]
  rw [hplain] at hreplies' htracks'
  refine ⟨hreplies, htracks.size_le, htracks.find?_eq, htracks.stats.1, htracks.stats.2,
    hreplies'.trans hreplies.symm, ?_⟩
  rw [htracks'.stats.1, htracks.stats.1]

/-- In a store with room for one text, a text that has lapsed makes room for another key whether it
was purged before or not. -/
theorem replay_eq_plain_lapsed :
    let start : Instant := ⟨0, by decide⟩
    let now : Instant := ⟨1, by decide⟩
    let first : StoreVisit := ⟨start, .call (.set "a" "x" ⟨1⟩)⟩
    let second : StoreVisit := ⟨now, .call (.set "b" "y" ⟨1⟩)⟩
    Instant.Ascending ([first, second].map (·.time)) ∧
      Instant.Ascending ([first, ⟨now, .purge⟩, second].map (·.time)) ∧
      (Store.replay [first, ⟨now, .purge⟩, second] (empty 1)).1 =
        (Store.replay [first, second] (empty 1)).1 ∧
      (Store.replay [first, second] (empty 1)).1 =
        (TimedMap.empty.replay 1 [first, second]).1 := by
  intro start now first second
  have horder : Instant.Ascending ([first, second].map (·.time)) := by decide
  have hpurged : Instant.Ascending ([first, ⟨now, .purge⟩, second].map (·.time)) := by decide
  have hnow : ∀ v ∈ [first, second], v.time ≤ now := by decide
  have h := replay_eq_plain 1 horder hnow hpurged (by decide) rfl
  exact ⟨horder, hpurged, h.2.2.2.2.2.1, h.1⟩

end Store

end Bureau
