import Bureau.Proofs.Store.Interludes

/-!
Replacing what is under a key. A replacement is made as a whole or leaves the store as it was, with one
exception: the text is written before its new expiry is known, and it stays, under the old expiry, where
the calendar has no such time. Other keys are never touched.
-/

set_option autoImplicit false

namespace Bureau.Store

variable {s t : Store} {key value : String} {ttl : Duration} {now : Instant}
  {clock : Except Crash Instant} {outcome : Except Crash (Except StoreError Bool)} {e : Entry}

def contents (s : Store) : TimedMap := fun key => s.entries[key]?

private theorem contents_erase (s : Store) (key : String) :
    (s.erase key).contents = s.contents.assign key none := by
  funext other
  unfold contents TimedMap.assign erase
  rw [Std.HashMap.getElem?_erase]
  by_cases hk : other = key
  · simp [hk]
  · simp [hk, Ne.symm hk]

private theorem contents_insert (s : Store) (key : String) (e : Entry) :
    (s.insert key e).contents = s.contents.assign key (some e) := by
  funext other
  unfold contents TimedMap.assign insert
  rw [Std.HashMap.getElem?_insert]
  by_cases hk : other = key
  · simp [hk]
  · simp [hk, Ne.symm hk]

private theorem contents_of_live? (h : s.live? key now = some e) : s.contents key = some e :=
  (Option.filter_eq_some_iff.mp h).1

/-- What a replacement is to put under its key: the new text with its new expiry, or nothing after a
length of time that is not positive. -/
inductive IsReplacement (value : String) (ttl : Duration) (now : Instant) : Option Entry → Prop
  | removal : ttl ≤ Duration.zero → IsReplacement value ttl now none
  | writing {expiry : Instant} : ¬ ttl ≤ Duration.zero → now.add? ttl = some expiry →
      IsReplacement value ttl now (some ⟨value, expiry⟩)

/-- The calendar has no expiry for a replacement just when a positive length leads out of it. -/
theorem exists_isReplacement_iff :
    (∃ e, IsReplacement value ttl now e) ↔ ttl ≤ Duration.zero ∨ now.add? ttl ≠ none := by
  constructor
  · rintro ⟨-, h | ⟨-, h⟩⟩
    · exact .inl h
    · exact .inr (by rw [h]; exact nofun)
  · intro h
    by_cases httl : ttl ≤ Duration.zero
    · exact ⟨none, .removal httl⟩
    · obtain ⟨expiry, hexpiry⟩ := Option.ne_none_iff_exists'.mp (h.resolve_left httl)
      exact ⟨_, .writing httl hexpiry⟩

inductive Replaces (s : Store) (key value : String) (ttl : Duration) :
    Except Crash Instant → Except Crash (Except StoreError Bool) → Store → Prop
  /-- The clock cannot be read. -/
  | unread (c : Crash) : Replaces s key value ttl (.error c) (.error c) s
  /-- The key cannot be read. -/
  | missed {now : Instant} : s.live? key now = none →
      Replaces s key value ttl (.ok now) (.ok (.ok false)) s
  | made {now : Instant} {e : Entry} {e' : Option Entry} {t : Store} : s.live? key now = some e →
      IsReplacement value ttl now e' → t.contents = s.contents.assign key e' →
      Replaces s key value ttl (.ok now) (.ok (.ok true)) t
  /-- Only the text has been written. -/
  | torn {now : Instant} {e : Entry} {t : Store} : s.live? key now = some e →
      (¬ ∃ e', IsReplacement value ttl now e') →
      t.contents = s.contents.assign key (some { e with value }) →
      Replaces s key value ttl (.ok now) (.error .calendar) t

private theorem replaces_answer (s : Store) (key value : String) (ttl : Duration)
    (clock : Except Crash Instant) :
    let run := (Store.answer clock (.replace key value ttl)).runOn s
    s.Replaces key value ttl clock run.1 run.2 := by
  cases clock with
  | error c => exact .unread c
  | ok now =>
    intro run
    have hrun : run = _ := runOn_answer_replace key value ttl now s
    rw [hrun]
    cases hlive : s.live? key now with
    | none => exact .missed hlive
    | some e =>
      by_cases httl : ttl ≤ Duration.zero
      · simp only [if_pos httl]
        exact .made hlive (.removal httl) (s.contents_erase key)
      · simp only [if_neg httl]
        cases hexpiry : now.add? ttl with
        | some expiry =>
          refine .made hlive (.writing httl hexpiry) ?_
          rw [contents_insert, contents_insert, TimedMap.assign_assign]
        | none =>
          have hnone : ¬ ∃ e', IsReplacement value ttl now e' := by
            rw [exists_isReplacement_iff]
            exact fun h => h.resolve_left httl hexpiry
          exact .torn hlive hnone (s.contents_insert key _)

/-- A replacement that is all or nothing: it says that it was made and has put under its key what it is
to put there, or it was refused or has crashed and nothing is under any key but what was there before.
-/
def ReplacesWhole (s : Store) (key value : String) (ttl : Duration) (clock : Except Crash Instant)
    (outcome : Except Crash (Except StoreError Bool)) (t : Store) : Prop :=
  (outcome = .ok (.ok true) ∧ ∃ now e, clock = .ok now ∧ IsReplacement value ttl now e ∧
      t.contents = s.contents.assign key e) ∨
    (outcome = .ok (.ok false) ∨ ∃ c, outcome = .error c) ∧ t.contents = s.contents

/-- Whether a replacement leaves its text under the old expiry: the key can be read and has another
text, and the calendar has no time for the new expiry. -/
def Tears (s : Store) (key value : String) (ttl : Duration) (clock : Except Crash Instant) : Prop :=
  ∃ now e, clock = .ok now ∧ s.live? key now = some e ∧ e.value ≠ value ∧
    ¬ ∃ e', IsReplacement value ttl now e'

namespace Replaces

private theorem whole_iff (h : s.Replaces key value ttl clock outcome t) :
    s.ReplacesWhole key value ttl clock outcome t ↔ ¬ s.Tears key value ttl clock := by
  cases h with
  | unread c =>
    refine iff_of_true (.inr ⟨.inr ⟨c, rfl⟩, rfl⟩) ?_
    rintro ⟨now, e, hclock, -⟩
    cases hclock
  | missed hgone =>
    refine iff_of_true (.inr ⟨.inl rfl, rfl⟩) ?_
    rintro ⟨_, e, hclock, hlive, -⟩
    cases hclock
    rw [hgone] at hlive
    cases hlive
  | made hlive hnew hcontents =>
    refine iff_of_true (.inl ⟨rfl, _, _, rfl, hnew, hcontents⟩) ?_
    rintro ⟨_, _, hclock, -, -, hnone⟩
    cases hclock
    exact hnone ⟨_, hnew⟩
  | @torn now e t hlive hnone hcontents =>
    -- Nothing has changed only if the text was there before.
    have hsame : t.contents = s.contents ↔ e.value = value := by
      rw [hcontents]
      constructor
      · intro h
        have hkey := congrFun h key
        rw [TimedMap.assign_self, contents_of_live? hlive] at hkey
        exact (congrArg Entry.value (Option.some.inj hkey)).symm
      · rintro rfl
        funext other
        unfold TimedMap.assign
        split_ifs with hk
        · rw [hk, contents_of_live? hlive]
        · rfl
    constructor
    · rintro (⟨hmade, -⟩ | ⟨-, hkept⟩)
      · cases hmade
      · rintro ⟨_, e', hclock, hlive', hne, -⟩
        cases hclock
        rw [hlive] at hlive'
        cases hlive'
        exact hne (hsame.mp hkept)
    · intro hwhole
      refine .inr ⟨.inr ⟨_, rfl⟩, hsame.mpr (by_contra fun hne => hwhole ?_)⟩
      exact ⟨now, e, rfl, hlive, hne, hnone⟩

theorem eq_true_iff (h : s.Replaces key value ttl clock outcome t) :
    outcome = .ok (.ok true) ↔ ∃ now, clock = .ok now ∧ (s.live? key now).isSome ∧
      ∃ e, IsReplacement value ttl now e := by
  cases h with
  | unread c => exact ⟨nofun, fun ⟨_, hclock, _⟩ => nomatch hclock⟩
  | missed hgone =>
    refine ⟨nofun, fun ⟨_, hclock, hlive, _⟩ => ?_⟩
    cases hclock
    rw [hgone] at hlive
    cases hlive
  | made hlive hnew => exact ⟨fun _ => ⟨_, rfl, by rw [hlive]; rfl, _, hnew⟩, fun _ => rfl⟩
  | torn hlive hnone =>
    refine ⟨nofun, fun ⟨_, hclock, _, hnew⟩ => ?_⟩
    cases hclock
    exact absurd hnew hnone

theorem eq_false_iff (h : s.Replaces key value ttl clock outcome t) :
    outcome = .ok (.ok false) ↔ ∃ now, clock = .ok now ∧ s.live? key now = none := by
  cases h with
  | unread c => exact ⟨nofun, fun ⟨_, hclock, _⟩ => nomatch hclock⟩
  | missed hgone => exact ⟨fun _ => ⟨_, rfl, hgone⟩, fun _ => rfl⟩
  | made hlive | torn hlive =>
    refine ⟨nofun, fun ⟨_, hclock, hgone⟩ => ?_⟩
    cases hclock
    rw [hlive] at hgone
    cases hgone

private theorem of_tears (h : s.Replaces key value ttl clock outcome t)
    (htears : s.Tears key value ttl clock) :
    outcome = .error .calendar ∧ ∃ now e, clock = .ok now ∧ s.live? key now = some e ∧
      t.contents = s.contents.assign key (some { e with value }) := by
  obtain ⟨now, e, rfl, hlive, -, hnone⟩ := htears
  cases h with
  | missed hgone =>
    rw [hgone] at hlive
    cases hlive
  | made _ hnew => exact absurd ⟨_, hnew⟩ hnone
  | torn hlive' _ hcontents => exact ⟨rfl, now, _, rfl, hlive', hcontents⟩

private theorem contents_of_ne (h : s.Replaces key value ttl clock outcome t) {other : String}
    (hne : other ≠ key) : t.contents other = s.contents other := by
  cases h with
  | unread | missed => rfl
  | made _ _ hcontents | torn _ _ hcontents => rw [hcontents, TimedMap.assign, if_neg hne]

end Replaces

/-- A replacement is all or nothing, unless the key can be read and the calendar has no time for the
new expiry; then it crashes and leaves the new text under the old expiry, which shows if the text was
another one. It says that it was made exactly if the key can be read and its new expiry is in the
calendar, and that there was nothing to replace exactly if the key cannot be read. Whatever comes of
it, what is under the other keys stays. -/
theorem replaces_whole_iff (s : Store) (key value : String) (ttl : Duration)
    (clock : Except Crash Instant) :
    let run := (Store.answer clock (.replace key value ttl)).runOn s
    (s.ReplacesWhole key value ttl clock run.1 run.2 ↔ ¬ s.Tears key value ttl clock) ∧
      (run.1 = .ok (.ok true) ↔ ∃ now, clock = .ok now ∧ (s.live? key now).isSome ∧
        ∃ e, IsReplacement value ttl now e) ∧
      (run.1 = .ok (.ok false) ↔ ∃ now, clock = .ok now ∧ s.live? key now = none) ∧
      (s.Tears key value ttl clock → run.1 = .error .calendar ∧
        ∃ now e, clock = .ok now ∧ s.live? key now = some e ∧
          run.2.contents = s.contents.assign key (some { e with value })) ∧
      ∀ other, other ≠ key → run.2.contents other = s.contents other := by
  intro run
  have h : s.Replaces key value ttl clock run.1 run.2 := s.replaces_answer key value ttl clock
  exact ⟨h.whole_iff, h.eq_true_iff, h.eq_false_iff, h.of_tears, fun _ hne => h.contents_of_ne hne⟩

/-- The longest length of time in milliseconds leads out of the calendar: a replacement for so long
crashes, and what can be read afterwards is its text under the expiry of the old one. -/
theorem torn_beyond_calendar :
    let now : Instant := ⟨0, by decide⟩
    let old : Entry := ⟨"v1", ⟨30000000000, by decide⟩⟩
    let s := (empty 1).insert "k" old
    let ttl := Duration.ofMillis 9223372036854775807
    let run := (Store.answer (.ok now) (.replace "k" "v2" ttl)).runOn s
    ¬ s.ReplacesWhole "k" "v2" ttl (.ok now) run.1 run.2 ∧
      run.1 = .error .calendar ∧ run.2.contents "k" = some { old with value := "v2" } := by
  intro now old s ttl run
  have hlive : s.live? "k" now = some old := by
    rw [live?_insert, if_pos rfl]
    rfl
  have htears : s.Tears "k" "v2" ttl (.ok now) := by
    refine ⟨now, old, rfl, hlive, by decide, ?_⟩
    rw [exists_isReplacement_iff]
    decide
  have h : s.Replaces "k" "v2" ttl (.ok now) run.1 run.2 := s.replaces_answer "k" "v2" ttl (.ok now)
  obtain ⟨hcrash, _, e, hclock, hlive', hcontents⟩ := h.of_tears htears
  cases hclock
  rw [hlive] at hlive'
  cases hlive'
  refine ⟨fun hwhole => h.whole_iff.mp hwhole htears, hcrash, ?_⟩
  rw [hcontents, TimedMap.assign_self]

end Bureau.Store
