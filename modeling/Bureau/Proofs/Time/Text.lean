import Bureau.Time.Text
import Bureau.Proofs.Text.Digits
import Bureau.Proofs.Time.Calendar

/-!
Timestamps read back from their text as they are, leap seconds too.
-/

set_option autoImplicit false

namespace Bureau

open Text

/-! ### Parts of a timestamp -/

namespace Text

private theorem isBlank_of_isDigit {c : Char} (h : isDigit c = true) : isBlank c = false := by
  simp only [isDigit, Bool.and_eq_true, decide_eq_true_eq] at h
  simp only [isBlank, Bool.or_eq_false_iff, Bool.and_eq_false_iff, decide_eq_false_iff_not,
    beq_eq_false_iff_ne]
  omega

private theorem trimStart_cons {c : Char} (h : isBlank c = false) (cs : List Char) :
    trimStart (c :: cs) = c :: cs := by
  simp [trimStart, h]

private theorem trimStart_digits {ds : List Char} (hds : ∀ c ∈ ds, isDigit c = true) (hne : ds ≠ [])
    (rest : List Char) : trimStart (ds ++ rest) = ds ++ rest := by
  cases ds with
  | nil => exact absurd rfl hne
  | cons c ds =>
      rw [List.cons_append]
      exact trimStart_cons (isBlank_of_isDigit (hds c List.mem_cons_self)) _

private theorem paddedDigits_ne_nil (width n : Nat) : paddedDigits width n ≠ [] :=
  List.append_ne_nil_of_right_ne_nil _ (digits_ne_nil n)

end Text

namespace Timestamp

private theorem takeNumber?_append {ds rest : List Char} {most : Nat} (hds : ∀ c ∈ ds, isDigit c = true)
    (hne : ds ≠ []) (hlen : ds.length ≤ most)
    (hstop : ds.length = most ∨ ∀ c, rest.head? = some c → isDigit c = false) :
    takeNumber? most (ds ++ rest) = some (valueOf ds, rest) := by
  have htake : ((ds ++ rest).take most).takeWhile isDigit = ds := by
    rw [List.take_append, List.take_of_length_le hlen]
    apply takeWhile_isDigit_append hds
    rcases hstop with heq | hrest
    · intro c hc
      rw [heq, Nat.sub_self, List.take_zero, List.head?_nil] at hc
      cases hc
    · intro c hc
      rw [List.head?_take] at hc
      split_ifs at hc
      exact hrest c hc
  simp only [takeNumber?, htake, if_neg hne, List.drop_left]

private theorem takeField?_paddedDigits {n : Nat} (h : n < 100) (rest : List Char) :
    takeField? (paddedDigits 2 n ++ rest) = some (n, rest) := by
  have hall := all_paddedDigits 2 n
  have hne := paddedDigits_ne_nil 2 n
  have hlen : (paddedDigits 2 n).length = 2 := length_paddedDigits (by decide) (by omega)
  rw [takeField?, trimStart_digits hall hne,
    takeNumber?_append hall hne (Nat.le_of_eq hlen) (.inl hlen), valueOf_paddedDigits]

private theorem takeMark?_cons {mark : Char} (h : isBlank mark = false) (rest : List Char) :
    takeMark? mark (mark :: rest) = some rest := by
  rw [takeMark?, trimStart_cons h]
  exact if_pos rfl

private theorem takeYear?_digits {ds : List Char} (hds : ∀ c ∈ ds, isDigit c = true) (hne : ds ≠ [])
    (rest : List Char) :
    takeYear? (ds ++ rest) =
      (takeNumber? 4 (ds ++ rest)).map fun (n, rest) => ((n : Int), rest) := by
  unfold takeYear?
  rw [trimStart_digits hds hne]
  cases ds with
  | nil => exact absurd rfl hne
  | cons c ds =>
      have hc := hds c List.mem_cons_self
      split
      · rename_i heq
        cases heq
        cases hc
      · rename_i heq
        cases heq
        cases hc
      · rfl

private theorem takeNumber?_year (n : Nat) (rest : List Char) :
    takeNumber? (paddedDigits 4 n ++ '-' :: rest).length (paddedDigits 4 n ++ '-' :: rest) =
      some (n, '-' :: rest) := by
  have hstop : ∀ c, ('-' :: rest).head? = some c → isDigit c = false := by
    intro c hc
    cases hc
    rfl
  rw [takeNumber?_append (all_paddedDigits 4 n) (paddedDigits_ne_nil 4 n) (by simp) (.inr hstop),
    valueOf_paddedDigits]

private theorem takeYear?_yearChars (year : Int) (rest : List Char) :
    takeYear? (yearChars year ++ '-' :: rest) = some (year, '-' :: rest) := by
  unfold yearChars
  split_ifs with hplain hneg
  · have hlen : (paddedDigits 4 year.toNat).length = 4 :=
      length_paddedDigits (by decide) (by omega)
    rw [takeYear?_digits (all_paddedDigits 4 _) (paddedDigits_ne_nil 4 _),
      takeNumber?_append (all_paddedDigits 4 _) (paddedDigits_ne_nil 4 _) (Nat.le_of_eq hlen)
        (.inl hlen), valueOf_paddedDigits, Option.map_some]
    simp only [Int.toNat_of_nonneg hplain.1]
  · rw [List.cons_append, takeYear?, trimStart_cons (by decide)]
    simp only [takeNumber?_year, Option.map_some, Option.some.injEq, Prod.mk.injEq, and_true]
    omega
  · rw [List.cons_append, takeYear?, trimStart_cons (by decide)]
    simp only [takeNumber?_year, Option.map_some, Option.some.injEq, Prod.mk.injEq, and_true]
    omega

private theorem takeFraction?_places {width n : Nat} (hpos : 0 < width) (hwidth : width ≤ 9)
    (hn : n < 10 ^ width) :
    takeFraction? ('.' :: (paddedDigits width n ++ ['Z'])) =
      some (n * 10 ^ (9 - width), ['Z']) := by
  have hall := all_paddedDigits width n
  have hlen := length_paddedDigits hpos hn
  have hstop : ∀ c, ['Z'].head? = some c → isDigit c = false := by
    intro c hc
    cases hc
    rfl
  have htake : ((paddedDigits width n ++ ['Z']).take 9).takeWhile isDigit =
      paddedDigits width n := by
    rw [List.take_append, List.take_of_length_le (by omega)]
    apply takeWhile_isDigit_append hall
    intro c hc
    rw [List.head?_take] at hc
    split_ifs at hc
    exact hstop c hc
  have hmost : (paddedDigits width n).length ≤ 9 := by omega
  have hnumber := takeNumber?_append hall (paddedDigits_ne_nil width n) hmost (.inr hstop)
  rw [takeFraction?, hnumber, valueOf_paddedDigits]
  simp only [Option.bind_eq_bind, Option.bind_some, htake, hlen, tenTo_eq]
  rfl

private theorem takeFraction?_fractionChars {n : Nat} (hn : n < 1000000000) :
    takeFraction? (fractionChars n ++ ['Z']) = some (n, ['Z']) := by
  unfold fractionChars
  split_ifs with hzero hmillis hmicros
  · subst hzero
    rfl
  · rw [List.cons_append, takeFraction?_places (by decide) (by decide) (by omega)]
    simp only [Option.some.injEq, Prod.mk.injEq, and_true]
    omega
  · rw [List.cons_append, takeFraction?_places (by decide) (by decide) (by omega)]
    simp only [Option.some.injEq, Prod.mk.injEq, and_true]
    omega
  · rw [List.cons_append, takeFraction?_places (by decide) (by decide) (by omega)]
    simp

/-! ### Whole timestamps -/

private theorem second_inCalendar (t : Timestamp) :
    ¬ (t.second * 1000000000 < calendarStart ∨ calendarEnd < t.second * 1000000000) := by
  have hbounds := t.inCalendar
  unfold calendarStart calendarEnd at *
  unfold second
  omega

private theorem make?_self (t : Timestamp) : make? t.nanos t.leap = some t := by
  rw [make?, dif_pos ⟨t.inCalendar, t.leap_second⟩]

theorem clock_eq (t : Timestamp) :
    (t.second % 86400).toNat / 3600 * 3600 + (t.second % 86400).toNat / 60 % 60 * 60 +
        (if ((t.second % 86400).toNat % 60 + if t.leap = true then 1 else 0) = 60 then 59
          else (t.second % 86400).toNat % 60 + if t.leap = true then 1 else 0) =
      (t.second % 86400).toNat := by
  have hleap := t.leap_second
  unfold second
  cases hl : t.leap with
  | false =>
      simp only [Bool.false_eq_true, if_false]
      split_ifs <;> omega
  | true =>
      have hlast := hleap hl
      simp only [if_true]
      split_ifs <;> omega

private theorem shownSecond_eq_iff (t : Timestamp) :
    (((t.second % 86400).toNat % 60 + if t.leap = true then 1 else 0) == 60) = t.leap := by
  have hleap := t.leap_second
  unfold second
  cases hl : t.leap with
  | false =>
      simp only [Bool.false_eq_true, if_false, beq_eq_false_iff_ne]
      omega
  | true =>
      have hlast := hleap hl
      simp only [if_true, beq_iff_eq]
      omega

/-- The fields of a text, each in its range, make up the timestamp that the reader looks for. -/
theorem ofChars?_fields {date : Date} {hour minute second nanos : Nat}
    (hdate : date.isValid = true) (hhour : hour < 24) (hminute : minute < 60)
    (hsecond : second ≤ 60) (hnanos : nanos < 1000000000) :
    ofChars? (yearChars date.year ++ '-' :: (paddedDigits 2 date.month ++
      '-' :: (paddedDigits 2 date.day ++
      'T' :: (paddedDigits 2 hour ++ ':' :: (paddedDigits 2 minute ++
        ':' :: (paddedDigits 2 second ++ (fractionChars nanos ++ ['Z']))))))) =
      (let clock := hour * 3600 + minute * 60 + if second = 60 then 59 else second
       let start : Int := date.dayNumber * 86400 + clock
       if start * 1000000000 < calendarStart ∨ calendarEnd < start * 1000000000 then none
       else make? (start * 1000000000 + nanos) (second == 60)) := by
  obtain ⟨year, month, day⟩ := date
  have hfields := (Date.isValid_mk_iff year month day).mp hdate
  have hmonth : month < 100 := by omega
  have hday : day < 100 := by
    have hlast := Date.daysInMonth_le year month
    omega
  unfold ofChars?
  refine (bind_of_eq_some (takeYear?_yearChars year _) _).trans ?_
  refine (bind_of_eq_some (takeMark?_cons (by decide) _) _).trans ?_
  refine (bind_of_eq_some (takeField?_paddedDigits hmonth _) _).trans ?_
  refine (bind_of_eq_some (takeMark?_cons (by decide) _) _).trans ?_
  refine (bind_of_eq_some (takeField?_paddedDigits hday _) _).trans ?_
  refine (bind_of_eq_some (takeField?_paddedDigits (by omega) _) _).trans ?_
  refine (bind_of_eq_some (takeMark?_cons (by decide) _) _).trans ?_
  refine (bind_of_eq_some (takeField?_paddedDigits (by omega) _) _).trans ?_
  refine (bind_of_eq_some (takeMark?_cons (by decide) _) _).trans ?_
  refine (bind_of_eq_some (takeField?_paddedDigits (by omega) _) _).trans ?_
  refine (bind_of_eq_some (takeFraction?_fractionChars hnanos) _).trans ?_
  refine (bind_of_eq_some (x := takeZone? (trimStart ['Z'])) (a := (0, [])) rfl _).trans ?_
  have haccepted : (decide (trimStart [] ≠ []) || !Date.isValid ⟨year, month, day⟩ ||
      decide (23 < hour) || decide (59 < minute) || decide (60 < second)) = false := by
    simp only [hdate, Bool.or_eq_false_iff, decide_eq_false_iff_not]
    refine ⟨⟨⟨⟨by decide, rfl⟩, by omega⟩, by omega⟩, by omega⟩
  simp only [haccepted, Bool.false_eq_true, if_false, beq_iff_eq, Int.zero_mul, Int.sub_zero]

private theorem ofChars?_chars (t : Timestamp) : ofChars? t.chars = some t := by
  have hdate := Date.isValid_ofDayNumber (t.second / 86400)
  have hnumber := Date.dayNumber_ofDayNumber (t.second / 86400)
  have hcalendar := second_inCalendar t
  have hclock := clock_eq t
  have hshown := shownSecond_eq_iff t
  have hbound : (t.second % 86400).toNat < 86400 := by omega
  have hnanos : (t.nanos % 1000000000).toNat < 1000000000 := by omega
  have hstart : t.second / 86400 * 86400 + ((t.second % 86400).toNat : Int) = t.second := by omega
  have hwhole : t.second * 1000000000 + ((t.nanos % 1000000000).toNat : Int) = t.nanos := by
    unfold second
    omega
  have hhour : (t.second % 86400).toNat / 3600 < 24 := by omega
  have hminute : (t.second % 86400).toNat / 60 % 60 < 60 := by omega
  have hsecond : (t.second % 86400).toNat % 60 + (if t.leap = true then 1 else 0) ≤ 60 := by
    split_ifs <;> omega
  have hread := ofChars?_fields hdate hhour hminute hsecond hnanos
  simp only [hclock, hshown, hnumber, hstart, if_neg hcalendar, hwhole, make?_self] at hread
  simp only [chars, List.append_assoc, List.cons_append]
  exact hread

theorem parse?_text (t : Timestamp) : parse? t.text = some t := by
  rw [parse?, text, String.toList_ofList, ofChars?_chars]

end Timestamp

end Bureau
