import PageTemplate.Builtin.DateText
import PageTemplate.Proofs.Calendar
import PageTemplate.Proofs.Number

/-!
# PageTemplate.Proofs.DateText

The weekday that is named for a text that starts with a date. It is the weekday of that date for
every date from the year 100 on (`weekdayName_iff`). The years before are taken for years from 1900
on, whose weekdays are one or two days further on, so no date of theirs gets its own weekday.
-/

namespace PageTemplate

namespace Calendar

theorem readNat_padded (width n : Nat) : Text.readNat 10 (padded width n) = n := by
  have hzeros : ∀ k : Nat, (List.replicate k (unit '0')).foldl
      (fun n u => n * 10 + (CodeUnit.digitValue? u).getD 0) 0 = 0 := by
    intro k
    induction k with
    | zero => rfl
    | succ k ih => exact ih
  have hn := Text.readNat_ofNat n
  rw [Text.readNat] at hn
  rw [Text.readNat, padded, List.foldl_append, hzeros, hn]

theorem length_padded {width n : Nat} (hw : 0 < width) (h : n < 10 ^ width) :
    (padded width n).length = width := by
  have hlength : (Text.ofNat n).length ≤ width := by
    rw [Text.ofNat, List.length_map]
    exact (Nat.length_toDigits_le_iff (by decide) hw).2 h
  rw [padded, List.length_append, List.length_replicate]
  omega

theorem isDigit_of_mem_padded {width n : Nat} {u : CodeUnit} (h : u ∈ padded width n) :
    CodeUnit.isDigit u := by
  rcases List.mem_append.1 h with h | h
  · rw [List.eq_of_mem_replicate h]
    decide
  · exact Text.isDigit_of_mem_ofNat h

/-- Months and days inside their ranges do not roll over. -/
theorem rolledDayNumber_eq {month : Int} (hlow : 1 ≤ month) (hhigh : month ≤ 12)
    (year day : Int) :
    rolledDayNumber year month day = dayNumber year month day := by
  have hdiv : (month - 1).fdiv 12 = 0 := by
    rw [Int.fdiv_eq_ediv_of_nonneg _ (by decide)]
    omega
  have hmod : (month - 1).fmod 12 + 1 = month := by
    rw [Int.fmod_eq_emod_of_nonneg _ (by decide)]
    omega
  rw [rolledDayNumber, hdiv, hmod, Int.add_zero, dayNumber_eq hlow hhigh, dayNumber_eq hlow hhigh]
  omega

/-- From a date in the years 0 to 99 to the date 1900 years later. In January and February of the
year 0 its leap day lies between, and 1900 has none. -/
theorem dayNumber_later {year month : Int} (hyear : 0 ≤ year) (hyear' : year ≤ 99)
    (hlow : 1 ≤ month) (hhigh : month ≤ 12) (day : Int) :
    dayNumber (1900 + year) month day =
      dayNumber year month day + if year = 0 ∧ month ≤ 2 then 693961 else 693960 := by
  simp only [dayNumber_eq hlow hhigh, marchYear, daysOfYears]
  split_ifs <;> omega

namespace Date

/-- A date as `2024-03-10`. -/
def write (d : Date) : Text :=
  writeYear d.year ++ unit '-' :: padded 2 d.month.toNat ++ unit '-' :: padded 2 d.day.toNat

theorem exists_padded_two {n : Nat} (h : n < 100) : ∃ a b, padded 2 n = [a, b] :=
  List.length_eq_two.1 (length_padded (by decide) h)

theorem exists_padded_four {n : Nat} (h : n < 10000) : ∃ a b c e, padded 4 n = [a, b, c, e] := by
  have hlength := length_padded (show 0 < 4 by decide) h
  obtain ⟨a, t, ht⟩ := List.exists_cons_of_length_eq_add_one hlength
  rw [ht, List.length_cons, Nat.add_right_cancel_iff] at hlength
  obtain ⟨b, c, e, rfl⟩ := List.length_eq_three.1 hlength
  exact ⟨a, b, c, e, ht⟩

/-- A written date is read back. -/
theorem date?_write {d : Date} (hlow : 0 ≤ d.year) (hhigh : d.year ≤ 9999) :
    DateText.date? d.write = some (d.year.toNat, d.month.toNat, d.day.toNat) := by
  have hmonth := d.month_le
  have hday : d.day.toNat < 100 := by
    have hle := d.day_le
    have hbound := (daysIn_bounds d.year d.month).2
    omega
  obtain ⟨y, y1, y2, y3, hy⟩ := exists_padded_four (show d.year.toNat < 10000 by omega)
  obtain ⟨m, m1, hm⟩ := exists_padded_two (show d.month.toNat < 100 by omega)
  obtain ⟨k, k1, hk⟩ := exists_padded_two hday
  have hdigits : ([y, y1, y2, y3] ++ [m, m1] ++ [k, k1]).all CodeUnit.isDigit := by
    rw [← hy, ← hm, ← hk, List.all_eq_true]
    intro u hu
    rcases List.mem_append.1 hu with hu | hu
    · rcases List.mem_append.1 hu with hu | hu <;> exact isDigit_of_mem_padded hu
    · exact isDigit_of_mem_padded hu
  have hyear := readNat_padded 4 d.year.toNat
  have hmonth := readNat_padded 2 d.month.toNat
  have hday := readNat_padded 2 d.day.toNat
  rw [hy] at hyear
  rw [hm] at hmonth
  rw [hk] at hday
  rw [write, writeYear, if_pos ⟨hlow, hhigh⟩, hy, hm, hk]
  simp only [List.cons_append, List.nil_append, DateText.date?, beq_self_eq_true, Bool.true_and]
  simp only [List.cons_append, List.nil_append] at hdigits
  rw [if_pos hdigits, hyear, hmonth, hday]

theorem length_write {d : Date} (hlow : 0 ≤ d.year) (hhigh : d.year ≤ 9999) :
    d.write.length = 10 := by
  have hmonth := d.month_le
  have hle := d.day_le
  have hbound := (daysIn_bounds d.year d.month).2
  have hyear' := length_padded (show 0 < 4 by decide) (show d.year.toNat < 10 ^ 4 by omega)
  have hmonth' := length_padded (show 0 < 2 by decide) (show d.month.toNat < 10 ^ 2 by omega)
  have hday' := length_padded (show 0 < 2 by decide) (show d.day.toNat < 10 ^ 2 by omega)
  simp [write, writeYear, hlow, hhigh, hyear', hmonth', hday']

end Date

end Calendar

namespace DateText

open Calendar

/-- The name of a weekday. Sunday is 0. -/
def nameOf (n : Nat) : Text := Text.ofString (weekdayNames.getD n "")

theorem nameOf_injective {m n : Nat} (hm : m < 7) (hn : n < 7) (h : nameOf m = nameOf n) :
    m = n := by
  have hall : ∀ m < 7, ∀ n < 7, nameOf m = nameOf n → m = n := by decide
  exact hall m hm n hn h

variable {d : Date} {n : Nat}

/-- What is named for a text that starts with a date, whatever follows. -/
theorem weekdayName_write (hlow : 0 ≤ d.year) (hhigh : d.year ≤ 9999) (rest : Text) :
    weekdayName (d.write ++ rest) =
      .ok (nameOf (weekday (dayNumber (expandYear d.year) d.month d.day))) := by
  have htake : (d.write ++ rest).take 10 = d.write := by
    rw [← Date.length_write hlow hhigh, List.take_left]
  have hmonth := d.month_pos
  have hday := d.day_pos
  have hyear : ((d.year.toNat : Nat) : Int) = d.year := by omega
  have hmonth' : ((d.month.toNat : Nat) : Int) = d.month := by omega
  have hday' : ((d.day.toNat : Nat) : Int) = d.day := by omega
  simp only [weekdayName, htake, Date.date?_write hlow hhigh, hyear, hmonth', hday',
    rolledDayNumber_eq d.month_pos d.month_le, nameOf]

/-- From the year 100 on the weekday of the date is named. -/
theorem weekdayName_late (h : HasWeekday d n) (hlow : 100 ≤ d.year) (hhigh : d.year ≤ 9999)
    (rest : Text) : weekdayName (d.write ++ rest) = .ok (nameOf n) := by
  have hyear : expandYear d.year = d.year := if_neg (by omega)
  rw [weekdayName_write (by omega) hhigh, hyear, h.eq_weekday, Date.number]

/-- In the years before, another weekday is named: the next one, or in the first two months of the
year 0 the one after that. -/
theorem weekdayName_early (h : HasWeekday d n) (hlow : 0 ≤ d.year) (hhigh : d.year ≤ 99)
    (rest : Text) : weekdayName (d.write ++ rest) =
      .ok (nameOf ((n + if d.year = 0 ∧ d.month ≤ 2 then 2 else 1) % 7)) := by
  have hyear : expandYear d.year = 1900 + d.year := if_pos ⟨hlow, hhigh⟩
  rw [weekdayName_write hlow (by omega), hyear,
    dayNumber_later hlow hhigh d.month_pos d.month_le, h.eq_weekday, Date.number]
  have hmod : ∀ k : Nat, (k + 693961) % 7 = (k + 2) % 7 ∧ (k + 693960) % 7 = (k + 1) % 7 := by
    omega
  split
  · rw [← Nat.cast_ofNat (n := 693961), weekday_add, (hmod _).1]
  · rw [← Nat.cast_ofNat (n := 693960), weekday_add, (hmod _).2]

/-- **The weekday of a date is named from the year 100 on, and only then.** -/
theorem weekdayName_iff (h : HasWeekday d n) (hlow : 0 ≤ d.year) (hhigh : d.year ≤ 9999)
    (rest : Text) : weekdayName (d.write ++ rest) = .ok (nameOf n) ↔ 100 ≤ d.year := by
  constructor
  · intro hname
    by_contra hearly
    rw [weekdayName_early h hlow (by omega)] at hname
    have hlt : n < 7 := h.eq_weekday ▸ weekday_lt _
    have heq := nameOf_injective (Nat.mod_lt _ (by decide)) hlt (Except.ok.inj hname)
    split at heq <;> omega
  · intro hlate
    exact weekdayName_late h hlate hhigh rest

example : weekdayName "2024-03-09T10:00:00Z" = .ok "Saturday" := rfl

/-- The first day of the year 0 was a Saturday. -/
example : weekdayName "0000-01-01" = .ok "Monday" := rfl

end DateText

end PageTemplate
