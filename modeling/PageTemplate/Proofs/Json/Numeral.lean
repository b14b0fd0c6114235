import PageTemplate.Json
import PageTemplate.Number.Format
import PageTemplate.Proofs.Number

/-!
# PageTemplate.Proofs.Json.Numeral

The numbers of the JSON grammar, given by their parts. A numeral is read as the number that its
parts make, whatever stands behind it, and every finite number is written as a numeral.
-/

namespace PageTemplate

namespace Json

open CodeUnit

/-- What may stand behind a value: nothing, or a mark that ends an item or a member. -/
def Ends (rest : Text) : Prop :=
  ∀ u ∈ rest.head?, u = unit ',' ∨ u = unit ']' ∨ u = unit '\x7d'

theorem ends_nil : Ends [] := by
  intro u hu
  cases hu

theorem ends_cons {u : CodeUnit} (h : u = unit ',' ∨ u = unit ']' ∨ u = unit '\x7d')
    (rest : Text) : Ends (u :: rest) := by
  intro v hv
  cases hv
  exact h

/-- A property that the three marks have is one of every unit behind a value. -/
theorem Ends.head {rest : Text} (h : Ends rest) {p : CodeUnit → Prop} (hcomma : p (unit ','))
    (hbracket : p (unit ']')) (hbrace : p (unit '\x7d')) : ∀ u ∈ rest.head?, p u := by
  intro u hu
  rcases h u hu with rfl | rfl | rfl
  · exact hcomma
  · exact hbracket
  · exact hbrace

/-- An unsigned number of the grammar: the digits before the point and behind it, the sign of the
exponent and its digits. -/
structure Numeral where
  whole : Text
  fraction : Text
  exponent : Option (Bool × Text)
  whole_digits : ∀ u ∈ whole, isDigit u
  whole_ne : whole ≠ []
  leading : whole.length = 1 ∨ whole.head? ≠ some (unit '0')
  fraction_digits : ∀ u ∈ fraction, isDigit u
  exponent_digits : ∀ e ∈ exponent, e.2 ≠ [] ∧ ∀ u ∈ e.2, isDigit u

namespace Numeral

/-- A fraction behind its point; without digits there is none. -/
def fractionText (n : Numeral) : Text :=
  if n.fraction.isEmpty then [] else unit '.' :: n.fraction

/-- An exponent with its mark and its sign. -/
def exponentText (n : Numeral) : Text :=
  match n.exponent with
  | none => []
  | some (negative, digits) => unit 'e' :: unit (if negative then '-' else '+') :: digits

def text (n : Numeral) : Text := n.whole ++ (n.fractionText ++ n.exponentText)

def scale (n : Numeral) : Int :=
  match n.exponent with
  | none => 0
  | some (negative, digits) =>
    if negative then -(Text.readNat 10 digits : Int) else Text.readNat 10 digits

/-- The number that a numeral is read as. -/
def value (n : Numeral) : Float :=
  Number.ofDecimal (Text.readNat 10 (n.whole ++ n.fraction)) (n.scale - n.fraction.length)

/-- The units that numerals are written with, and the minus sign. -/
def isNumeralUnit (u : CodeUnit) : Bool :=
  isDigit u || u == unit '.' || u == unit 'e' || u == unit '+' || u == unit '-'

theorem isNumeralUnit_of_isDigit {u : CodeUnit} (h : isDigit u) : isNumeralUnit u := by
  simp [isNumeralUnit, h]

theorem isNumeralUnit_of_mem_text {n : Numeral} {u : CodeUnit} (h : u ∈ n.text) :
    isNumeralUnit u := by
  simp only [text, List.mem_append] at h
  rcases h with hw | hf | he
  · exact isNumeralUnit_of_isDigit (n.whole_digits u hw)
  · unfold fractionText at hf
    split at hf
    · cases hf
    · rcases List.mem_cons.1 hf with rfl | hf
      · decide
      · exact isNumeralUnit_of_isDigit (n.fraction_digits u hf)
  · unfold exponentText at he
    split at he
    · cases he
    · rename_i negative digits hn
      simp only [List.mem_cons] at he
      rcases he with rfl | rfl | he
      · decide
      · cases negative <;> decide
      · exact isNumeralUnit_of_isDigit ((n.exponent_digits _ (by rw [hn]; rfl)).2 u he)

/-- Behind the digits of a fraction no digit follows. -/
theorem head_exponentText (n : Numeral) {rest : Text} (hr : Ends rest) :
    ∀ u ∈ (n.exponentText ++ rest).head?, isDigit u = false ∧ u ≠ unit '.' := by
  unfold exponentText
  split
  · exact hr.head (by decide) (by decide) (by decide)
  · intro u hu
    cases hu
    decide

/-- Behind the digits of the whole part no digit follows. -/
theorem head_fractionText (n : Numeral) {rest : Text} (hr : Ends rest) :
    ∀ u ∈ (n.fractionText ++ (n.exponentText ++ rest)).head?, isDigit u = false := by
  unfold fractionText
  split
  · exact fun u hu => (n.head_exponentText hr u hu).1
  · intro u hu
    cases hu
    decide

theorem scanExponent_exponentText (n : Numeral) {rest : Text} (hr : Ends rest) :
    Number.scanExponent (n.exponentText ++ rest) = (n.scale, rest) := by
  unfold exponentText scale
  split
  · cases rest with
    | nil => rfl
    | cons u rest =>
      have hmark : (asciiLower u == unit 'e') = false :=
        hr.head (p := fun u => (asciiLower u == unit 'e') = false) (by decide) (by decide)
          (by decide) u rfl
      simp [Number.scanExponent, hmark]
  · rename_i negative digits hn
    obtain ⟨hne, hdigits⟩ := n.exponent_digits (negative, digits) (by rw [hn]; rfl)
    have hend : ∀ u ∈ rest.head?, isDigit u = false :=
      hr.head (by decide) (by decide) (by decide)
    have htake := Text.takeWhile_append hdigits hend
    have hdrop := Text.dropWhile_append hdigits hend
    have hempty : digits.isEmpty = false := by simpa using hne
    have hmark : (asciiLower (unit 'e') == unit 'e') = true := by decide
    have hplus : (unit '+' == unit '-') = false := by decide
    cases negative <;>
      simp [Number.scanExponent, hmark, hplus, htake, hdrop, hempty]

/-- The digits of a numeral and what stands behind them. -/
theorem scan_parts (n : Numeral) {rest : Text} (hr : Ends rest) :
    (n.text ++ rest).takeWhile isDigit = n.whole ∧
      (n.text ++ rest).dropWhile isDigit = n.fractionText ++ (n.exponentText ++ rest) := by
  have hend := n.head_fractionText hr
  have happend : n.text ++ rest = n.whole ++ (n.fractionText ++ (n.exponentText ++ rest)) := by
    simp [text]
  rw [happend]
  exact ⟨Text.takeWhile_append n.whole_digits hend, Text.dropWhile_append n.whole_digits hend⟩

theorem scanDecimal?_text (n : Numeral) {rest : Text} (hr : Ends rest) :
    Number.scanDecimal? (n.text ++ rest) = some (n.value, rest) := by
  obtain ⟨htake, hdrop⟩ := n.scan_parts hr
  have hexponent := n.scanExponent_exponentText hr
  have hend := n.head_exponentText hr
  have hwhole : n.whole.isEmpty = false := by simpa using n.whole_ne
  by_cases hf : n.fraction = []
  · rw [show n.fractionText = [] by simp [fractionText, hf], List.nil_append] at hdrop
    simp only [Number.scanDecimal?, htake, hdrop, hwhole, Bool.false_and, value, hf]
    cases hrest : n.exponentText ++ rest with
    | nil => simp only [← hrest, hexponent, Bool.false_eq_true, if_false]
    | cons u more =>
      have hpoint : (u == unit '.') = false := by
        simpa using (hend u (by rw [hrest]; rfl)).2
      simp only [hpoint, ← hrest, hexponent, Bool.false_eq_true, if_false]
  · have hdigits : ∀ u ∈ (n.exponentText ++ rest).head?, isDigit u = false :=
      fun u hu => (hend u hu).1
    rw [show n.fractionText = unit '.' :: n.fraction by simp [fractionText, hf],
      List.cons_append] at hdrop
    simp only [Number.scanDecimal?, htake, hdrop, hwhole, Bool.false_and, Bool.false_eq_true,
      if_false, beq_self_eq_true, if_true, Text.takeWhile_append n.fraction_digits hdigits,
      Text.dropWhile_append n.fraction_digits hdigits, hexponent, value]

/-- Whether an exponent, if one begins here, has digits. -/
def exponentOk (t : Text) : Bool :=
  match t with
  | e :: more =>
    if asciiLower e == unit 'e' then
      let more :=
        match more with
        | s :: digits => if s == unit '+' || s == unit '-' then digits else more
        | [] => more
      !(more.takeWhile isDigit).isEmpty
    else true
  | [] => true

theorem exponentOk_exponentText (n : Numeral) {rest : Text} (hr : Ends rest) :
    exponentOk (n.exponentText ++ rest) = true := by
  unfold exponentText
  split
  · cases rest with
    | nil => rfl
    | cons u rest =>
      have hmark : (asciiLower u == unit 'e') = false :=
        hr.head (p := fun u => (asciiLower u == unit 'e') = false) (by decide) (by decide)
          (by decide) u rfl
      simp [exponentOk, hmark]
  · rename_i negative digits hn
    obtain ⟨hne, hdigits⟩ := n.exponent_digits (negative, digits) (by rw [hn]; rfl)
    have htake : (digits ++ rest).takeWhile isDigit = digits :=
      Text.takeWhile_append hdigits (hr.head (by decide) (by decide) (by decide))
    have hsign : (unit (if negative then '-' else '+') == unit '+' ||
        unit (if negative then '-' else '+') == unit '-') = true := by
      cases negative <;> decide
    have hmark : (asciiLower (unit 'e') == unit 'e') = true := by decide
    simp only [exponentOk, List.cons_append, hmark, hsign, if_true, htake]
    simpa using hne

theorem startsNumber_text (n : Numeral) {rest : Text} (hr : Ends rest) :
    startsNumber (n.text ++ rest) = true := by
  obtain ⟨htake, hdrop⟩ := n.scan_parts hr
  have hend := n.head_exponentText hr
  have hexponent := n.exponentOk_exponentText hr
  have hwhole : n.whole.isEmpty = false := by simpa using n.whole_ne
  have hleading : (n.whole.length == 1 || n.whole.head? != some (unit '0')) = true := by
    rcases n.leading with h | h
    · simp [h]
    · simp [h]
  by_cases hf : n.fraction = []
  · rw [show n.fractionText = [] by simp [fractionText, hf], List.nil_append] at hdrop
    simp only [startsNumber, htake, hdrop, hwhole, hleading, Bool.not_false, Bool.true_and]
    cases hrest : n.exponentText ++ rest with
    | nil => rfl
    | cons u more =>
      have hpoint : (u == unit '.') = false := by
        simpa using (hend u (by rw [hrest]; rfl)).2
      rw [hrest] at hexponent
      simp only [hpoint, Bool.false_eq_true, if_false, Bool.true_and]
      exact hexponent
  · have hdigits : ∀ u ∈ (n.exponentText ++ rest).head?, isDigit u = false :=
      fun u hu => (hend u hu).1
    have hfraction : n.fraction.isEmpty = false := by simpa using hf
    rw [show n.fractionText = unit '.' :: n.fraction by simp [fractionText, hf],
      List.cons_append] at hdrop
    simp only [startsNumber, htake, hdrop, hwhole, hleading, Bool.not_false, Bool.true_and,
      beq_self_eq_true, if_true, Text.takeWhile_append n.fraction_digits hdigits,
      Text.dropWhile_append n.fraction_digits hdigits, hfraction]
    exact hexponent

/-- The first unit of a numeral is a digit. -/
theorem text_eq_cons (n : Numeral) : ∃ u more, n.text = u :: more ∧ isDigit u := by
  cases hw : n.whole with
  | nil => exact absurd hw n.whole_ne
  | cons u more =>
    refine ⟨u, more ++ (n.fractionText ++ n.exponentText), by rw [text, hw]; rfl, ?_⟩
    exact n.whole_digits u (by rw [hw]; exact List.mem_cons_self)

theorem readNumber?_text (n : Numeral) {rest : Text} (hr : Ends rest) :
    readNumber? (n.text ++ rest) = some (n.value, rest) := by
  obtain ⟨u, more, hu, hd⟩ := n.text_eq_cons
  have hstarts := n.startsNumber_text hr
  have hscan := n.scanDecimal?_text hr
  have hminus : (u == unit '-') = false := by
    rw [beq_eq_false_iff_ne]
    rintro rfl
    exact absurd hd (by decide)
  rw [hu] at hstarts hscan ⊢
  rw [List.cons_append] at hstarts hscan ⊢
  simp only [readNumber?, hminus, Bool.false_eq_true, if_false, hstarts, hscan, if_true]

theorem readNumber?_negative (n : Numeral) {rest : Text} (hr : Ends rest) :
    readNumber? (unit '-' :: n.text ++ rest) = some (-n.value, rest) := by
  simp only [readNumber?, List.cons_append, beq_self_eq_true, if_true, n.startsNumber_text hr,
    n.scanDecimal?_text hr, Option.map_some]

end Numeral

end Json

namespace Text

/-- The digits of a number other than zero do not begin with a zero. -/
theorem head?_ofNat {n : Nat} (h : 0 < n) : (ofNat n).head? ≠ some (unit '0') := by
  induction n using Nat.strong_induction_on with
  | _ n ih =>
    by_cases hlt : n < 10
    · rw [ofNat, Nat.toDigits_of_lt_base hlt]
      interval_cases n <;> decide
    · have hdiv : 0 < n / 10 := by omega
      have hhead := ih (n / 10) (by omega) hdiv
      have hne := ofNat_ne_nil (n / 10)
      rw [ofNat] at hhead hne ⊢
      rw [Nat.toDigits_of_base_le (by decide) (by omega), List.map_append,
        List.head?_append_of_ne_nil _ hne]
      exact hhead

end Text

namespace Json.Numeral

open CodeUnit

/-- The numeral of a whole number. -/
def ofNat (n : Nat) : Numeral where
  whole := Text.ofNat n
  fraction := []
  exponent := none
  whole_digits _ := Text.isDigit_of_mem_ofNat
  whole_ne := Text.ofNat_ne_nil n
  leading := by
    rcases Nat.eq_zero_or_pos n with rfl | h
    · exact .inl (by decide)
    · exact .inr (Text.head?_ofNat h)
  fraction_digits := by simp
  exponent_digits := by simp

@[simp] theorem text_ofNat (n : Nat) : (ofNat n).text = Text.ofNat n := by
  simp [text, ofNat, fractionText, exponentText]

end Json.Numeral

namespace Number

open CodeUnit Json

theorem isDigit_of_mem_zeros {k : Nat} {u : CodeUnit} (h : u ∈ zeros k) : isDigit u := by
  rw [List.eq_of_mem_replicate h]
  decide

/-- A positive decimal is written as a numeral, with or without a point and an exponent. -/
theorem exists_numeral_write {d : Decimal} (h : 0 < d.digits) :
    ∃ n : Numeral, d.write layout = n.text := by
  have hdigits : ∀ u ∈ Text.ofNat d.digits, isDigit u := fun u => Text.isDigit_of_mem_ofNat
  have hhead := Text.head?_ofNat h
  have hne := Text.ofNat_ne_nil d.digits
  simp only [Decimal.write]
  generalize Text.ofNat d.digits = digits at hdigits hhead hne
  generalize hposition : (digits.length + d.exponent : Int) = position
  have htake : ∀ k, ∀ u ∈ digits.take k, isDigit u :=
    fun k u hu => hdigits u (List.mem_of_mem_take hu)
  have hdrop : ∀ k, ∀ u ∈ digits.drop k, isDigit u :=
    fun k u hu => hdigits u (List.mem_of_mem_drop hu)
  have htakeNe : ∀ k, 0 < k → digits.take k ≠ [] := by
    intro k hk
    simp only [ne_eq, List.take_eq_nil_iff, not_or]
    exact ⟨by omega, hne⟩
  have htakeHead : ∀ k, 0 < k → (digits.take k).head? ≠ some (unit '0') := by
    intro k hk
    rwa [List.head?_take, if_neg (by omega)]
  have hzeros : ∀ k, ∀ u ∈ zeros k, isDigit u := fun k u => isDigit_of_mem_zeros
  split
  · -- All digits before the point.
    refine ⟨⟨digits ++ zeros (position - digits.length).toNat, [], none,
      by simpa [or_imp, forall_and] using ⟨hdigits, hzeros _⟩, by simp [hne], .inr ?_, by simp,
      by simp⟩, by simp [Numeral.text, Numeral.fractionText, Numeral.exponentText]⟩
    rwa [List.head?_append_of_ne_nil _ hne]
  split
  · -- The point among the digits.
    rename_i hlarge hpoint
    simp only [Bool.and_eq_true, decide_eq_true_eq, not_and] at hlarge hpoint
    have hpos : 0 < position.toNat := by omega
    have hfraction : digits.drop position.toNat ≠ [] := by
      simp only [ne_eq, List.drop_eq_nil_iff]
      omega
    refine ⟨⟨digits.take position.toNat, digits.drop position.toNat, none, htake _,
      htakeNe _ hpos, .inr (htakeHead _ hpos), hdrop _, by simp⟩, ?_⟩
    simp [Numeral.text, Numeral.fractionText, Numeral.exponentText, hfraction]
  split
  · -- Zeros behind the point, then the digits.
    refine ⟨⟨[unit '0'], zeros (-position).toNat ++ digits, none, by simp; decide, by simp,
      .inl rfl, by simpa [or_imp, forall_and] using ⟨hzeros _, hdigits⟩, by simp⟩, ?_⟩
    simp [Numeral.text, Numeral.fractionText, Numeral.exponentText, hne]
  · -- One digit before the point, and an exponent.
    refine ⟨⟨digits.take 1, digits.drop 1,
      some (decide (position - 1 < 0), Text.ofNat (position - 1).natAbs), htake 1,
      htakeNe 1 (by decide), .inr (htakeHead 1 (by decide)), hdrop 1, ?_⟩, ?_⟩
    · rintro e ⟨⟩
      exact ⟨Text.ofNat_ne_nil _, fun u => Text.isDigit_of_mem_ofNat⟩
    · have hsign : (if 0 ≤ position - 1 then '+' else '-') =
          if decide (position - 1 < 0) then '-' else '+' := by
        by_cases hlt : position - 1 < 0
        · rw [if_neg (by omega), if_pos (by simpa using hlt)]
        · rw [if_pos (by omega), if_neg (by simpa using hlt)]
      rw [hsign]
      cases digits with
      | nil => exact absurd rfl hne
      | cons u more =>
        cases more with
        | nil => simp [Numeral.text, Numeral.fractionText, Numeral.exponentText, layout]
        | cons v more =>
          have hcount : (((u :: v :: more).length : Int) == 1) = false := by
            rw [beq_eq_false_iff_ne]
            simp only [List.length_cons]
            omega
          rw [hcount]
          simp [Numeral.text, Numeral.fractionText, Numeral.exponentText, layout]

/-- Dropping zeros leaves something of a number other than zero. -/
theorem Decimal.normalize_pos {fuel : Nat} {d : Decimal} (h : 0 < d.digits) :
    0 < (d.normalize fuel).digits := by
  induction fuel generalizing d with
  | zero => exact h
  | succ fuel ih =>
    rw [Decimal.normalize]
    split
    · rename_i hten
      simp only [bne_iff_ne, ne_eq, Bool.and_eq_true, beq_iff_eq] at hten
      refine ih ?_
      change 0 < d.digits / 10
      omega
    · exact h

theorem gridPoint?_pos {low middle high : Ratio} {closed : Bool} {g : Int} {n : Nat}
    (h : gridPoint? low middle high closed g = some n) : 0 < n := by
  unfold gridPoint? at h
  extract_lets m below above l h' okBelow okAbove twice belowNearer at h
  have hbelow : okBelow = true → 0 < below := by
    intro hok
    exact of_decide_eq_true (Bool.and_eq_true_iff.1 hok).1
  have habove : 0 < above := Nat.succ_pos below
  split at h
  · rename_i hboth
    cases h
    split
    · exact hbelow (Bool.and_eq_true_iff.1 hboth).1
    · exact habove
  split at h
  · rename_i hok
    rw [← Option.some.inj h]
    exact hbelow hok
  split at h
  · rw [← Option.some.inj h]
    exact habove
  · cases h

theorem shortest_pos (x : Float) : 0 < (shortest x).digits := by
  by_cases hzero : (magnitude x).1 = 0
  · -- Only the two zeros have no magnitude.
    have hmagnitude : magnitude x = (0, -1074) := by
      simp only [magnitude, Nat.pow_eq] at hzero ⊢
      split at hzero
      · rename_i he
        rw [if_pos he]
        simpa using hzero
      · simp only at hzero
        omega
    simp only [shortest, hmagnitude]
    decide +kernel
  · refine Decimal.normalize_pos ?_
    generalize hhit : List.findSome? _ (List.range 17) = hit
    cases hit with
    | none => exact Nat.pos_of_ne_zero hzero
    | some d =>
      obtain ⟨i, _, hi⟩ := List.exists_of_findSome?_eq_some hhit
      obtain ⟨n, hn, rfl⟩ := Option.map_eq_some_iff.1 hi
      exact gridPoint?_pos hn

/-- A finite number is written as a numeral, behind a minus sign if it is negative. -/
theorem exists_numeral_format {x : Float} (hnan : x.isNaN = false) (hinf : x.isInf = false) :
    ∃ n : Numeral, format x = n.text ∨ format x = unit '-' :: n.text := by
  simp only [format, hnan, hinf, Bool.false_eq_true, if_false]
  split
  · cases (toInt? x).getD 0 with
    | ofNat k => exact ⟨.ofNat k, .inl (Numeral.text_ofNat k).symm⟩
    | negSucc k => exact ⟨.ofNat (k + 1), .inr (by rw [Numeral.text_ofNat]; rfl)⟩
  · obtain ⟨n, hn⟩ := exists_numeral_write (shortest_pos x)
    refine ⟨n, ?_⟩
    split
    · exact .inr (by rw [hn])
    · exact .inl hn

end Number

end PageTemplate
