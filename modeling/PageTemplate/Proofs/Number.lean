import PageTemplate.Number.Read
import PageTemplate.Proofs.Text
import Mathlib

/-!
# PageTemplate.Proofs.Number

Whole numbers below 2^53. Each has an exact form, so it is its own whole part, and its decimal
digits are read as the number itself.
-/

namespace PageTemplate

namespace Number

open Float.Model (Format totalExponent)
open Float.Model.UnpackedFloat

/-- A mantissa of 53 bits at an exponent that a number in its normal form can have. -/
structure IsNormal (m : Nat) (e : Int) : Prop where
  low : 2 ^ 52 ≤ m
  high : m < 2 ^ 53
  above : -1074 < e
  below : e < 971

theorem IsNormal.log2 {m : Nat} {e : Int} (h : IsNormal m e) : m.log2 = 52 := by
  have hpos : m ≠ 0 := by have := h.low; omega
  rw [Nat.log2_eq_iff hpos]
  exact ⟨h.low, h.high⟩

theorem IsNormal.pos {m : Nat} {e : Int} (h : IsNormal m e) : 0 < m := by
  have := h.low
  omega

theorem pack_normal {m : Nat} {e : Int} (h : IsNormal m e) :
    pack Format.binary64 (.finite .positive m e h.pos) =
      packComponents Format.binary64 .positive (BitVec.ofNat 11 (e + 1075).toNat)
        (BitVec.ofNat 52 m) := by
  have := h.above
  have := h.below
  have hsmall : ¬ 2 ^ 11 ≤ (e + 1075).toNat + 1 := by omega
  have hbias : (e + (Format.binary64.exponentBias : Int) +
      (Format.binary64.mantissaBitsWithoutImplicit : Int)).toNat = (e + 1075).toNat := by
    simp only [Format.exponentBias]
    norm_num
    omega
  have hbits : m.log2 + 1 = Format.binary64.mantissaBits := by rw [h.log2]; rfl
  simp only [pack, hbias]
  rw [if_neg hsmall, if_pos hbits]

theorem unpackSign_packComponents {spec : Format} {sign exponent mantissa} :
    unpackSign (packComponents spec sign exponent mantissa) = sign.toBitVec := by
  ext i hi
  have : i = 0 := by omega
  subst this
  simp [unpackSign, packComponents, BitVec.getLsbD_eq_getElem, BitVec.getLsbD_append,
    BitVec.getElem_append]

theorem unpack_normal {m : Nat} {e : Int} (h : IsNormal m e) :
    unpack Format.binary64 (pack Format.binary64 (.finite .positive m e h.pos)) =
      .finite .positive m e h.pos := by
  have := h.above
  have := h.below
  have hlow := h.low
  have hhigh := h.high
  have hexponent : (BitVec.ofNat 11 (e + 1075).toNat).toNat = (e + 1075).toNat := by
    rw [BitVec.toNat_ofNat, Nat.mod_eq_of_lt (by omega)]
  have hnotMax : BitVec.ofNat 11 (e + 1075).toNat ≠ -1#11 := by
    intro heq
    have := congrArg BitVec.toNat heq
    rw [hexponent] at this
    have hmax : (-1#11).toNat = 2047 := by decide
    omega
  have hnotZero : BitVec.ofNat 11 (e + 1075).toNat ≠ 0#11 := by
    intro heq
    have := congrArg BitVec.toNat heq
    rw [hexponent] at this
    have hzero : (0#11).toNat = 0 := by decide
    omega
  have hmantissa : (1#1 ++ BitVec.ofNat 52 m).toNat = m := by
    rw [BitVec.toNat_append]
    simp only [BitVec.toNat_ofNat]
    rw [show 1 % 2 ^ 1 = 1 from rfl, Nat.shiftLeft_eq, Nat.one_mul]
    have := Nat.two_pow_add_eq_or_of_lt (i := 52) (b := m % 2 ^ 52) (by omega) 1
    rw [Nat.mul_one] at this
    omega
  rw [pack_normal h]
  simp only [unpack, unpackExponent_packComponents, unpackMantissa_packComponents,
    unpackSign_packComponents]
  rw [if_neg hnotMax, if_neg hnotZero]
  congr 1
  rw [hexponent]
  simp only [Format.exponentBias]
  norm_num
  omega

theorem shiftRight_exact (q j : Nat) :
    (⟨q * 2 ^ j, false, false⟩ : ExtendedMantissa) >>> j = ⟨q, false, false⟩ := by
  change Nat.repeat ExtendedMantissa.shiftRightOne j ⟨q * 2 ^ j, false, false⟩ = _
  induction j generalizing q with
  | zero => simp [Nat.repeat]
  | succ j ih =>
    rw [Nat.repeat, show q * 2 ^ (j + 1) = 2 * q * 2 ^ j by rw [Nat.pow_succ]; ring, ih]
    simp [ExtendedMantissa.shiftRightOne]

theorem shiftToTarget_exact {q j : Nat} {e : Int} (h : IsNormal q (e + j)) :
    shiftToTargetExponent Format.binary64 (q * 2 ^ j) e .exact =
      (⟨q, false, false⟩, e + j) := by
  have habove := h.above
  have hlog : (q * 2 ^ j).log2 = 52 + j := by
    rw [Nat.log2_eq_iff (Nat.mul_ne_zero (Nat.pos_iff_ne_zero.1 h.pos) (Nat.two_pow_pos j).ne')]
    have := h.low
    have := h.high
    constructor
    · rw [Nat.pow_add]
      exact Nat.mul_le_mul_right _ h.low
    · rw [show 52 + j + 1 = 53 + j by omega, Nat.pow_add 2 53]
      exact Nat.mul_lt_mul_of_pos_right h.high (Nat.two_pow_pos j)
  have htarget : Format.binary64.targetExponent (totalExponent (q * 2 ^ j) e) = e + j := by
    simp only [Format.targetExponent, totalExponent, hlog, Format.mantissaBits, Format.minExponent]
    norm_num
    omega
  simp only [shiftToTargetExponent, htarget, shiftToExponent,
    ExtendedMantissa.ofMantissaAndAccuracy]
  rw [show (e + (j : Int) - e).toNat = j by omega, shiftRight_exact]

theorem round_exact {q j : Nat} {e : Int} (h : IsNormal q (e + j)) :
    roundWithAccuracy Format.binary64 .positive (q * 2 ^ j) e .exact =
      .finite .positive q (e + j) h.pos := by
  have hagain : shiftToTargetExponent Format.binary64 q (e + j) .exact =
      (⟨q, false, false⟩, e + j) := by
    have := shiftToTarget_exact (q := q) (j := 0) (e := e + j) (by simpa using h)
    simpa using this
  simp only [roundWithAccuracy, shiftToTarget_exact h, ExtendedMantissa.roundedMantissa,
    ExtendedMantissa.accuracy, Accuracy.roundToNearestEven, hagain]
  rw [dif_neg (Nat.pos_iff_ne_zero.1 h.pos)]

/-- The mantissa of 53 bits and the exponent of a whole number. -/
theorem isNormal_of_lt {n : Nat} (hpos : 0 < n) (h : n < 2 ^ 53) :
    IsNormal (n * 2 ^ (52 - n.log2)) ((n.log2 : Int) - 52) := by
  have hlog : n.log2 < 53 := (Nat.log2_lt (by omega)).2 h
  have hlow := Nat.log2_self_le (n := n) (by omega)
  have hhigh := Nat.lt_log2_self (n := n)
  refine ⟨?_, ?_, by omega, by omega⟩
  · calc 2 ^ 52 = 2 ^ n.log2 * 2 ^ (52 - n.log2) := by rw [← Nat.pow_add]; congr 1; omega
      _ ≤ n * 2 ^ (52 - n.log2) := Nat.mul_le_mul_right _ hlow
  · calc n * 2 ^ (52 - n.log2) < 2 ^ (n.log2 + 1) * 2 ^ (52 - n.log2) :=
          Nat.mul_lt_mul_of_pos_right hhigh (Nat.two_pow_pos _)
      _ = 2 ^ 53 := by rw [← Nat.pow_add]; congr 1; omega

theorem normalize_whole {n : Nat} (hpos : 0 < n) (h : n < 2 ^ 53) :
    normalize Format.binary64 n 0 .positive =
      .finite .positive (n * 2 ^ (52 - n.log2)) ((n.log2 : Int) - 52)
        (isNormal_of_lt hpos h).pos := by
  have hn := isNormal_of_lt hpos h
  have hlog : n.log2 < 53 := (Nat.log2_lt (by omega)).2 h
  have hcompare : compare (n : Int) 0 = .gt := by
    rw [compare_gt_iff_gt]
    omega
  have htarget : Format.binary64.targetExponent (totalExponent n 0) = (n.log2 : Int) - 52 := by
    simp only [Format.targetExponent, totalExponent, Format.mantissaBits, Format.minExponent]
    norm_num
    omega
  have hshift : (0 - ((n.log2 : Int) - 52)).toNat = 52 - n.log2 := by omega
  have hround := round_exact (q := n * 2 ^ (52 - n.log2)) (j := 0) (e := (n.log2 : Int) - 52)
    (by simpa using hn)
  have hexponent : (0 : Int) - ((52 - n.log2 : Nat) : Int) = (n.log2 : Int) - 52 := by omega
  simp only [Float.Model.UnpackedFloat.normalize, hcompare, Float.Model.UnpackedFloat.round,
    Int.toNat_natCast, htarget, decreaseExponent, hshift, Nat.shiftLeft_eq, hexponent]
  simpa using hround

theorem ofNat_model {n : Nat} (hpos : 0 < n) (h : n < 2 ^ 53) :
    (ofNat n).toModel = .pack (.finite .positive (n * 2 ^ (52 - n.log2)) ((n.log2 : Int) - 52)
      (isNormal_of_lt hpos h).pos) := by
  have hn := isNormal_of_lt hpos h
  have hwhole : (n.toUInt64.toFloat).toModel =
      .pack (.finite .positive (n * 2 ^ (52 - n.log2)) ((n.log2 : Int) - 52) hn.pos) := by
    have htoNat : n.toUInt64.toNat = n := by
      have := UInt64.toNat_ofNat' (n := n)
      rw [Nat.mod_eq_of_lt (by omega)] at this
      exact this
    change Float.Model.pack (normalize Format.binary64 n.toUInt64.toNat 0 .positive) = _
    rw [htoNat, normalize_whole hpos h]
  have hone : (Float.ofBits 0x3FF0000000000000).toModel.unpack =
      .finite .positive (2 ^ 52) (-52) (by decide) := by rfl
  have hfast : ofNat n = n.toUInt64.toFloat * Float.ofBits 0x3FF0000000000000 := by
    rw [ofNat, Float.ofScientific, dif_pos ⟨h, by decide⟩]
    rfl
  have hunpack : (n.toUInt64.toFloat).toModel.unpack =
      .finite .positive (n * 2 ^ (52 - n.log2)) ((n.log2 : Int) - 52) hn.pos := by
    rw [hwhole]
    exact unpack_normal hn
  rw [hfast]
  change Float.Model.pack (mul Format.binary64 _ _) = _
  rw [hunpack, hone]
  have hround := round_exact (q := n * 2 ^ (52 - n.log2)) (j := 52)
    (e := (n.log2 : Int) - 52 + -52) (by simpa using hn)
  have hmul : mul Format.binary64
      (.finite .positive (n * 2 ^ (52 - n.log2)) ((n.log2 : Int) - 52) hn.pos)
      (.finite .positive (2 ^ 52) (-52) (by decide)) =
      .finite .positive (n * 2 ^ (52 - n.log2)) ((n.log2 : Int) - 52 + -52 + (52 : Nat))
        hn.pos := by
    rw [← hround]
    rfl
  rw [hmul]
  congr 2
  omega

/-- The parts of the bits of a whole number below 2^53. -/
theorem toBits_ofNat {n : Nat} (hpos : 0 < n) (h : n < 2 ^ 53) :
    (ofNat n).toBits.toNat =
      (n.log2 + 1023) * 2 ^ 52 + (n * 2 ^ (52 - n.log2) - 2 ^ 52) := by
  have hn := isNormal_of_lt hpos h
  have hlog : n.log2 < 53 := (Nat.log2_lt (by omega)).2 h
  have hlow := hn.low
  have hhigh := hn.high
  have hmodel := ofNat_model hpos h
  change (ofNat n).toModel.toBits.toNat = _
  rw [hmodel]
  change (pack Format.binary64 _).toNat = _
  rw [pack_normal hn]
  have hexponent : ((n.log2 : Int) - 52 + 1075).toNat = n.log2 + 1023 := by omega
  change (0#1 ++ BitVec.ofNat 11 ((n.log2 : Int) - 52 + 1075).toNat ++
    BitVec.ofNat 52 (n * 2 ^ (52 - n.log2))).toNat = _
  rw [hexponent, BitVec.toNat_append, BitVec.toNat_append, BitVec.toNat_ofNat, BitVec.toNat_ofNat,
    Nat.shiftLeft_eq, Nat.shiftLeft_eq, Nat.mod_eq_of_lt (show n.log2 + 1023 < 2 ^ 11 by omega)]
  have hjoin := Nat.two_pow_add_eq_or_of_lt (i := 52) (b := n * 2 ^ (52 - n.log2) % 2 ^ 52)
    (by omega) (n.log2 + 1023)
  have hzero : 0 % 2 ^ 1 * 2 ^ 11 ||| (n.log2 + 1023) = n.log2 + 1023 := by simp
  rw [hzero, BitVec.toNat_ofNat, Nat.mul_comm (n.log2 + 1023), ← hjoin]
  omega

theorem magnitude_ofNat {n : Nat} (hpos : 0 < n) (h : n < 2 ^ 53) :
    magnitude (ofNat n) = (n * 2 ^ (52 - n.log2), (n.log2 : Int) - 52) := by
  have hn := isNormal_of_lt hpos h
  have hlog : n.log2 < 53 := (Nat.log2_lt (by omega)).2 h
  have hlow := hn.low
  have hhigh := hn.high
  simp only [magnitude, toBits_ofNat hpos h, Nat.pow_eq]
  generalize n * 2 ^ (52 - n.log2) = m at hlow hhigh ⊢
  have hbits : ((n.log2 + 1023) * 2 ^ 52 + (m - 2 ^ 52)) % 2 ^ 63 =
      (n.log2 + 1023) * 2 ^ 52 + (m - 2 ^ 52) := Nat.mod_eq_of_lt (by omega)
  have hexponent : ((n.log2 + 1023) * 2 ^ 52 + (m - 2 ^ 52)) / 2 ^ 52 = n.log2 + 1023 := by omega
  have hfraction : ((n.log2 + 1023) * 2 ^ 52 + (m - 2 ^ 52)) % 2 ^ 52 = m - 2 ^ 52 := by omega
  rw [hbits, hexponent, hfraction, if_neg (by omega)]
  ext
  · simp only
    omega
  · simp only
    omega

/-- A whole number below 2^53 is its own whole part. -/
theorem toInt?_ofNat {n : Nat} (h : n < 2 ^ 53) : toInt? (ofNat n) = some (n : Int) := by
  rcases Nat.eq_zero_or_pos n with rfl | hpos
  · decide +kernel
  have hn := isNormal_of_lt hpos h
  have hlog : n.log2 < 53 := (Nat.log2_lt (by omega)).2 h
  have hunpack : (ofNat n).toModel.unpack =
      .finite .positive (n * 2 ^ (52 - n.log2)) ((n.log2 : Int) - 52) hn.pos := by
    rw [ofNat_model hpos h]
    exact unpack_normal hn
  have hnan : (ofNat n).isNaN = false := by
    change (ofNat n).toModel.unpack.isNaN = false
    rw [hunpack]
    rfl
  have hinf : (ofNat n).isInf = false := by
    change (ofNat n).toModel.unpack.isInf = false
    rw [hunpack]
    rfl
  have hnegative : isNegative (ofNat n) = false := by
    have hlow := hn.low
    have hhigh := hn.high
    simp only [isNegative, toBits_ofNat hpos h, Nat.pow_eq, decide_eq_false_iff_not]
    omega
  have hwhole : (if (0 : Int) ≤ (n.log2 : Int) - 52 then
        n * 2 ^ (52 - n.log2) * 2 ^ ((n.log2 : Int) - 52).toNat
      else n * 2 ^ (52 - n.log2) / 2 ^ (-((n.log2 : Int) - 52)).toNat) = n := by
    split
    · rw [show n.log2 = 52 by omega]
      simp
    · rw [show (-((n.log2 : Int) - 52)).toNat = 52 - n.log2 by omega]
      exact Nat.mul_div_cancel _ (Nat.two_pow_pos _)
  simp only [toInt?, hnan, hinf, hnegative, magnitude_ofNat hpos h, Nat.pow_eq]
  rw [hwhole]
  rfl

end Number

theorem toNat_unit {c : Char} (h : c.toNat < 2 ^ 16) : (unit c).toNat = c.toNat := by
  have := UInt16.toNat_ofNat' (n := c.toNat)
  rw [Nat.mod_eq_of_lt h] at this
  exact this

theorem toNat_of_isDigit {c : Char} (h : c.isDigit) : 48 ≤ c.toNat ∧ c.toNat ≤ 57 := by
  simp only [Char.isDigit, ge_iff_le, Bool.and_eq_true, decide_eq_true_eq, UInt32.le_iff_toNat_le]
    at h
  exact h

namespace CodeUnit

theorem isDigit_iff {u : CodeUnit} : isDigit u ↔ 48 ≤ u.toNat ∧ u.toNat ≤ 57 := by
  simp only [isDigit, Bool.and_eq_true, decide_eq_true_eq, UInt16.le_iff_toNat_le]
  rfl

theorem isDigit_unit {c : Char} (h : c.isDigit) : isDigit (unit c) := by
  obtain ⟨hlow, hhigh⟩ := toNat_of_isDigit h
  rw [isDigit_iff, toNat_unit (by omega)]
  exact ⟨hlow, hhigh⟩

theorem digitValue?_unit {c : Char} (h : c.isDigit) :
    digitValue? (unit c) = some (c.toNat - '0'.toNat) := by
  obtain ⟨hlow, hhigh⟩ := toNat_of_isDigit h
  rw [digitValue?, if_pos (isDigit_unit h), toNat_unit (by omega)]
  rfl

end CodeUnit

namespace Text

theorem isDigit_of_mem_ofNat {n : Nat} {u : CodeUnit} (h : u ∈ ofNat n) : CodeUnit.isDigit u := by
  obtain ⟨c, hc, rfl⟩ := List.mem_map.1 h
  exact CodeUnit.isDigit_unit (Nat.isDigit_of_mem_toDigits (by decide) (by decide) hc)

theorem ofNat_ne_nil (n : Nat) : ofNat n ≠ [] := by
  simp [ofNat, Nat.toDigits_ne_nil]

theorem readNat_map_unit {cs : List Char} (h : ∀ c ∈ cs, c.isDigit) (start : Nat) :
    (cs.map unit).foldl (fun n u => n * 10 + (CodeUnit.digitValue? u).getD 0) start =
      Nat.ofDigitChars 10 cs start := by
  induction cs generalizing start with
  | nil => rfl
  | cons c cs ih =>
    have hc : c.isDigit := h c List.mem_cons_self
    rw [List.map_cons, List.foldl_cons, CodeUnit.digitValue?_unit hc, Nat.ofDigitChars_cons,
      Nat.mul_comm 10, ← ih (fun d hd => h d (List.mem_cons_of_mem c hd))]
    rfl

/-- The digits of a number are read as the number. -/
theorem readNat_ofNat (n : Nat) : readNat 10 (ofNat n) = n := by
  rw [readNat, ofNat, readNat_map_unit, Nat.ofDigitChars_ten_toDigits]
  intro c hc
  exact Nat.isDigit_of_mem_toDigits (by decide) (by decide) hc

end Text

namespace Number

/-- The number of a run of digits that is not too long. -/
theorem ofDecimal_whole {n : Nat} (h : n < 2 ^ 53) : ofDecimal n 0 = ofNat n := by
  unfold ofDecimal
  split
  · rename_i hzero
    rw [hzero]
    rfl
  · have hlength : (Nat.toDigits 10 n).length ≤ 16 := by
      rw [Nat.length_toDigits_le_iff (by decide) (by decide)]
      omega
    rw [if_neg (by omega), if_neg (by omega)]
    rfl

theorem scanDecimal?_ofNat {n : Nat} (h : n < 2 ^ 53) {rest : Text}
    (hrest : ∀ u ∈ rest.head?, u = unit ' ') :
    scanDecimal? (Text.ofNat n ++ rest) = some (ofNat n, rest) := by
  have hdigits : ∀ u ∈ Text.ofNat n, CodeUnit.isDigit u := fun u => Text.isDigit_of_mem_ofNat
  have hspace : ∀ u ∈ rest.head?, CodeUnit.isDigit u = false := by
    intro u hu
    rw [hrest u hu]
    decide
  have hempty : (Text.ofNat n).isEmpty = false := by
    simp [Text.ofNat_ne_nil]
  have hexponent : scanExponent rest = (0, rest) := by
    cases rest with
    | nil => rfl
    | cons u rest =>
      obtain rfl := hrest u (by simp)
      rfl
  simp only [scanDecimal?, Text.takeWhile_append hdigits hspace,
    Text.dropWhile_append hdigits hspace]
  cases rest with
  | nil =>
    simp only [hempty, hexponent, Bool.false_and, List.append_nil, Text.readNat_ofNat]
    exact congrArg (fun x => some (x, [])) (ofDecimal_whole h)
  | cons u rest =>
    obtain rfl := hrest u (by simp)
    have hpoint : (unit ' ' == unit '.') = false := by decide
    simp only [hempty, hexponent, hpoint, Bool.false_and, Bool.false_eq_true, if_false,
      List.append_nil, Text.readNat_ofNat]
    exact congrArg (fun x => some (x, unit ' ' :: rest)) (ofDecimal_whole h)

/-- A whole number is read up to the white space behind its digits. -/
theorem scanSigned?_ofNat {n : Nat} (h : n < 2 ^ 53) {rest : Text}
    (hrest : ∀ u ∈ rest.head?, u = unit ' ') :
    scanSigned? (Text.ofNat n ++ rest) = some (ofNat n, rest) := by
  have hdecimal := scanDecimal?_ofNat h hrest
  have hfirst : ∀ u ∈ Text.ofNat n, CodeUnit.isDigit u := fun u => Text.isDigit_of_mem_ofNat
  cases hdigits : Text.ofNat n with
  | nil => exact absurd hdigits (Text.ofNat_ne_nil n)
  | cons u digits =>
    rw [hdigits] at hdecimal hfirst
    have hdigit : CodeUnit.isDigit u := hfirst u List.mem_cons_self
    have hother : ∀ v : CodeUnit, CodeUnit.isDigit v = false → u ≠ v := by
      rintro v hv rfl
      rw [hv] at hdigit
      cases hdigit
    have hword : Text.afterPrefix "Infinity" (u :: digits ++ rest) = none := by
      rw [Text.afterPrefix_eq_none_iff]
      intro hprefix
      have hhead : unit 'I' = u := (List.cons_prefix_cons.1 hprefix).1
      exact hother (unit 'I') (by decide) hhead.symm
    have hminus : (u == unit '-') = false := by simp [hother (unit '-') (by decide)]
    have hplus : (u == unit '+') = false := by simp [hother (unit '+') (by decide)]
    rw [List.cons_append] at hword hdecimal ⊢
    simp only [scanSigned?, hminus, hplus, scanUnsigned?, hword, hdecimal]
    rfl

end Number

end PageTemplate
