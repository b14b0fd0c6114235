import PageTemplate.Proofs.Number

/-!
# PageTemplate.Proofs.Number.Difference

On which side of zero a difference lies. Rounding never brings a difference of two numbers to zero
or across it, since the least number above zero divides them all. So the side of zero tells the
order of the numbers, the differences of equal infinities apart, which are NaN.
-/

namespace PageTemplate

namespace Number

open Float.Model (Format totalExponent UnpackedFloat)
open Float.Model.UnpackedFloat

/-- A mantissa and an exponent that a finite number can have. -/
structure IsRounded (m : Nat) (e : Int) : Prop where
  high : m < 2 ^ 53
  above : -1074 ≤ e

/-- Where a number lies as seen from zero. -/
def side (x : UnpackedFloat) : Option Ordering := UnpackedFloat.compare x (.zero .positive)

def sideOf : Sign → Ordering
  | .positive => .gt
  | .negative => .lt

/-- A number as it is read from the bits it is kept in. -/
def stored (x : UnpackedFloat) : UnpackedFloat :=
  unpack Format.binary64 (pack Format.binary64 x)

variable {s : Sign} {m : Nat} {e : Int}

@[simp] theorem side_infinity (s : Sign) : side (.infinity s) = some (sideOf s) := by
  cases s <;> rfl

@[simp] theorem side_finite (s : Sign) (m : Nat) (e : Int) (h : 0 < m) :
    side (.finite s m e h) = some (sideOf s) := by
  cases s <;> rfl

section Packing

theorem ofBitVec_toBitVec (s : Sign) : Sign.ofBitVec s.toBitVec = s := by
  cases s <;> rfl

/-- Bits with a sign and with something behind it stand for a number on the side of the sign. -/
theorem side_unpack_packComponents {exponent : BitVec 11} {mantissa : BitVec 52}
    (h : exponent = -1#11 → mantissa = 0#52) (h' : exponent = 0#11 → mantissa ≠ 0#52) :
    side (unpack Format.binary64 (packComponents Format.binary64 s exponent mantissa)) =
      some (sideOf s) := by
  simp only [unpack, unpackExponent_packComponents, unpackMantissa_packComponents,
    unpackSign_packComponents, ofBitVec_toBitVec]
  split
  · rename_i hmax
    rw [if_pos (h hmax), side_infinity]
  split
  · rename_i hzero
    rw [dif_neg (h' hzero), side_finite]
  · rw [side_finite]

/-- A finite number stays on its side of zero when it is brought into bits, also when it is too
great for them. -/
theorem side_stored (h : IsRounded m e) (hm : 0 < m) :
    side (stored (.finite s m e hm)) = some (sideOf s) := by
  have hhigh := h.high
  have habove := h.above
  have hbias : (e + (Format.binary64.exponentBias : Int) +
      (Format.binary64.mantissaBitsWithoutImplicit : Int)).toNat = (e + 1075).toNat := by
    simp only [Format.exponentBias]
    norm_num
    omega
  have hmantissa : ∀ k < 2 ^ 52, BitVec.ofNat 52 k = 0#52 → k = 0 := by
    intro k hk h0
    have := congrArg BitVec.toNat h0
    rw [BitVec.toNat_ofNat, Nat.mod_eq_of_lt hk] at this
    exact this
  simp only [stored, pack, hbias]
  split
  · exact side_unpack_packComponents (fun _ => rfl) (fun h => absurd h (by decide))
  rename_i hsmall
  have hexponent : (BitVec.ofNat 11 (e + 1075).toNat).toNat = (e + 1075).toNat := by
    rw [BitVec.toNat_ofNat, Nat.mod_eq_of_lt (by norm_num at hsmall; omega)]
  split
  · refine side_unpack_packComponents (fun hmax => ?_) (fun hzero => ?_)
    · have := congrArg BitVec.toNat hmax
      rw [hexponent] at this
      have hmax : (-1#11).toNat = 2047 := by decide
      norm_num at hsmall
      omega
    · have := congrArg BitVec.toNat hzero
      rw [hexponent] at this
      have hzero : (0#11).toNat = 0 := by decide
      omega
  · -- A subnormal number has no bit in front of those that are kept.
    rename_i hbits
    have hlow : m < 2 ^ 52 := by
      rw [← Nat.log2_lt (by omega)]
      have : m.log2 < 53 := (Nat.log2_lt (by omega)).2 hhigh
      have hne : m.log2 + 1 ≠ 53 := hbits
      omega
    refine side_unpack_packComponents (fun hmax => absurd hmax (by decide)) (fun _ hzero => ?_)
    have := hmantissa m hlow hzero
    omega

theorem stored_zero (s : Sign) : stored (.zero s) = .zero s := by
  cases s <;> rfl

theorem side_stored_infinity (s : Sign) : side (stored (.infinity s)) = some (sideOf s) := by
  cases s <;> rfl

/-- Every finite number that bits stand for is rounded. -/
theorem isRounded_of_unpack {b : BitVec Format.binary64.numBits} {hm : 0 < m}
    (h : unpack Format.binary64 b = .finite s m e hm) : IsRounded m e := by
  have hbias : (Format.binary64.exponentBias : Int) +
      (Format.binary64.mantissaBitsWithoutImplicit : Int) = 1075 := rfl
  simp only [unpack, hbias] at h
  split at h
  · split at h <;> cases h
  split at h
  · rename_i hzero
    split at h
    · cases h
    · cases h
      refine ⟨?_, ?_⟩
      · have := (unpackMantissa b).isLt
        omega
      · rw [hzero]
        decide
  · rename_i hzero
    cases h
    refine ⟨BitVec.isLt _, ?_⟩
    have hne : (unpackExponent b).toNat ≠ 0 := by
      intro h0
      exact hzero (BitVec.eq_of_toNat_eq h0)
    omega

end Packing

section Rounding

theorem shiftRight_mantissa (x : ExtendedMantissa) (k : Nat) :
    (x >>> k).mantissa = x.mantissa / 2 ^ k := by
  induction k generalizing x with
  | zero => exact (Nat.div_one _).symm
  | succ k ih =>
    change (x >>> k).mantissa / 2 = _
    rw [ih, Nat.div_div_eq_div_mul, Nat.pow_succ]

theorem le_roundedMantissa (x : ExtendedMantissa) : x.mantissa ≤ x.roundedMantissa := by
  obtain ⟨m, r, t⟩ := x
  cases r <;> cases t <;>
    simp [ExtendedMantissa.roundedMantissa, ExtendedMantissa.accuracy, Accuracy.roundToNearestEven]

theorem targetExponent_eq (t : Int) :
    Format.binary64.targetExponent t = max (t - 53) (-1074) := by
  simp only [Format.targetExponent, Format.mantissaBits, Format.minExponent]
  norm_num

/-- How far a mantissa is shifted to bring it to 53 bits. -/
def surplus (m : Nat) (e : Int) : Nat :=
  (Format.binary64.targetExponent (totalExponent m e) - e).toNat

theorem surplus_eq (he : -1074 ≤ e) : surplus m e = m.log2 - 52 := by
  rw [surplus, targetExponent_eq, totalExponent]
  omega

/-- What is shifted out leaves 53 bits, and something of them. -/
theorem isRounded_shift (hm : 0 < m) (he : -1074 ≤ e) :
    0 < m / 2 ^ surplus m e ∧ IsRounded (m / 2 ^ surplus m e) (e + surplus m e) := by
  rw [surplus_eq he]
  have hlow := Nat.log2_self_le hm.ne'
  have hhigh := Nat.lt_log2_self (n := m)
  refine ⟨Nat.div_pos ?_ (Nat.two_pow_pos _), ?_, by omega⟩
  · exact (Nat.pow_le_pow_right (by decide) (Nat.sub_le _ _)).trans hlow
  · rw [Nat.div_lt_iff_lt_mul (Nat.two_pow_pos _), ← Nat.pow_add]
    exact hhigh.trans_le (Nat.pow_le_pow_right (by decide) (by omega))

theorem shiftToTargetExponent_eq (m : Nat) (e : Int) :
    ∃ x : ExtendedMantissa, shiftToTargetExponent Format.binary64 m e .exact =
      (x, e + surplus m e) ∧ x.mantissa = m / 2 ^ surplus m e :=
  ⟨_, rfl, shiftRight_mantissa _ _⟩

/-- Rounding leaves something of what is not below the least number above zero. -/
theorem exists_round_eq (s : Sign) (hm : 0 < m) (he : -1074 ≤ e) :
    ∃ m' e' h, UnpackedFloat.round Format.binary64 s m e = .finite s m' e' h ∧ IsRounded m' e' := by
  have key : ∀ {m : Nat} {e : Int}, 0 < m → -1074 ≤ e → ∃ m' e' h,
      roundWithAccuracy Format.binary64 s m e .exact = .finite s m' e' h ∧ IsRounded m' e' := by
    intro m e hm he
    -- The mantissa is shifted twice, since rounding up can give it one bit too many.
    obtain ⟨x, hx, hxm⟩ := shiftToTargetExponent_eq m e
    obtain ⟨hpos, hrounded⟩ := isRounded_shift hm he
    have hx0 : 0 < x.roundedMantissa := (hxm ▸ hpos).trans_le (le_roundedMantissa x)
    obtain ⟨y, hy, hym⟩ := shiftToTargetExponent_eq x.roundedMantissa (e + surplus m e)
    obtain ⟨hpos', hrounded'⟩ := isRounded_shift hx0 hrounded.above
    rw [← hym] at hpos' hrounded'
    refine ⟨_, _, hpos', ?_, hrounded'⟩
    simp only [roundWithAccuracy, hx, hy]
    rw [dif_neg hpos'.ne']
  rw [UnpackedFloat.round]
  refine key ?_ ?_
  · rw [Nat.shiftLeft_eq]
    exact Nat.mul_pos hm (Nat.two_pow_pos _)
  · rw [targetExponent_eq]
    omega

/-- A whole multiple of the least number above zero is rounded on its side of zero. -/
theorem side_normalize (n : Int) (he : -1074 ≤ e) :
    side (stored (UnpackedFloat.normalize Format.binary64 n e .positive)) = some (compare n 0) := by
  have hround : ∀ {s : Sign} {m : Nat}, 0 < m →
      side (stored (UnpackedFloat.round Format.binary64 s m e)) = some (sideOf s) := by
    intro s m hm
    obtain ⟨m', e', h, heq, hrounded⟩ := exists_round_eq s hm he
    rw [heq]
    exact side_stored hrounded h
  rw [UnpackedFloat.normalize]
  cases hn : compare n 0 with
  | lt =>
    have := compare_lt_iff_lt.1 hn
    exact hround (by omega)
  | eq => exact congrArg side (stored_zero .positive)
  | gt =>
    have := compare_gt_iff_gt.1 hn
    exact hround (by omega)

end Rounding

section Order

def ofRational (q : ℚ) : WithBot (WithTop ℚ) := (q : WithTop ℚ)

/-- The exact value of a number, where NaN counts as zero. -/
def exact : UnpackedFloat → WithBot (WithTop ℚ)
  | .infinity .positive => ((⊤ : WithTop ℚ) : WithBot (WithTop ℚ))
  | .infinity .negative => ⊥
  | .finite s m e _ => ofRational ((s.apply m : Int) * 2 ^ e)
  | .zero _ | .notANumber => ofRational 0

@[simp] theorem exact_zero (s : Sign) : exact (.zero s) = ofRational 0 := rfl

@[simp] theorem exact_finite (s : Sign) (m : Nat) (e : Int) (h : 0 < m) :
    exact (.finite s m e h) = ofRational ((s.apply m : Int) * 2 ^ e) := rfl

theorem cmp_ofRational (p q : ℚ) : cmp (ofRational p) (ofRational q) = cmp p q :=
  (WithBot.coe_strictMono.comp WithTop.coe_strictMono).cmp_map_eq p q

/-- The sign of a difference of whole multiples of powers of two. -/
theorem compare_shifted (a b : Int) (c d : Int) :
    compare (a * 2 ^ (c - min c d).toNat - b * 2 ^ (d - min c d).toNat) 0 =
      cmp ((a : ℚ) * 2 ^ c) (b * 2 ^ d) := by
  have hpow : ∀ k : Int, min c d ≤ k →
      (2 : ℚ) ^ k = 2 ^ (k - min c d).toNat * 2 ^ min c d := by
    intro k hk
    rw [← zpow_natCast, ← zpow_add₀ two_ne_zero]
    congr 1
    omega
  have hpos : (0 : ℚ) < 2 ^ min c d := zpow_pos two_pos _
  set n := a * 2 ^ (c - min c d).toNat - b * 2 ^ (d - min c d).toNat with hn
  have hdifference : (a : ℚ) * 2 ^ c - b * 2 ^ d = n * 2 ^ min c d := by
    rw [hpow c (min_le_left c d), hpow d (min_le_right c d), hn]
    push_cast
    ring
  calc compare n 0 = cmp n 0 := (cmp_eq_compare n 0).symm
    _ = cmp (n : ℚ) ((0 : Int) : ℚ) := (Int.cast_strictMono.cmp_map_eq n 0).symm
    _ = cmp ((n : ℚ) * 2 ^ min c d) (((0 : Int) : ℚ) * 2 ^ min c d) :=
      (cmp_mul_pos_right hpos _ _).symm
    _ = cmp ((a : ℚ) * 2 ^ c) (b * 2 ^ d) := by
      rw [← hdifference, Int.cast_zero, zero_mul, cmp_sub_zero]

def IsStored (x : UnpackedFloat) : Prop := ∃ b, unpack Format.binary64 b = x

theorem IsStored.isRounded {hm : 0 < m} (h : IsStored (.finite s m e hm)) : IsRounded m e := by
  obtain ⟨b, hb⟩ := h
  exact isRounded_of_unpack hb

theorem sideOf_neg (s : Sign) : sideOf (-s) = (sideOf s).swap := by
  cases s <;> rfl

/-- A finite number lies on the side of its sign. -/
theorem cmp_rational_zero (s : Sign) {m : Nat} (hm : 0 < m) (e : Int) :
    cmp (((s.apply m : Int) : ℚ) * 2 ^ e) 0 = sideOf s := by
  have hpow : (0 : ℚ) < 2 ^ e := zpow_pos two_pos _
  have hm : (0 : ℚ) < m := Nat.cast_pos.2 hm
  cases s with
  | positive =>
    refine (cmp_eq_gt_iff _ _).2 ?_
    simpa [Sign.apply] using mul_pos hm hpow
  | negative =>
    refine (cmp_eq_lt_iff _ _).2 ?_
    simpa [Sign.apply] using mul_pos hm hpow

/-- An infinity lies beyond every finite number on the side of its sign. -/
theorem cmp_infinity (s : Sign) (q : ℚ) :
    cmp (exact (.infinity s)) (ofRational q) = sideOf s := by
  cases s with
  | positive => exact (cmp_eq_gt_iff _ _).2 (WithBot.coe_lt_coe.2 (WithTop.coe_lt_top q))
  | negative => exact (cmp_eq_lt_iff _ _).2 (WithBot.bot_lt_coe _)

def AreApart : UnpackedFloat → UnpackedFloat → Prop
  | .notANumber, _ | _, .notANumber => False
  | .infinity s₁, .infinity s₂ => s₁ ≠ s₂
  | _, _ => True

theorem AreApart.symm {x y : UnpackedFloat} (h : AreApart x y) : AreApart y x := by
  cases x with
  | notANumber => exact h.elim
  | infinity s₁ =>
    cases y with
    | notANumber => exact h.elim
    | infinity s₂ => exact Ne.symm h
    | _ => trivial
  | _ =>
    cases y with
    | notANumber => exact h.elim
    | _ => trivial

/-- The difference of finite numbers is rounded from a whole multiple of the lesser power. -/
theorem side_sub_finite {s₁ s₂ : Sign} {m₁ m₂ : Nat} {e₁ e₂ : Int} {h₁ : 0 < m₁} {h₂ : 0 < m₂}
    (hx : IsRounded m₁ e₁) (hy : IsRounded m₂ e₂) :
    side (stored (sub Format.binary64 (.finite s₁ m₁ e₁ h₁) (.finite s₂ m₂ e₂ h₂))) =
      some (cmp (((s₁.apply m₁ : Int) : ℚ) * 2 ^ e₁) (((s₂.apply m₂ : Int) : ℚ) * 2 ^ e₂)) := by
  have happly : ∀ (s : Sign) (m k : Nat),
      s.apply ((m <<< k : Nat) : Int) = s.apply m * 2 ^ k := by
    intro s m k
    cases s <;> simp [Sign.apply, Nat.shiftLeft_eq]
  have hmin : -1074 ≤ min e₁ e₂ := le_min hx.above hy.above
  simp only [sub, decreaseExponent, happly]
  rw [side_normalize _ hmin, compare_shifted]

/-- **The side of a difference.** A difference lies on the side of zero that tells the order of the
exact values. -/
theorem side_sub {x y : UnpackedFloat} (hx : IsStored x) (hy : IsStored y) (h : AreApart x y) :
    side (stored (sub Format.binary64 x y)) = some (cmp (exact x) (exact y)) := by
  cases x with
  | notANumber => exact h.elim
  | infinity s₁ =>
    cases y with
    | notANumber => exact h.elim
    | infinity s₂ => cases s₁ <;> cases s₂ <;> first | exact absurd rfl h | rfl
    | zero s₂ =>
      rw [exact_zero, cmp_infinity]
      exact side_stored_infinity s₁
    | finite s₂ m₂ e₂ h₂ =>
      rw [exact_finite, cmp_infinity]
      exact side_stored_infinity s₁
  | zero s₁ =>
    rw [exact_zero]
    cases y with
    | notANumber => exact h.elim
    | infinity s₂ =>
      rw [← cmp_swap, cmp_infinity, ← sideOf_neg]
      exact side_stored_infinity (-s₂)
    | zero s₂ =>
      rw [exact_zero, cmp_self_eq_eq]
      cases s₁ <;> cases s₂ <;> rfl
    | finite s₂ m₂ e₂ h₂ =>
      rw [exact_finite, cmp_ofRational, ← cmp_swap, cmp_rational_zero s₂ h₂, ← sideOf_neg]
      exact side_stored hy.isRounded h₂
  | finite s₁ m₁ e₁ h₁ =>
    rw [exact_finite]
    cases y with
    | notANumber => exact h.elim
    | infinity s₂ =>
      rw [← cmp_swap, cmp_infinity, ← sideOf_neg]
      exact side_stored_infinity (-s₂)
    | zero s₂ =>
      rw [exact_zero, cmp_ofRational, cmp_rational_zero s₁ h₁]
      exact side_stored hx.isRounded h₁
    | finite s₂ m₂ e₂ h₂ =>
      rw [exact_finite, cmp_ofRational]
      exact side_sub_finite hx.isRounded hy.isRounded

/-- The difference of two numbers that are not apart is NaN. -/
theorem sub_eq_notANumber {x y : UnpackedFloat} (h : ¬ AreApart x y) :
    sub Format.binary64 x y = .notANumber := by
  cases x with
  | notANumber => cases y <;> rfl
  | infinity s₁ =>
    cases y with
    | notANumber => cases s₁ <;> rfl
    | infinity s₂ =>
      cases not_not.1 h
      cases s₁ <;> rfl
    | zero s₂ => exact absurd trivial h
    | finite s₂ m₂ e₂ h₂ => exact absurd trivial h
  | zero s₁ =>
    cases y with
    | notANumber => rfl
    | _ => exact absurd trivial h
  | finite s₁ m₁ e₁ h₁ =>
    cases y with
    | notANumber => rfl
    | _ => exact absurd trivial h

theorem exact_infinity_injective {s₁ s₂ : Sign}
    (h : exact (.infinity s₁) = exact (.infinity s₂)) : s₁ = s₂ := by
  cases s₁ <;> cases s₂ <;> first | rfl | exact absurd h (by decide)

theorem exact_infinity_ne (s : Sign) (q : ℚ) : exact (.infinity s) ≠ ofRational q := by
  intro h
  have := cmp_infinity s q
  rw [h, cmp_self_eq_eq] at this
  cases s <;> cases this

theorem not_areApart_iff (x y : UnpackedFloat) :
    ¬ AreApart x y ↔ x.isNaN ∨ y.isNaN ∨ x.isInf ∧ exact x = exact y := by
  cases x with
  | notANumber => exact ⟨fun _ => .inl rfl, fun _ h => h.elim⟩
  | infinity s₁ =>
    cases y with
    | notANumber => exact ⟨fun _ => .inr (.inl rfl), fun _ h => h.elim⟩
    | infinity s₂ =>
      refine ⟨fun h => ?_, fun h hne => ?_⟩
      · cases not_not.1 h
        exact .inr (.inr ⟨rfl, rfl⟩)
      · obtain h | h | ⟨-, h⟩ := h
        · cases h
        · cases h
        · exact hne (exact_infinity_injective h)
    | zero s₂ =>
      simpa [AreApart, UnpackedFloat.isNaN, UnpackedFloat.isInf] using exact_infinity_ne s₁ 0
    | finite s₂ m₂ e₂ h₂ =>
      simpa [AreApart, UnpackedFloat.isNaN, UnpackedFloat.isInf] using exact_infinity_ne s₁ _
  | zero s₁ => cases y <;> simp [AreApart, UnpackedFloat.isNaN, UnpackedFloat.isInf]
  | finite s₁ m₁ e₁ h₁ => cases y <;> simp [AreApart, UnpackedFloat.isNaN, UnpackedFloat.isInf]

end Order

section Zero

/-- Where a number lies as seen from zero; NaN lies nowhere. -/
def sideOfZero (x : Float) : Option Ordering := side x.toModel.unpack

theorem compare_zero_left (x : UnpackedFloat) :
    UnpackedFloat.compare (.zero .positive) x = (side x).map Ordering.swap := by
  cases x with
  | notANumber => rfl
  | infinity s => cases s <;> rfl
  | zero s => rfl
  | finite s m e h => cases s <;> rfl

theorem lt_iff_compare (x y : Float) :
    x < y ↔ UnpackedFloat.compare x.toModel.unpack y.toModel.unpack = some .lt := by
  change decide (x.toModel < y.toModel) = true ↔ _
  rw [decide_eq_true_iff]
  exact beq_iff_eq

theorem le_iff_compare (x y : Float) :
    x ≤ y ↔ (UnpackedFloat.compare x.toModel.unpack y.toModel.unpack).any Ordering.isLE := by
  change decide (x.toModel ≤ y.toModel) = true ↔ _
  rw [decide_eq_true_iff]
  rfl

theorem unpack_zero : (0.0 : Float).toModel.unpack = .zero .positive := rfl

variable {x : Float}

theorem lt_zero_iff : x < 0.0 ↔ (sideOfZero x).any (· == .lt) := by
  rw [lt_iff_compare, unpack_zero]
  change sideOfZero x = some .lt ↔ _
  rcases sideOfZero x with _ | _ | _ | _ <;> decide

theorem gt_zero_iff : x > 0.0 ↔ (sideOfZero x).any (· == .gt) := by
  rw [gt_iff_lt, lt_iff_compare, unpack_zero, compare_zero_left]
  change (sideOfZero x).map Ordering.swap = some .lt ↔ _
  rcases sideOfZero x with _ | _ | _ | _ <;> decide

theorem le_zero_iff : x ≤ 0.0 ↔ (sideOfZero x).any Ordering.isLE := by
  rw [le_iff_compare, unpack_zero]
  rfl

theorem ge_zero_iff : x ≥ 0.0 ↔ (sideOfZero x).any Ordering.isGE := by
  rw [ge_iff_le, le_iff_compare, unpack_zero, compare_zero_left]
  change ((sideOfZero x).map Ordering.swap).any Ordering.isLE ↔ _
  rcases sideOfZero x with _ | _ | _ | _ <;> decide

end Zero

section Float

/-- The exact value of a number among the rational numbers and the infinities; NaN counts as
zero. -/
def value (x : Float) : WithBot (WithTop ℚ) := exact x.toModel.unpack

/-- A whole number below 2^53 is its own exact value. -/
theorem value_ofNat {n : Nat} (h : n < 2 ^ 53) : value (ofNat n) = ofRational n := by
  obtain rfl | hpos := Nat.eq_zero_or_pos n
  · rfl
  have hlog : n.log2 < 53 := (Nat.log2_lt (by omega)).2 h
  have hunpack : (ofNat n).toModel.unpack =
      .finite .positive (n * 2 ^ (52 - n.log2)) ((n.log2 : Int) - 52)
        (isNormal_of_lt hpos h).pos := by
    rw [ofNat_model hpos h]
    exact unpack_normal (isNormal_of_lt hpos h)
  rw [value, hunpack, exact_finite]
  congr 1
  have hexponent : ((52 - n.log2 : Nat) : Int) + ((n.log2 : Int) - 52) = 0 := by omega
  calc ((Sign.apply .positive (n * 2 ^ (52 - n.log2) : Nat) : Int) : ℚ) * 2 ^ ((n.log2 : Int) - 52)
      = n * (2 ^ ((52 - n.log2 : Nat) : Int) * 2 ^ ((n.log2 : Int) - 52)) := by
        rw [Sign.apply, zpow_natCast]
        push_cast
        ring
    _ = n := by rw [← zpow_add₀ two_ne_zero, hexponent, zpow_zero, mul_one]

/-- The order of two numbers. NaN has none, and neither have two infinities of one sign. -/
def order? (x y : Float) : Option Ordering :=
  if x.isNaN ∨ y.isNaN ∨ x.isInf ∧ value x = value y then none else some (cmp (value x) (value y))

variable {x y : Float}

theorem order?_of_areApart (h : AreApart x.toModel.unpack y.toModel.unpack) :
    order? x y = some (cmp (value x) (value y)) :=
  if_neg fun h' => (not_areApart_iff _ _).2 h' h

theorem order?_of_not_areApart (h : ¬ AreApart x.toModel.unpack y.toModel.unpack) :
    order? x y = none :=
  if_pos ((not_areApart_iff _ _).1 h)

/-- **The side of a difference.** A difference lies below, at or above zero as the first number is
less than, equal to or greater than the second. -/
theorem sideOfZero_sub (x y : Float) : sideOfZero (x - y) = order? x y := by
  change side (stored (sub Format.binary64 x.toModel.unpack y.toModel.unpack)) = _
  by_cases h : AreApart x.toModel.unpack y.toModel.unpack
  · rw [order?_of_areApart h]
    exact side_sub ⟨_, rfl⟩ ⟨_, rfl⟩ h
  · rw [order?_of_not_areApart h, sub_eq_notANumber h]
    rfl

theorem order?_eq_none (h : x.isNaN ∨ y.isNaN) : order? x y = none :=
  if_pos (h.imp_right .inl)

/-- Numbers that are not infinities of one sign have the order of their values. -/
theorem order?_eq_some (hx : ¬ x.isNaN) (hy : ¬ y.isNaN) (h : x.isInf → value x ≠ value y) :
    order? x y = some (cmp (value x) (value y)) := by
  refine if_neg ?_
  rintro (h' | h' | ⟨h₁, h₂⟩)
  · exact hx h'
  · exact hy h'
  · exact h h₁ h₂

theorem order?_swap (x y : Float) : order? y x = (order? x y).map Ordering.swap := by
  by_cases h : AreApart x.toModel.unpack y.toModel.unpack
  · rw [order?_of_areApart h, order?_of_areApart h.symm, Option.map_some, cmp_swap]
  · rw [order?_of_not_areApart h, order?_of_not_areApart fun h' => h h'.symm, Option.map_none]

end Float

end Number

end PageTemplate
