import Mathlib.Data.List.Chain
import PageTemplate.Proofs.Text
import PageTemplate.Text.Case

/-!
# PageTemplate.Proofs.Case

Lower case is stable: a text in lower case is its own lower case, and no letter becomes white space
or a mark. The table is looked at range by range: no range is mapped into one that is mapped itself.
What remains is that the points of a text can be told from its units.
-/

namespace PageTemplate

namespace CaseRange

/-- The points that the ends of a range are mapped to. -/
def imageFirst (r : CaseRange) : Nat := ((r.first : Int) + r.shift).toNat

def imageLast (r : CaseRange) : Nat := ((r.last : Int) + r.shift).toNat

/-- Whether no point of a range is mapped into another range. Where the two overlap, both take every
second point. (`Nat.blt` is what the kernel computes with; the table has many pairs of ranges.) -/
def avoids (r s : CaseRange) : Bool :=
  r.imageLast.blt s.first || s.last.blt r.imageFirst ||
    (0 ≤ (r.first : Int) + r.shift && (r.stride == 2 || r.first == r.last) && s.stride == 2 &&
      (r.imageFirst + s.first) % 2 == 1)

variable {r : CaseRange} {n : Nat}

theorem covers_iff :
    r.covers n ↔ r.first ≤ n ∧ n ≤ r.last ∧ (n - r.first) % r.stride = 0 := by
  simp only [covers, Bool.and_eq_true, decide_eq_true_eq, beq_iff_eq, and_assoc]

theorem covers_eq_false_iff :
    r.covers n = false ↔ ¬ (r.first ≤ n ∧ n ≤ r.last ∧ (n - r.first) % r.stride = 0) := by
  rw [← covers_iff, Bool.not_eq_true]

theorem not_covers_image {r s : CaseRange} {n : Nat} (h : r.avoids s) (hn : r.covers n) :
    s.covers ((n : Int) + r.shift).toNat = false := by
  simp only [avoids, imageFirst, imageLast, Bool.and_eq_true, Bool.or_eq_true, Nat.blt_eq,
    decide_eq_true_eq, beq_iff_eq] at h
  rw [covers_iff] at hn
  rw [covers_eq_false_iff]
  obtain (hlt | hlt) | ⟨⟨⟨hpos, hr⟩, hs⟩, hodd⟩ := h
  · omega
  · omega
  · rw [hs]
    rcases hr with hr | hr
    · rw [hr] at hn
      omega
    · omega

end CaseRange

namespace CodePoint

/-- The points that no letter is mapped to: halves of pairs, white space, and the marks that end a
name in markup. -/
def reserved : List CaseRange :=
  [⟨0xD800, 0xDFFF, 1, 0⟩, ⟨9, 13, 1, 0⟩, ⟨32, 32, 1, 0⟩, ⟨0x2F, 0x2F, 1, 0⟩, ⟨0x3D, 0x3E, 1, 0⟩,
    ⟨0xA0, 0xA0, 1, 0⟩, ⟨0x1680, 0x1680, 1, 0⟩, ⟨0x2000, 0x200A, 1, 0⟩, ⟨0x2028, 0x2029, 1, 0⟩,
    ⟨0x202F, 0x202F, 1, 0⟩, ⟨0x205F, 0x205F, 1, 0⟩, ⟨0x3000, 0x3000, 1, 0⟩, ⟨0xFEFF, 0xFEFF, 1, 0⟩]

/-- The one capital letter whose lower-case form is two points. -/
def dottedCapital : CaseRange := ⟨0x130, 0x130, 1, 0⟩

/-- The points that have another lower-case form. -/
def capitals : List CaseRange := dottedCapital :: CaseTable.lower

/-- Whether a point is its own lower-case form. -/
def IsSettled (n : Nat) : Prop := ∀ r ∈ capitals, r.covers n = false

/-- What holds of the points of lower-case forms. -/
structure IsLowered (n : Nat) : Prop where
  settled : IsSettled n
  free : ∀ r ∈ reserved, r.covers n = false
  lt : n < 0x110000

theorem avoids_of_mem {r s : CaseRange} (hr : r ∈ CaseTable.lower)
    (hs : s ∈ capitals ∨ s ∈ reserved) : r.avoids s := by
  have h : (CaseTable.lower.all fun r => (capitals ++ reserved).all r.avoids) = true := by
    decide +kernel
  exact List.all_eq_true.1 (List.all_eq_true.1 h r hr) s (List.mem_append.2 hs)

theorem image_lt_of_mem {r : CaseRange} (hr : r ∈ CaseTable.lower) : r.imageLast < 0x110000 := by
  have h : (CaseTable.lower.all fun r => r.imageLast.blt 0x110000) = true := by decide +kernel
  simpa using List.all_eq_true.1 h r hr

/-- What a range of the table maps a point to. -/
theorem isLowered_image {r : CaseRange} (hr : r ∈ CaseTable.lower) {n : Nat} (hn : r.covers n) :
    IsLowered ((n : Int) + r.shift).toNat where
  settled _ hs := CaseRange.not_covers_image (avoids_of_mem hr (.inl hs)) hn
  free _ hs := CaseRange.not_covers_image (avoids_of_mem hr (.inr hs)) hn
  lt := by
    have hlt := image_lt_of_mem hr
    have hn := CaseRange.covers_iff.1 hn
    rw [CaseRange.imageLast] at hlt
    omega

/-- The forms that are not made by the table of ranges. -/
theorem isLowered_single {n : Nat} (h : n ∈ [0x69, 0x307, 0x3C2, 0x3C3]) : IsLowered n := by
  have hall : ([0x69, 0x307, 0x3C2, 0x3C3].all fun n =>
      (capitals ++ reserved).all fun r => !r.covers n) = true := by decide +kernel
  have hn := List.all_eq_true.1 (List.all_eq_true.1 hall n h)
  refine ⟨fun r hr => ?_, fun r hr => ?_, ?_⟩
  · simpa using hn r (List.mem_append_left _ hr)
  · simpa using hn r (List.mem_append_right _ hr)
  · have : ∀ n ∈ [0x69, 0x307, 0x3C2, 0x3C3], n < 0x110000 := by decide
    exact this n h

def asciiCapitals : CaseRange := ⟨0x41, 0x5A, 1, 32⟩

theorem asciiCapitals_mem : asciiCapitals ∈ CaseTable.lower := .head _

theorem covers_asciiCapitals {n : Nat} : asciiCapitals.covers n ↔ 0x41 ≤ n ∧ n ≤ 0x5A := by
  rw [CaseRange.covers_iff]
  simp only [asciiCapitals]
  omega

/-- Below U+0080 only the capital letters of ASCII have another form. -/
theorem isSettled_of_ascii {n : Nat} (hlt : n < 0x80) (hn : ¬ (0x41 ≤ n ∧ n ≤ 0x5A)) :
    IsSettled n := by
  have hrest : ((dottedCapital :: CaseTable.lower.tail).all fun r => 0x80 ≤ r.first) = true := by
    decide +kernel
  have hfirst : ∀ r ∈ dottedCapital :: CaseTable.lower.tail, 0x80 ≤ r.first := by
    simpa only [List.all_eq_true, decide_eq_true_eq] using hrest
  have hcapitals : capitals = dottedCapital :: asciiCapitals :: CaseTable.lower.tail := rfl
  intro r hr
  rw [hcapitals, List.mem_cons, List.mem_cons, or_left_comm, ← List.mem_cons] at hr
  rcases hr with rfl | hr
  · exact Bool.eq_false_iff.2 fun hc => hn (covers_asciiCapitals.1 hc)
  · have := hfirst r hr
    rw [CaseRange.covers_eq_false_iff]
    omega

theorem lookup_lowerLong (n : Nat) :
    CaseTable.lowerLong.lookup n = if n = 0x130 then some [0x69, 0x307] else none := by
  have h : CaseTable.lowerLong = [(0x130, [0x69, 0x307])] := rfl
  rw [h]
  by_cases hn : n = 0x130
  · rw [hn, List.lookup_cons_self, if_pos rfl]
  · rw [List.lookup_cons, beq_eq_false_iff_ne.2 hn, if_neg hn]
    rfl

/-- A point is its own form, or its forms have no other. -/
theorem lower_cases (n : Nat) :
    (lower n = [n] ∧ IsSettled n) ∨ (lower n ≠ [] ∧ ∀ m ∈ lower n, IsLowered m) := by
  rw [lower]
  by_cases hlt : n < 0x80
  · rw [if_pos hlt]
    by_cases hn : 0x41 ≤ n ∧ n ≤ 0x5A
    · have hl := isLowered_image asciiCapitals_mem (covers_asciiCapitals.2 hn)
      rw [show ((n : Int) + asciiCapitals.shift).toNat = n + 32 by
        simp only [asciiCapitals]; omega] at hl
      exact .inr (by simpa [hn.1, hn.2] using hl)
    · refine .inl ⟨?_, isSettled_of_ascii hlt hn⟩
      rw [if_neg (by simpa using hn)]
  · rw [if_neg hlt, mapped, lookup_lowerLong]
    by_cases hd : n = 0x130
    · rw [if_pos hd]
      refine .inr ⟨by simp, fun m hm => isLowered_single ?_⟩
      exact List.mem_append_left [0x3C2, 0x3C3] hm
    · rw [if_neg hd]
      cases hf : CaseTable.lower.find? (·.covers n) with
      | some r =>
        have hc : r.covers n := List.find?_some (p := fun r : CaseRange => r.covers n) hf
        have hl := isLowered_image (List.mem_of_find?_eq_some hf) hc
        exact .inr (by simpa using hl)
      | none =>
        refine .inl ⟨rfl, fun r hr => ?_⟩
        rcases List.mem_cons.1 hr with rfl | hr
        · rw [CaseRange.covers_eq_false_iff]
          simp only [dottedCapital]
          omega
        · simpa using List.find?_eq_none.1 hf r hr

theorem lower_of_settled {n : Nat} (h : IsSettled n) : lower n = [n] := by
  rw [lower]
  by_cases hlt : n < 0x80
  · rw [if_pos hlt, if_neg]
    intro hn
    have hc := covers_asciiCapitals.2 (by simpa using hn)
    rw [h asciiCapitals (List.mem_cons_of_mem _ asciiCapitals_mem)] at hc
    cases hc
  · have hd : n ≠ 0x130 := by
      rintro rfl
      exact absurd (h dottedCapital List.mem_cons_self) (by decide)
    have hf : CaseTable.lower.find? (·.covers n) = none :=
      List.find?_eq_none.2 fun r hr => by simp [h r (List.mem_cons_of_mem _ hr)]
    rw [if_neg hlt, mapped, lookup_lowerLong, if_neg hd, hf]

/-- A capital sigma has another form. -/
theorem ne_sigma_of_settled {n : Nat} (h : IsSettled n) : n ≠ 0x3A3 := by
  rintro rfl
  have hall : (capitals.any fun r => r.covers 0x3A3) = true := by decide +kernel
  obtain ⟨r, hr, hc⟩ := List.any_eq_true.1 hall
  rw [h r hr] at hc
  cases hc

/-! Halves of pairs. -/

def IsLead (n : Nat) : Prop := 0xD800 ≤ n ∧ n ≤ 0xDBFF

def IsTrail (n : Nat) : Prop := 0xDC00 ≤ n ∧ n ≤ 0xDFFF

theorem IsLowered.not_half {n : Nat} (h : IsLowered n) : ¬ (0xD800 ≤ n ∧ n ≤ 0xDFFF) := by
  intro hn
  have := h.free ⟨0xD800, 0xDFFF, 1, 0⟩ (.head _)
  rw [CaseRange.covers_eq_false_iff] at this
  simp only at this
  omega

/-- Points that can be told from their units: no first half of a pair stands before a second one. -/
structure Separate (ns : List Nat) : Prop where
  apart : ns.IsChain fun m n => ¬ (IsLead m ∧ IsTrail n)
  lt : ∀ n ∈ ns, n < 0x110000

theorem Separate.tail {n : Nat} {ns : List Nat} (h : Separate (n :: ns)) : Separate ns :=
  ⟨h.apart.tail, fun m hm => h.lt m (List.mem_cons_of_mem n hm)⟩

end CodePoint

namespace Text

open CodePoint

theorem isLead_iff {u : CodeUnit} : CodeUnit.isLead u ↔ IsLead u.toNat := by
  simp only [CodeUnit.isLead, Bool.and_eq_true, decide_eq_true_eq, UInt16.le_iff_toNat_le, IsLead]
  exact Iff.rfl

theorem isTrail_iff {u : CodeUnit} : CodeUnit.isTrail u ↔ IsTrail u.toNat := by
  simp only [CodeUnit.isTrail, Bool.and_eq_true, decide_eq_true_eq, UInt16.le_iff_toNat_le, IsTrail]
  exact Iff.rfl

theorem toNat_toUInt16 {n : Nat} (h : n < 0x10000) : n.toUInt16.toNat = n := by
  simpa using h

theorem ofCodePoint_toNat (u : CodeUnit) : ofCodePoint u.toNat = [u] := by
  have hlt : u.toNat < 0x10000 := u.toNat_lt
  rw [ofCodePoint, if_pos hlt]
  simp

theorem joinPair_bounds {u v : CodeUnit} (hu : IsLead u.toNat) (hv : IsTrail v.toNat) :
    0x10000 ≤ joinPair u v ∧ joinPair u v < 0x110000 := by
  unfold IsLead at hu
  unfold IsTrail at hv
  unfold joinPair
  omega

theorem ofCodePoint_joinPair {u v : CodeUnit} (hu : IsLead u.toNat) (hv : IsTrail v.toNat) :
    ofCodePoint (joinPair u v) = [u, v] := by
  have hb := (joinPair_bounds hu hv).1
  unfold IsLead at hu
  unfold IsTrail at hv
  rw [ofCodePoint, if_neg (Nat.not_lt.2 hb)]
  unfold joinPair
  have h1 : 0xD800 + (0x10000 + (u.toNat - 0xD800) * 0x400 + (v.toNat - 0xDC00) - 0x10000) / 0x400 =
      u.toNat := by omega
  have h2 : 0xDC00 + (0x10000 + (u.toNat - 0xD800) * 0x400 + (v.toNat - 0xDC00) - 0x10000) % 0x400 =
      v.toNat := by omega
  rw [h1, h2]
  simp

/-- Nothing is lost when a text is seen as points. -/
theorem ofCodePoints_codePoints (t : Text) : ofCodePoints (codePoints t) = t := by
  induction t using codePoints.induct with
  | case1 => rfl
  | case2 u => simp [codePoints, ofCodePoints, ofCodePoint_toNat]
  | case3 u v rest h ih =>
    rw [Bool.and_eq_true] at h
    rw [codePoints, if_pos (by simp [h])]
    simp only [ofCodePoints, List.flatMap_cons] at ih ⊢
    rw [ofCodePoint_joinPair (isLead_iff.1 h.1) (isTrail_iff.1 h.2), ih]
    rfl
  | case4 u v rest h ih =>
    rw [codePoints, if_neg h]
    simp only [ofCodePoints, List.flatMap_cons] at ih ⊢
    rw [ofCodePoint_toNat, ih]
    rfl

/-- The points of a text are separate. -/
theorem separate_codePoints (t : Text) : Separate (codePoints t) := by
  induction t using codePoints.induct with
  | case1 => exact ⟨.nil, by simp [codePoints]⟩
  | case2 u =>
    refine ⟨.singleton _, fun n hn => ?_⟩
    rw [List.mem_singleton.1 hn]
    exact Nat.lt_trans u.toNat_lt (by decide)
  | case3 u v rest h ih =>
    rw [Bool.and_eq_true] at h
    have hb := joinPair_bounds (isLead_iff.1 h.1) (isTrail_iff.1 h.2)
    rw [codePoints, if_pos (by simp [h])]
    refine ⟨List.isChain_cons.2 ⟨fun n _ hn => ?_, ih.apart⟩, List.forall_mem_cons.2 ⟨hb.2, ih.lt⟩⟩
    have := hn.1.2
    omega
  | case4 u v rest h ih =>
    rw [codePoints, if_neg h]
    refine ⟨List.isChain_cons.2 ⟨fun n hn hlt => ?_, ih.apart⟩,
      List.forall_mem_cons.2 ⟨Nat.lt_trans u.toNat_lt (by decide), ih.lt⟩⟩
    -- The next point is the second half alone, or it begins with a first half.
    have hv : n = v.toNat ∨ 0x10000 ≤ n := by
      cases rest with
      | nil =>
        cases hn
        exact .inl rfl
      | cons w rest =>
        rw [codePoints] at hn
        split at hn
        · rename_i hw
          rw [Bool.and_eq_true] at hw
          rw [← Option.some.inj hn]
          exact .inr (joinPair_bounds (isLead_iff.1 hw.1) (isTrail_iff.1 hw.2)).1
        · cases hn
          exact .inl rfl
    rcases hv with rfl | hn
    · exact h (by simp [isLead_iff.2 hlt.1, isTrail_iff.2 hlt.2])
    · have := hlt.2.2
      omega

theorem ofCodePoint_ne_nil (n : Nat) : ofCodePoint n ≠ [] := by
  rw [ofCodePoint]
  split <;> simp

/-- A text that begins with the second half of a pair has it as its first point. -/
theorem isTrail_of_head {n : Nat} (hlt : n < 0x110000) {v : CodeUnit} {rest more : Text}
    (h : ofCodePoint n ++ more = v :: rest) (hv : IsTrail v.toNat) : IsTrail n := by
  rw [ofCodePoint] at h
  split at h
  · rename_i hn
    cases h
    rwa [toNat_toUInt16 hn] at hv
  · cases h
    rw [toNat_toUInt16 (by omega)] at hv
    simp only [IsTrail] at hv
    omega

/-- The points of a text that was made of separate points. -/
theorem codePoints_ofCodePoints {ns : List Nat} (h : Separate ns) :
    codePoints (ofCodePoints ns) = ns := by
  induction ns with
  | nil => rfl
  | cons n ns ih =>
    have hn := h.lt n List.mem_cons_self
    have ih := ih h.tail
    simp only [ofCodePoints, List.flatMap_cons] at ih ⊢
    rw [ofCodePoint]
    split
    · rename_i hlt
      cases hr : ns.flatMap ofCodePoint with
      | nil =>
        rw [hr] at ih
        simp only [codePoints, List.cons_append, List.nil_append, toNat_toUInt16 hlt, ← ih]
      | cons v rest =>
        have hjoin : ¬ (CodeUnit.isLead n.toUInt16 && CodeUnit.isTrail v) = true := by
          rw [Bool.and_eq_true, isLead_iff, isTrail_iff, toNat_toUInt16 hlt]
          rintro ⟨hl, hv⟩
          cases ns with
          | nil => cases hr
          | cons m ns =>
            have hm := isTrail_of_head (h.lt m (by simp)) hr hv
            exact (List.isChain_cons.1 h.apart).1 m rfl ⟨hl, hm⟩
        rw [hr] at ih
        rw [List.cons_append, List.nil_append, codePoints, if_neg hjoin, toNat_toUInt16 hlt, ih]
    · rename_i hge
      have h1 : (0xD800 + (n - 0x10000) / 0x400).toUInt16.toNat = 0xD800 + (n - 0x10000) / 0x400 :=
        toNat_toUInt16 (by omega)
      have h2 : (0xDC00 + (n - 0x10000) % 0x400).toUInt16.toNat = 0xDC00 + (n - 0x10000) % 0x400 :=
        toNat_toUInt16 (by omega)
      have hl := isLead_iff (u := (0xD800 + (n - 0x10000) / 0x400).toUInt16).2
        (by rw [h1, IsLead]; omega)
      have ht := isTrail_iff (u := (0xDC00 + (n - 0x10000) % 0x400).toUInt16).2
        (by rw [h2, IsTrail]; omega)
      have hj : joinPair (0xD800 + (n - 0x10000) / 0x400).toUInt16
          (0xDC00 + (n - 0x10000) % 0x400).toUInt16 = n := by
        unfold joinPair
        omega
      simp only [List.cons_append, List.nil_append, codePoints, hl, ht, Bool.and_self, if_true, hj,
        ih]

/-! Lower case. -/

/-- The form of the first of several points. -/
theorem lowerPoints_cons (seen : List Nat) (n : Nat) (ns : List Nat) :
    ∃ ms, lowerPoints seen (n :: ns) = ms ++ lowerPoints (n :: seen) ns ∧
      ((ms = [n] ∧ IsSettled n) ∨ (ms ≠ [] ∧ ∀ m ∈ ms, IsLowered m)) := by
  refine ⟨_, rfl, ?_⟩
  by_cases hn : n = 0x3A3
  · refine .inr ?_
    simp only [hn, beq_self_eq_true, if_true]
    split <;> refine ⟨by simp, fun m hm => isLowered_single ?_⟩ <;> rw [List.mem_singleton.1 hm] <;>
      decide
  · simpa only [beq_iff_eq, hn, if_false] using lower_cases n

theorem lowerPoints_of_settled {ns : List Nat} (h : ∀ n ∈ ns, IsSettled n) (seen : List Nat) :
    lowerPoints seen ns = ns := by
  induction ns generalizing seen with
  | nil => rfl
  | cons n ns ih =>
    have hn := h n List.mem_cons_self
    rw [lowerPoints, ih fun m hm => h m (List.mem_cons_of_mem n hm)]
    simp only [beq_iff_eq, ne_sigma_of_settled hn, if_false, lower_of_settled hn,
      List.singleton_append]

theorem isSettled_of_mem_lowerPoints {ns seen : List Nat} {m : Nat}
    (h : m ∈ lowerPoints seen ns) : IsSettled m := by
  induction ns generalizing seen with
  | nil => cases h
  | cons n ns ih =>
    obtain ⟨ms, he, hms⟩ := lowerPoints_cons seen n ns
    rw [he] at h
    rcases List.mem_append.1 h with h | h
    · rcases hms with ⟨rfl, hn⟩ | ⟨_, hl⟩
      · rwa [List.mem_singleton.1 h]
      · exact (hl m h).settled
    · exact ih h

/-- Every point of a lower-case form is a point of the text or no half, white space or mark. -/
theorem mem_lowerPoints {ns seen : List Nat} {m : Nat} (h : m ∈ lowerPoints seen ns) :
    m ∈ ns ∨ IsLowered m := by
  induction ns generalizing seen with
  | nil => cases h
  | cons n ns ih =>
    obtain ⟨ms, he, hms⟩ := lowerPoints_cons seen n ns
    rw [he] at h
    rcases List.mem_append.1 h with h | h
    · rcases hms with ⟨rfl, _⟩ | ⟨_, hl⟩
      · rw [List.mem_singleton.1 h]
        exact .inl List.mem_cons_self
      · exact .inr (hl m h)
    · exact (ih h).imp_left (List.mem_cons_of_mem n)

/-- The first point of a lower-case form is the first point of the text or no half of a pair. -/
theorem head_lowerPoints {ns seen : List Nat} {m : Nat} (h : m ∈ (lowerPoints seen ns).head?) :
    m ∈ ns.head? ∨ IsLowered m := by
  cases ns with
  | nil => cases h
  | cons n ns =>
    obtain ⟨ms, he, hms⟩ := lowerPoints_cons seen n ns
    rw [he] at h
    rcases hms with ⟨rfl, _⟩ | ⟨hne, hl⟩
    · cases h
      exact .inl rfl
    · cases ms with
      | nil => exact absurd rfl hne
      | cons k ms =>
        cases h
        exact .inr (hl _ List.mem_cons_self)

/-- The points of a lower-case form are separate. -/
theorem separate_lowerPoints {ns : List Nat} (h : Separate ns) (seen : List Nat) :
    Separate (lowerPoints seen ns) := by
  refine ⟨?_, fun m hm => ?_⟩
  · induction ns generalizing seen with
    | nil => exact .nil
    | cons n ns ih =>
      obtain ⟨ms, he, hms⟩ := lowerPoints_cons seen n ns
      rw [he]
      refine List.isChain_append.2 ⟨?_, ih h.tail _, fun k hk m hm hjoin => ?_⟩
      · rcases hms with ⟨rfl, _⟩ | ⟨_, hl⟩
        · exact .singleton n
        · refine List.Pairwise.isChain (List.pairwise_of_forall_mem_list fun k hk m _ hjoin => ?_)
          exact (hl k hk).not_half ⟨hjoin.1.1, Nat.le_trans hjoin.1.2 (by decide)⟩
      · -- A first half is the point itself, and a second half after it would be the next point.
        rcases hms with ⟨rfl, _⟩ | ⟨_, hl⟩
        · cases hk
          rcases head_lowerPoints hm with hm | hm
          · exact (List.isChain_cons.1 h.apart).1 m hm hjoin
          · exact hm.not_half ⟨Nat.le_trans (by decide) hjoin.2.1, hjoin.2.2⟩
        · exact (hl k (List.mem_of_mem_getLast? hk)).not_half
            ⟨hjoin.1.1, Nat.le_trans hjoin.1.2 (by decide)⟩
  · rcases mem_lowerPoints hm with hm | hm
    · exact h.lt m hm
    · exact hm.lt

/-- The points of an ASCII text are its units. -/
theorem codePoints_of_ascii {t : Text} (h : ∀ u ∈ t, u < 0x80) :
    codePoints t = t.map UInt16.toNat := by
  induction t using codePoints.induct with
  | case1 => rfl
  | case2 u => rfl
  | case3 u v rest hj ih =>
    rw [Bool.and_eq_true] at hj
    have hu : u.toNat < 0x80 := h u List.mem_cons_self
    have := (isLead_iff.1 hj.1).1
    omega
  | case4 u v rest hj ih =>
    rw [codePoints, if_neg hj, ih fun w hw => h w (List.mem_cons_of_mem u hw)]
    rfl

theorem lowerPoints_of_ascii {t : Text} (h : ∀ u ∈ t, u < 0x80) (seen : List Nat) :
    ofCodePoints (lowerPoints seen (t.map UInt16.toNat)) = t.map CodeUnit.asciiLower := by
  induction t generalizing seen with
  | nil => rfl
  | cons u t ih =>
    have hu : u.toNat < 0x80 := h u List.mem_cons_self
    have hlower : ofCodePoints (CodePoint.lower u.toNat) = [CodeUnit.asciiLower u] := by
      have hall : ∀ n : Fin 128, ofCodePoints (CodePoint.lower n) =
          [CodeUnit.asciiLower (UInt16.ofNat n)] := by decide
      simpa using hall ⟨u.toNat, hu⟩
    have hsigma : u.toNat ≠ 0x3A3 := by omega
    have ih := ih (fun v hv => h v (List.mem_cons_of_mem u hv)) (u.toNat :: seen)
    simp only [ofCodePoints] at ih hlower ⊢
    simp only [List.map_cons, lowerPoints, beq_iff_eq, hsigma, if_false, List.flatMap_append,
      hlower, ih, List.singleton_append]

/-- The lower-case form of a text, point by point. -/
theorem toLower_eq (t : Text) : toLower t = ofCodePoints (lowerPoints [] (codePoints t)) := by
  rw [toLower]
  split
  · rename_i h
    have ha : ∀ u ∈ t, u < 0x80 := by simpa using h
    rw [codePoints_of_ascii ha, lowerPoints_of_ascii ha]
  · rfl

/-- A text in lower case is its own lower case. -/
theorem toLower_idem (t : Text) : toLower (toLower t) = toLower t := by
  have hs := separate_lowerPoints (separate_codePoints t) []
  rw [toLower_eq (toLower t), toLower_eq t, codePoints_ofCodePoints hs,
    lowerPoints_of_settled fun _ hm => isSettled_of_mem_lowerPoints hm]

/-- The units of the lower-case form of a text are units of the text or belong to letters. -/
theorem mem_toLower {t : Text} {u : CodeUnit} (h : u ∈ toLower t) :
    u ∈ t ∨ ∃ n, IsLowered n ∧ u ∈ ofCodePoint n := by
  rw [toLower_eq, ofCodePoints] at h
  obtain ⟨n, hn, hu⟩ := List.mem_flatMap.1 h
  rcases mem_lowerPoints hn with hn | hn
  · rw [← ofCodePoints_codePoints t]
    exact .inl (List.mem_flatMap.2 ⟨n, hn, hu⟩)
  · exact .inr ⟨n, hn, hu⟩

theorem toLower_ne_nil {t : Text} (h : t ≠ []) : toLower t ≠ [] := by
  intro he
  rw [toLower_eq] at he
  have hp : codePoints t ≠ [] := fun hp => h (by rw [← ofCodePoints_codePoints t, hp]; rfl)
  cases hc : codePoints t with
  | nil => exact hp hc
  | cons n ns =>
    obtain ⟨ms, hms, hcases⟩ := lowerPoints_cons [] n ns
    rw [hc, hms, ofCodePoints, List.flatMap_append, List.append_eq_nil_iff] at he
    cases ms with
    | nil => rcases hcases with ⟨h, _⟩ | ⟨h, _⟩ <;> exact absurd h (by simp)
    | cons m ms => exact ofCodePoint_ne_nil m (List.append_eq_nil_iff.1 he.1).1

end Text

end PageTemplate
