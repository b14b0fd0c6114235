import PageTemplate.Proofs.Case
import PageTemplate.Url.Parser

/-!
# PageTemplate.Proofs.Url.Encoding

Percent-encoding settles a text: what it writes holds nothing more to be encoded
(`plain_escape`), and a text that holds nothing to be encoded is kept (`escape_of_plain`). A text
without control characters and with visible ends is not changed when it is cleaned
(`clean_of_visible`).
-/

namespace PageTemplate

namespace Text

/-- A text ends in an ASCII character if its last code point is one. -/
theorem getLast?_of_codePoints {t : Text} {n : Nat} (hlt : n < 0x80)
    (h : (codePoints t).getLast? = some n) : ∃ u, t.getLast? = some u ∧ u.toNat = n := by
  induction t using codePoints.induct with
  | case1 => cases h
  | case2 u => exact ⟨u, rfl, Option.some.inj h⟩
  | case3 u v rest hj ih =>
    rw [codePoints, if_pos hj] at h
    rw [Bool.and_eq_true] at hj
    have hb := joinPair_bounds (isLead_iff.1 hj.1) (isTrail_iff.1 hj.2)
    cases hrest : codePoints rest with
    | nil =>
      rw [hrest] at h
      have hn : joinPair u v = n := Option.some.inj h
      omega
    | cons m ms =>
      rw [hrest, List.getLast?_cons_cons, ← hrest] at h
      obtain ⟨w, hw, hn⟩ := ih h
      refine ⟨w, ?_, hn⟩
      cases rest with
      | nil => cases hw
      | cons w' rest => rw [List.getLast?_cons_cons, List.getLast?_cons_cons, hw]
  | case4 u v rest hj ih =>
    rw [codePoints, if_neg hj] at h
    cases hrest : codePoints (v :: rest) with
    | nil =>
      have hne : ofCodePoints (codePoints (v :: rest)) = v :: rest := ofCodePoints_codePoints _
      rw [hrest] at hne
      cases hne
    | cons m ms =>
      rw [hrest, List.getLast?_cons_cons, ← hrest] at h
      obtain ⟨w, hw, hn⟩ := ih h
      exact ⟨w, by rw [List.getLast?_cons_cons, hw], hn⟩

/-- The first unit of a text, when it is an ASCII character. -/
theorem head?_of_codePoints {t : Text} {n : Nat} {ns : List Nat} (hn : n < 0x80)
    (h : codePoints t = n :: ns) : t.head? = some n.toUInt16 := by
  match t with
  | [] => cases h
  | [v] =>
    obtain ⟨rfl, _⟩ := List.cons.inj h
    simp
  | v :: w :: rest =>
    rw [codePoints] at h
    split at h
    · rename_i hpair
      rw [Bool.and_eq_true] at hpair
      have hb := joinPair_bounds (isLead_iff.1 hpair.1) (isTrail_iff.1 hpair.2)
      have hv := (List.cons.inj h).1
      omega
    · obtain ⟨rfl, _⟩ := List.cons.inj h
      simp

theorem mem_of_mem_codePoints {t : Text} {n : Nat} (h : n ∈ codePoints t) (hlt : n < 0xD800) :
    n.toUInt16 ∈ t := by
  rw [← ofCodePoints_codePoints t]
  refine List.mem_flatMap.2 ⟨n, h, ?_⟩
  rw [ofCodePoint, if_pos (by omega)]
  exact List.mem_singleton.2 rfl

end Text

namespace Url

/-- The units that percent-encoding writes. -/
def encodingUnits : Text := "%0123456789ABCDEF"

/-- What a set of characters to be encoded has in common with the others: it has all that are not
visible ASCII characters or the blank, and none that encoding writes. -/
structure Encodes (isEscaped : Nat → Bool) : Prop where
  control : ∀ n, isControl n → isEscaped n
  written : encodingUnits.all fun u => !isEscaped u.toNat

/-- A text that holds nothing to be encoded. -/
def Plain (isEscaped : Nat → Bool) (t : Text) : Prop := ∀ u ∈ t, isEscaped u.toNat = false

theorem encodes_control : Encodes isControl := ⟨fun _ h => h, by decide⟩

theorem encodes_fragment : Encodes escapedInFragment :=
  ⟨fun _ h => by simp [escapedInFragment, h], by decide⟩

theorem encodes_query : Encodes escapedInQuery :=
  ⟨fun _ h => by simp [escapedInQuery, h], by decide⟩

theorem encodes_specialQuery : Encodes escapedInSpecialQuery :=
  ⟨fun n h => by simp [escapedInSpecialQuery, encodes_query.control n h], by decide⟩

theorem encodes_path : Encodes escapedInPath :=
  ⟨fun n h => by simp [escapedInPath, encodes_query.control n h], by decide⟩

theorem encodes_user : Encodes escapedInUser :=
  ⟨fun n h => by simp [escapedInUser, encodes_path.control n h], by decide⟩

theorem bounds_of_not_control {n : Nat} (h : isControl n = false) : 0x20 ≤ n ∧ n ≤ 0x7E := by
  simp only [isControl, Bool.or_eq_false_iff, decide_eq_false_iff_not] at h
  omega

variable {isEscaped : Nat → Bool} {t : Text} {u : CodeUnit}

theorem Encodes.not_control (he : Encodes isEscaped) {n : Nat} (h : isEscaped n = false) :
    isControl n = false := by
  cases hc : isControl n with
  | false => rfl
  | true =>
    rw [he.control n hc] at h
    cases h

theorem Plain.not_control (he : Encodes isEscaped) (h : Plain isEscaped t) : Plain isControl t :=
  fun u hu => he.not_control (h u hu)

/-- What a set has to have encoded does not stand in a text without such characters. -/
theorem Plain.not_mem (h : Plain isEscaped t) (hu : isEscaped u.toNat) : u ∉ t := by
  intro hm
  rw [h u hm] at hu
  cases hu

theorem Plain.lt_of_control (h : Plain isControl t) (hu : u ∈ t) : u < 0x80 := by
  have hb := (bounds_of_not_control (h u hu)).2
  rw [UInt16.lt_iff_toNat_lt]
  exact Nat.lt_of_le_of_lt hb (by decide)

/-- **Encoding keeps a text that holds nothing to be encoded.** -/
theorem escape_of_plain (he : Encodes isEscaped) (h : Plain isEscaped t) :
    escape isEscaped t = t := by
  rw [escape, Text.codePoints_of_ascii fun u hu => (h.not_control he).lt_of_control hu,
    List.flatMap_map]
  induction t with
  | nil => rfl
  | cons u t ih =>
    rw [List.flatMap_cons, ih fun v hv => h v (List.mem_cons_of_mem u hv),
      if_neg (by simp [h u List.mem_cons_self]), Text.ofCodePoint_toNat]
    rfl

theorem mem_encodeByte {b : UInt8} (h : u ∈ Percent.encodeByte b) : u ∈ encodingUnits := by
  have hall : ∀ n < 16, Percent.hexDigit n ∈ encodingUnits := by decide
  have hb : b.toNat < 256 := b.toNat_lt
  simp only [Percent.encodeByte, List.mem_cons, List.not_mem_nil, or_false] at h
  rcases h with rfl | rfl | rfl
  · decide
  · exact hall _ (by omega)
  · exact hall _ (by omega)

/-- A unit of an encoded text was written by the encoding or is one of the text, a visible ASCII
character or a blank. -/
theorem mem_escape (he : Encodes isEscaped) (h : u ∈ escape isEscaped t) :
    u ∈ encodingUnits ∨ isEscaped u.toNat = false ∧ u ∈ t := by
  obtain ⟨n, hn, hu⟩ := List.mem_flatMap.1 h
  split at hu
  · obtain ⟨b, _, hb⟩ := List.mem_flatMap.1 hu
    exact .inl (mem_encodeByte hb)
  · rename_i hnot
    have hnot := Bool.eq_false_iff.2 hnot
    have hb := (bounds_of_not_control (he.not_control hnot)).2
    rw [Text.ofCodePoint, if_pos (by omega), List.mem_singleton] at hu
    have hun : u.toNat = n := by rw [hu, Text.toNat_toUInt16 (by omega)]
    exact .inr ⟨hun ▸ hnot, hu ▸ Text.mem_of_mem_codePoints hn (by omega)⟩

/-- **Encoding leaves nothing to be encoded.** -/
theorem plain_escape (he : Encodes isEscaped) (t : Text) :
    Plain isEscaped (escape isEscaped t) := by
  intro u hu
  rcases mem_escape he hu with hu | ⟨hu, _⟩
  · simpa using List.all_eq_true.1 he.written u hu
  · exact hu

/-- What is written for a code point is not empty. -/
theorem encodedPoint_ne_nil (n : Nat) :
    (Utf8.encode (Text.ofCodePoint n)).flatMap Percent.encodeByte ≠ [] := by
  have hpoint : ∀ n, Utf8.encodePoint n ≠ [] := by
    intro n
    unfold Utf8.encodePoint
    split_ifs <;> exact List.cons_ne_nil _ _
  cases hp : Text.codePoints (Text.ofCodePoint n) with
  | nil =>
    have hne := Text.ofCodePoint_ne_nil n
    rw [← Text.ofCodePoints_codePoints (Text.ofCodePoint n), hp] at hne
    exact absurd rfl hne
  | cons m ms =>
    rw [Utf8.encode, hp, List.flatMap_cons]
    cases hb : Utf8.encodePoint (if 0xD800 ≤ m && m ≤ 0xDFFF then 0xFFFD else m) with
    | nil => exact absurd hb (hpoint _)
    | cons b bs => exact List.cons_ne_nil _ _

theorem escape_ne_nil (h : t ≠ []) : escape isEscaped t ≠ [] := by
  cases hp : Text.codePoints t with
  | nil =>
    rw [← Text.ofCodePoints_codePoints t, hp] at h
    exact absurd rfl h
  | cons n ns =>
    rw [escape, hp, List.flatMap_cons]
    refine List.append_ne_nil_of_left_ne_nil ?_ _
    split
    · exact encodedPoint_ne_nil n
    · exact Text.ofCodePoint_ne_nil n

/-- An encoded text starts with a character that the encoding does not write only if the text
does. -/
theorem head?_escape (he : Encodes isEscaped) (hu : u ∉ encodingUnits)
    (h : (escape isEscaped t).head? = some u) : t.head? = some u := by
  cases hp : Text.codePoints t with
  | nil =>
    rw [escape, hp] at h
    cases h
  | cons n ns =>
    rw [escape, hp, List.flatMap_cons] at h
    split at h
    · rw [List.head?_append_of_ne_nil _ (encodedPoint_ne_nil n)] at h
      obtain ⟨b, _, hb⟩ := List.mem_flatMap.1 (List.mem_of_head? h)
      exact absurd (mem_encodeByte hb) hu
    · rename_i hnot
      have hb := (bounds_of_not_control (he.not_control (Bool.eq_false_iff.2 hnot))).2
      rw [Text.ofCodePoint, if_pos (by omega)] at h
      rw [Text.head?_of_codePoints (by omega) hp]
      exact h

/-- An encoded text ends in a blank only if the text does. -/
theorem getLast?_escape (he : Encodes isEscaped) (h : (escape isEscaped t).getLast? = some 0x20) :
    t.getLast? = some 0x20 := by
  rcases List.eq_nil_or_concat' (Text.codePoints t) with hnil | ⟨ns, n, hns⟩
  · rw [escape, hnil] at h
    cases h
  rw [escape, hns, List.flatMap_append, List.flatMap_cons, List.flatMap_nil, List.append_nil] at h
  have hn : n = 0x20 := by
    split at h
    · -- What the encoding writes is not empty, and holds no blank.
      rw [List.getLast?_append_of_ne_nil _ (encodedPoint_ne_nil n)] at h
      obtain ⟨b, _, hb⟩ := List.mem_flatMap.1 (List.mem_of_getLast? h)
      exact absurd (mem_encodeByte hb) (by decide)
    · rename_i hnot
      have hb := (bounds_of_not_control (he.not_control (Bool.eq_false_iff.2 hnot))).2
      rw [List.getLast?_append_of_ne_nil _ (Text.ofCodePoint_ne_nil n), Text.ofCodePoint,
        if_pos (by omega)] at h
      have hunit : n.toUInt16 = 0x20 := Option.some.inj h
      rw [← Text.toNat_toUInt16 (n := n) (by omega), hunit]
      rfl
  have hlast : (Text.codePoints t).getLast? = some n := by rw [hns, List.getLast?_concat]
  obtain ⟨u, hu, hun⟩ := Text.getLast?_of_codePoints (by omega) hlast
  rw [hu, UInt16.toNat_inj.1 (show u.toNat = (0x20 : CodeUnit).toNat from hun.trans hn)]

/-- **Cleaning keeps a text without control characters** whose ends are no blanks. -/
theorem clean_of_visible (h : ∀ u ∈ t, 0x20 ≤ u) (hhead : ∀ u ∈ t.head?, 0x20 < u)
    (hlast : ∀ u ∈ t.getLast?, 0x20 < u) : clean t = t := by
  have hdrop : ∀ s : Text, (∀ u ∈ s.head?, 0x20 < u) →
      s.dropWhile (fun u => decide (u ≤ 0x20)) = s := by
    intro s hs
    cases s with
    | nil => rfl
    | cons v s =>
      have hv := UInt16.not_le.2 (hs v rfl)
      rw [List.dropWhile_cons_of_neg (by simpa using hv)]
  simp only [clean, Text.dropEndWhile]
  rw [hdrop t hhead, hdrop t.reverse (by simpa using hlast), List.reverse_reverse,
    List.filter_eq_self]
  intro u hu
  have hu := UInt16.le_iff_toNat_le.1 (h u hu)
  have hne : ∀ v : CodeUnit, v < 0x20 → u ≠ v := by
    rintro v hv rfl
    exact absurd (h u ‹_›) (UInt16.not_le.2 hv)
  simp [hne 9 (by decide), hne 10 (by decide), hne 13 (by decide)]

/-- A cleaned text does not end in a blank. -/
theorem getLast?_clean (t : Text) : (clean t).getLast? ≠ some 0x20 := by
  simp only [clean, Text.dropEndWhile, List.filter_reverse, List.getLast?_reverse]
  generalize (List.dropWhile _ t).reverse = s
  intro h
  cases hs : s.dropWhile fun u => decide (u ≤ 0x20) with
  | nil =>
    rw [hs] at h
    cases h
  | cons u more =>
    have hu : ¬ u ≤ 0x20 := by
      have hhead := List.head?_dropWhile_not (fun u : CodeUnit => decide (u ≤ 0x20)) s
      rw [hs] at hhead
      simpa using hhead
    have hkept : ∀ v : CodeUnit, v ≤ 0x20 → (u != v) = true := by
      rintro v hv
      rw [bne_iff_ne]
      rintro rfl
      exact hu hv
    rw [hs, List.filter_cons_of_pos (by simp [hkept 9 (by decide), hkept 10 (by decide),
      hkept 13 (by decide)])] at h
    exact hu (Option.some.inj h ▸ UInt16.le_refl _)

end Url

end PageTemplate
