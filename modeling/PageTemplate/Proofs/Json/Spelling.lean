import Mathlib.Tactic.IntervalCases
import PageTemplate.Json
import PageTemplate.Number.Format
import PageTemplate.Proofs.Json.Numeral

/-!
# PageTemplate.Proofs.Json.Spelling

Quoted text is read back as the text that was quoted. That stays so when units that mean something
in markup are written by their number: inside quotes such a unit always stands for itself, it is
never the second half of an escape.

Texts that spell a JSON document: wherever they stand, they are read as that document, also when
units that mean something in markup are written by their number. The pieces that values are
written with spell documents, and so do the texts that are put together from them.
-/

namespace PageTemplate

namespace Json

open CodeUnit

/-- The units that have a meaning inside a script: the marks of markup and the line ends that are
no line ends in JSON. -/
def isMarkup (u : CodeUnit) : Bool :=
  u == unit '<' || u == unit '>' || u == unit '&' || u == 0x2028 || u == 0x2029

/-- A way to write units: those that have a meaning inside a script may be written by their
number, the others are written as they are. -/
structure Recoding (e : CodeUnit → Text) : Prop where
  plain : ∀ u, isMarkup u = false → e u = [u]
  markup : ∀ u, isMarkup u → e u = [u] ∨ e u = escapeNumber u

/-- Writing every unit as it is. -/
theorem recoding_self : Recoding fun u => [u] := ⟨fun _ _ => rfl, fun _ _ => .inl rfl⟩

theorem Recoding.flatMap_plain {e : CodeUnit → Text} (he : Recoding e) {t : Text}
    (h : ∀ u ∈ t, isMarkup u = false) : t.flatMap e = t := by
  induction t with
  | nil => rfl
  | cons u t ih =>
    rw [List.flatMap_cons, he.plain u (h u List.mem_cons_self),
      ih fun v hv => h v (List.mem_cons_of_mem u hv)]
    rfl

theorem Recoding.flatMap_word {e : CodeUnit → Text} (he : Recoding e) {t : Text}
    (h : t.all (fun u => !isMarkup u) = true) : t.flatMap e = t :=
  he.flatMap_plain fun u hu => by simpa using List.all_eq_true.1 h u hu

/-! Hexadecimal digits. -/

theorem hex4_eq (u : CodeUnit) :
    hex4 u = [Number.digitUnit (u.toNat / 4096), Number.digitUnit (u.toNat / 256 % 16),
      Number.digitUnit (u.toNat / 16 % 16), Number.digitUnit (u.toNat % 16)] :=
  rfl

theorem digitUnit_spec {n : Nat} (h : n < 16) :
    isHexDigit (Number.digitUnit n) ∧ digitValue? (Number.digitUnit n) = some n ∧
      isMarkup (Number.digitUnit n) = false := by
  interval_cases n <;> decide

theorem isMarkup_of_mem_escapeNumber {u v : CodeUnit} (h : v ∈ escapeNumber u) :
    isMarkup v = false := by
  have := u.toNat_lt
  simp only [escapeNumber, hex4_eq, List.mem_cons, List.not_mem_nil, or_false] at h
  rcases h with rfl | rfl | rfl | rfl | rfl | rfl
  · decide
  · decide
  all_goals exact (digitUnit_spec (by omega)).2.2

/-! Inside quotes. -/

/-- A piece of quoted text that stands for one unit. -/
def Denotes (piece : Text) (u : CodeUnit) : Prop :=
  ∀ rest, readText? (piece ++ rest) = (readText? rest).map fun (t, r) => (u :: t, r)

theorem denotes_self {u : CodeUnit} (hquote : u ≠ unit '"') (hslash : u ≠ unit '\\')
    (hlow : ¬ u < 0x20) : Denotes [u] u := by
  intro rest
  rw [List.cons_append, List.nil_append, readText?.eq_def]
  simp only [beq_iff_eq, hquote, hslash, hlow, if_false]

theorem denotes_letter {e v : CodeUnit} (hu : e ≠ unit 'u') (h : letterEscape? e = some v) :
    Denotes [unit '\\', e] v := by
  intro rest
  have hquote : (unit '\\' == unit '"') = false := by decide
  have hlow : ¬ unit '\\' < 0x20 := by decide
  rw [List.cons_append, List.cons_append, List.nil_append, readText?.eq_def]
  simp only [hquote, hlow, beq_self_eq_true, beq_iff_eq, hu, h, if_true, if_false,
    Bool.false_eq_true]

/-- A unit that is written by its number. -/
theorem denotes_escapeNumber (u : CodeUnit) : Denotes (escapeNumber u) u := by
  intro rest
  have hlt : u.toNat < 65536 := u.toNat_lt
  have hquote : (unit '\\' == unit '"') = false := by decide
  have hlow : ¬ unit '\\' < 0x20 := by decide
  obtain ⟨ha, ha', _⟩ := digitUnit_spec (n := u.toNat / 4096) (by omega)
  obtain ⟨hb, hb', _⟩ := digitUnit_spec (n := u.toNat / 256 % 16) (by omega)
  obtain ⟨hc, hc', _⟩ := digitUnit_spec (n := u.toNat / 16 % 16) (by omega)
  obtain ⟨hd, hd', _⟩ := digitUnit_spec (n := u.toNat % 16) (by omega)
  have hvalue : Text.readNat 16 (hex4 u) = u.toNat := by
    simp only [Text.readNat, hex4_eq, List.foldl_cons, List.foldl_nil, ha', hb', hc', hd',
      Option.getD_some]
    omega
  have hall : (hex4 u).all isHexDigit = true := by
    simp only [hex4_eq, List.all_cons, List.all_nil, ha, hb, hc, hd, Bool.and_self]
  rw [hex4_eq] at hvalue hall
  rw [escapeNumber, hex4_eq, List.cons_append, readText?.eq_def]
  simp only [List.cons_append, List.nil_append, hquote, hlow, beq_self_eq_true, if_true, if_false,
    Bool.false_eq_true, hvalue, hall]
  rw [Nat.toUInt16_eq, UInt16.ofNat_toNat]

/-- A unit that needs no escape denotes itself however it is recoded. -/
theorem Recoding.denotes {e : CodeUnit → Text} (he : Recoding e) {u : CodeUnit}
    (hquote : u ≠ unit '"') (hslash : u ≠ unit '\\') (hlow : ¬ u < 0x20) : Denotes (e u) u := by
  cases hu : isMarkup u with
  | false =>
    rw [he.plain u hu]
    exact denotes_self hquote hslash hlow
  | true =>
    rcases he.markup u hu with h | h
    · rw [h]
      exact denotes_self hquote hslash hlow
    · rw [h]
      exact denotes_escapeNumber u

theorem Recoding.denotes_escapeNumber {e : CodeUnit → Text} (he : Recoding e) (u : CodeUnit) :
    Denotes ((escapeNumber u).flatMap e) u := by
  rw [he.flatMap_plain fun v => isMarkup_of_mem_escapeNumber]
  exact Json.denotes_escapeNumber u

theorem Recoding.denotes_letter {e : CodeUnit → Text} (he : Recoding e) {c v : CodeUnit}
    (hc : isMarkup c = false) (hu : c ≠ unit 'u') (h : letterEscape? c = some v) :
    Denotes ([unit '\\', c].flatMap e) v := by
  have hslash : isMarkup (unit '\\') = false := by decide
  rw [he.flatMap_plain (by simp [hslash, hc])]
  exact Json.denotes_letter hu h

/-- The escape of a unit denotes the unit however it is recoded. -/
theorem Recoding.denotes_escapeUnit {e : CodeUnit → Text} (he : Recoding e) (u : CodeUnit) :
    Denotes ((escapeUnit u).flatMap e) u := by
  unfold escapeUnit
  split
  · rename_i h
    rw [beq_iff_eq.1 h]
    exact he.denotes_letter (by decide) (by decide) (by decide)
  rename_i hquote
  split
  · rename_i h
    rw [beq_iff_eq.1 h]
    exact he.denotes_letter (by decide) (by decide) (by decide)
  rename_i hslash
  iterate 5
    split
    · rename_i h
      rw [beq_iff_eq.1 h]
      exact he.denotes_letter (by decide) (by decide) (by decide)
  split
  · exact he.denotes_escapeNumber u
  · rename_i hlow
    rw [List.flatMap_cons, List.flatMap_nil, List.append_nil]
    exact he.denotes (by simpa using hquote) (by simpa using hslash) hlow

/-- A half of a surrogate pair needs no escape as long as the other half is with it. -/
theorem Recoding.denotes_surrogate {e : CodeUnit → Text} (he : Recoding e) {u : CodeUnit}
    (h : isLead u ∨ isTrail u) : Denotes (e u) u := by
  have hlarge : 0xD800 ≤ u := by
    rcases h with h | h
    · simp only [isLead, Bool.and_eq_true, decide_eq_true_eq] at h
      exact h.1
    · simp only [isTrail, Bool.and_eq_true, decide_eq_true_eq] at h
      exact UInt16.le_trans (by decide) h.1
  have hne : ∀ v : CodeUnit, v < 0xD800 → u ≠ v := by
    rintro v hv rfl
    exact absurd hlarge (UInt16.not_le.2 hv)
  exact he.denotes (hne _ (by decide)) (hne _ (by decide))
    fun hlt => absurd hlarge (UInt16.not_le.2 (UInt16.lt_trans hlt (by decide)))

/-- Quoted text is read up to its closing quote as the text that was quoted. -/
theorem Recoding.readText?_escapeText {e : CodeUnit → Text} (he : Recoding e) (t rest : Text) :
    readText? ((escapeText t).flatMap e ++ unit '"' :: rest) = some (t, rest) := by
  have step : ∀ {piece m : Text} {u : CodeUnit} {t : Text}, Denotes piece u →
      readText? (m ++ unit '"' :: rest) = some (t, rest) →
      readText? (piece ++ m ++ unit '"' :: rest) = some (u :: t, rest) := by
    intro piece m u t hd hm
    rw [List.append_assoc, hd, hm]
    rfl
  have close : readText? (unit '"' :: rest) = some ([], rest) := by
    rw [readText?.eq_def]
    rfl
  induction t using escapeText.induct with
  | case1 => exact close
  | case2 u hhalf =>
    rw [escapeText, if_pos hhalf]
    simpa using step (m := []) (he.denotes_escapeNumber u) close
  | case3 u hhalf =>
    rw [escapeText, if_neg hhalf]
    simpa using step (m := []) (he.denotes_escapeUnit u) close
  | case4 u v more hpair ih =>
    obtain ⟨hu, hv⟩ := Bool.and_eq_true_iff.1 hpair
    rw [escapeText, if_pos hpair, List.flatMap_cons, List.flatMap_cons]
    have := step (he.denotes_surrogate (.inl hu)) (step (he.denotes_surrogate (.inr hv)) ih)
    simpa using this
  | case5 u v more hpair hhalf ih =>
    rw [escapeText, if_neg hpair, if_pos hhalf, List.flatMap_append]
    exact step (he.denotes_escapeNumber u) ih
  | case6 u v more hpair hhalf ih =>
    rw [escapeText, if_neg hpair, if_neg hhalf, List.flatMap_append]
    exact step (he.denotes_escapeUnit u) ih

theorem Recoding.flatMap_quote {e : CodeUnit → Text} (he : Recoding e) (t : Text) :
    (quote t).flatMap e = unit '"' :: ((escapeText t).flatMap e ++ [unit '"']) := by
  have hquote : e (unit '"') = [unit '"'] := he.plain _ (by decide)
  simp [quote, List.flatMap_cons, List.flatMap_append, hquote]

/-! Spelling. -/

variable {e : CodeUnit → Text}

/-- The units that a value other than `true` begins with. -/
def isStart (u : CodeUnit) : Bool :=
  isDigit u || u == unit '-' || u == unit '"' || u == unit '[' || u == unit '\x7b' ||
    u == unit 'n' || u == unit 'f'

/-- A text that is read as a document, however it is recoded and wherever it ends. -/
structure Spells (t : Text) (document : Json) : Prop where
  start : t = Text.ofString "true" ∨ ∃ u more, t = u :: more ∧ isStart u
  reads : ∀ e, Recoding e → ∀ fuel rest, 2 * (t.flatMap e).length ≤ fuel → Ends rest →
    readValue? fuel (t.flatMap e ++ rest) = some (document, rest)

/-- A unit of a kind to which no space belongs. -/
theorem isSpace_eq_false {p : CodeUnit → Bool} {u : CodeUnit} (h : p u)
    (hp : ([32, 9, 10, 13] : Text).all (fun v => !p v) = true) : isSpace u = false := by
  cases hs : isSpace u with
  | false => rfl
  | true =>
    have hmem : u ∈ ([32, 9, 10, 13] : Text) := by
      simpa [isSpace, or_assoc] using hs
    simpa [h] using List.all_eq_true.1 hp u hmem

/-- A unit of a kind to which no mark of markup belongs. -/
theorem isMarkup_eq_false {p : CodeUnit → Bool} {u : CodeUnit} (h : p u)
    (hp : ([unit '<', unit '>', unit '&', 0x2028, 0x2029] : Text).all (fun v => !p v) = true) :
    isMarkup u = false := by
  cases hm : isMarkup u with
  | false => rfl
  | true =>
    have hmem : u ∈ ([unit '<', unit '>', unit '&', 0x2028, 0x2029] : Text) := by
      simpa [isMarkup, or_assoc] using hm
    simpa [h] using List.all_eq_true.1 hp u hmem

theorem isMarkup_of_isStart {u : CodeUnit} (h : isStart u) : isMarkup u = false :=
  isMarkup_eq_false h (by decide)

theorem isMarkup_of_isNumeralUnit {u : CodeUnit} (h : Numeral.isNumeralUnit u) :
    isMarkup u = false :=
  isMarkup_eq_false h (by decide)

theorem skipSpace_cons {u : CodeUnit} (h : isSpace u = false) (t : Text) :
    skipSpace (u :: t) = u :: t := by
  rw [skipSpace, List.dropWhile_cons_of_neg (by simp [h])]

/-- The fuel for a text that is not empty. -/
theorem exists_fuel {t : Text} {fuel : Nat} (hne : t ≠ []) (h : 2 * t.length ≤ fuel) :
    ∃ n, fuel = n + 1 ∧ 2 * t.length ≤ n + 1 := by
  have : 0 < t.length := List.length_pos_iff.2 hne
  exact ⟨fuel - 1, by omega, by omega⟩

/-! Words, texts and numbers. -/

theorem spells_null : Spells "null" .null where
  start := .inr ⟨unit 'n', "ull", rfl, by decide⟩
  reads e he fuel rest hf hr := by
    rw [he.flatMap_word (t := "null") (by decide)] at hf ⊢
    obtain ⟨n, rfl, _⟩ := exists_fuel (by decide) hf
    rfl

theorem spells_bool (b : Bool) : Spells (if b then "true" else "false") (.bool b) where
  start := by
    cases b
    · exact .inr ⟨unit 'f', "alse", rfl, by decide⟩
    · exact .inl rfl
  reads e he fuel rest hf hr := by
    cases b
    · rw [if_neg (by decide), he.flatMap_word (t := "false") (by decide)] at hf ⊢
      obtain ⟨n, rfl, _⟩ := exists_fuel (by decide) hf
      rfl
    · rw [if_pos rfl, he.flatMap_word (t := "true") (by decide)] at hf ⊢
      obtain ⟨n, rfl, _⟩ := exists_fuel (by decide) hf
      rfl

theorem spells_quote (t : Text) : Spells (quote t) (.text t) where
  start := .inr ⟨unit '"', escapeText t ++ [unit '"'], rfl, by decide⟩
  reads e he fuel rest hf hr := by
    rw [he.flatMap_quote] at hf ⊢
    obtain ⟨n, rfl, _⟩ := exists_fuel (List.cons_ne_nil _ _) hf
    rw [List.cons_append, List.append_assoc, List.cons_append, List.nil_append, readValue?,
      skipSpace_cons (by decide)]
    simp only [beq_self_eq_true, if_true, he.readText?_escapeText, Option.map_some]

/-- A value that begins with a digit or a minus sign is read as a number. -/
theorem readValue?_number {u : CodeUnit} (h : isDigit u ∨ u = unit '-') (n : Nat) (t : Text) :
    readValue? (n + 1) (u :: t) = (readNumber? (u :: t)).map fun (x, r) => (.number x, r) := by
  have hne : ∀ v : CodeUnit, isDigit v = false → v ≠ unit '-' → u ≠ v := by
    rintro v hv hm rfl
    rcases h with h | h
    · rw [hv] at h
      cases h
    · exact hm h
  have hspace : isSpace u = false :=
    isSpace_eq_false (p := isStart) (by rcases h with h | rfl <;> simp [isStart, *]) (by decide)
  have hword : ∀ (c : CodeUnit) (word : Text), isDigit c = false → c ≠ unit '-' →
      Text.afterPrefix (c :: word) (u :: t) = none := by
    intro c word hc hm
    rw [Text.afterPrefix, if_neg (by simpa using (hne c hc hm).symm)]
  have htrue : Text.afterPrefix "true" (u :: t) = none :=
    hword (unit 't') "rue" (by decide) (by decide)
  have hfalse : Text.afterPrefix "false" (u :: t) = none :=
    hword (unit 'f') "alse" (by decide) (by decide)
  have hnull : Text.afterPrefix "null" (u :: t) = none :=
    hword (unit 'n') "ull" (by decide) (by decide)
  rw [readValue?, skipSpace_cons hspace]
  simp only [beq_iff_eq, hne _ (by decide : isDigit (unit '"') = false) (by decide),
    hne _ (by decide : isDigit (unit '[') = false) (by decide),
    hne _ (by decide : isDigit (unit '\x7b') = false) (by decide), if_false, htrue, hfalse, hnull]

theorem spells_numeral (n : Numeral) : Spells n.text (.number n.value) := by
  obtain ⟨u, more, hu, hd⟩ := n.text_eq_cons
  refine ⟨.inr ⟨u, more, hu, by simp [isStart, hd]⟩, fun e he fuel rest hf hr => ?_⟩
  have hplain : ∀ v ∈ n.text, isMarkup v = false :=
    fun v hv => isMarkup_of_isNumeralUnit (Numeral.isNumeralUnit_of_mem_text hv)
  rw [he.flatMap_plain hplain] at hf ⊢
  obtain ⟨m, rfl, _⟩ := exists_fuel (by simp [hu]) hf
  have hread := n.readNumber?_text hr
  rw [hu, List.cons_append] at hread ⊢
  rw [readValue?_number (.inl hd), hread]
  rfl

theorem spells_negative (n : Numeral) : Spells (unit '-' :: n.text) (.number (-n.value)) := by
  refine ⟨.inr ⟨unit '-', n.text, rfl, by decide⟩, fun e he fuel rest hf hr => ?_⟩
  have hplain : ∀ v ∈ unit '-' :: n.text, isMarkup v = false := by
    intro v hv
    rcases List.mem_cons.1 hv with rfl | hv
    · decide
    · exact isMarkup_of_isNumeralUnit (Numeral.isNumeralUnit_of_mem_text hv)
  rw [he.flatMap_plain hplain] at hf ⊢
  obtain ⟨m, rfl, _⟩ := exists_fuel (List.cons_ne_nil _ _) hf
  have hread := n.readNumber?_negative hr
  rw [List.cons_append] at hread ⊢
  rw [readValue?_number (.inr rfl), hread]
  rfl

/-- Every finite number spells a number. -/
theorem spells_format {x : Float} (hnan : x.isNaN = false) (hinf : x.isInf = false) :
    ∃ y, Spells (Number.format x) (.number y) := by
  obtain ⟨n, h | h⟩ := Number.exists_numeral_format hnan hinf
  · exact ⟨n.value, h ▸ spells_numeral n⟩
  · exact ⟨-n.value, h ▸ spells_negative n⟩

/-! Sequences. -/

/-- Recoding leaves the first unit of a value as it is, and that is neither space nor a closing
bracket. -/
theorem Spells.flatMap_eq_cons {t : Text} {document : Json} (h : Spells t document)
    (he : Recoding e) :
    ∃ u more, t.flatMap e = u :: more ∧ isSpace u = false ∧ u ≠ unit ']' := by
  rcases h.start with rfl | ⟨u, more, rfl, hu⟩
  · rw [he.flatMap_word (t := "true") (by decide)]
    exact ⟨unit 't', "rue", rfl, by decide, by decide⟩
  · refine ⟨u, more.flatMap e, ?_, isSpace_eq_false hu (by decide), ?_⟩
    · rw [List.flatMap_cons, he.plain u (isMarkup_of_isStart hu)]
      rfl
    · rintro rfl
      exact absurd hu (by decide)

theorem join_cons_cons (separator p q : Text) (pieces : List Text) :
    Text.join separator (p :: q :: pieces) = p ++ (separator ++ Text.join separator (q :: pieces)) := by
  simp [Text.join, List.intercalate]

theorem join_singleton (separator p : Text) : Text.join separator [p] = p := by
  simp [Text.join, List.intercalate]

/-- What is joined begins with the first piece. -/
theorem exists_join_cons (separator p : Text) (pieces : List Text) :
    ∃ tail, Text.join separator (p :: pieces) = p ++ tail := by
  cases pieces with
  | nil => exact ⟨[], by rw [join_singleton, List.append_nil]⟩
  | cons q pieces => exact ⟨_, join_cons_cons separator p q pieces⟩

/-- Texts that spell one document each, with commas between them, are read as the items of an
array up to its bracket. -/
theorem readItems?_join {pieces : List Text} {documents : List Json}
    (h : List.Forall₂ Spells pieces documents) (hne : pieces ≠ []) (he : Recoding e) (fuel : Nat)
    (rest : Text) (hf : 2 * ((Text.join [unit ','] pieces).flatMap e).length < fuel) :
    readItems? fuel ((Text.join [unit ','] pieces).flatMap e ++ unit ']' :: rest) =
      some (documents, rest) := by
  have hcomma : e (unit ',') = [unit ','] := he.plain _ (by decide)
  induction h generalizing fuel with
  | nil => exact absurd rfl hne
  | @cons p d pieces documents hp hrest ih =>
    obtain ⟨n, rfl⟩ : ∃ n, fuel = n + 1 := ⟨fuel - 1, by omega⟩
    cases hrest with
    | nil =>
      rw [join_singleton] at hf ⊢
      have hread := hp.reads e he n (unit ']' :: rest) (by omega) (ends_cons (.inr (.inl rfl)) rest)
      rw [readItems?, hread]
      simp only [skipSpace_cons (show isSpace (unit ']') = false by decide)]
      rfl
    | @cons q d' pieces documents hq hrest =>
      rw [join_cons_cons, List.flatMap_append, List.flatMap_append, List.flatMap_cons, hcomma,
        List.flatMap_nil, List.append_nil] at hf ⊢
      simp only [List.length_append, List.length_singleton] at hf
      rw [List.append_assoc, List.append_assoc, List.cons_append, List.nil_append]
      have hread := hp.reads e he n (unit ',' :: ((Text.join [unit ','] (q :: pieces)).flatMap e ++
        unit ']' :: rest)) (by omega) (ends_cons (.inl rfl) _)
      have hmore := ih (List.cons_ne_nil q pieces) n (by omega)
      rw [readItems?, hread]
      simp only [skipSpace_cons (show isSpace (unit ',') = false by decide), beq_self_eq_true,
        if_true, hmore, Option.map_some]

/-- A text between brackets. -/
theorem flatMap_enclosed (he : Recoding e) {opening closing : CodeUnit}
    (ho : isMarkup opening = false) (hc : isMarkup closing = false) (t : Text) :
    (opening :: t ++ [closing]).flatMap e = opening :: (t.flatMap e ++ [closing]) := by
  simp [he.plain opening ho, he.plain closing hc]

theorem spells_array {pieces : List Text} {documents : List Json}
    (h : List.Forall₂ Spells pieces documents) :
    Spells (unit '[' :: Text.join [unit ','] pieces ++ [unit ']']) (.array documents) := by
  refine ⟨.inr ⟨unit '[', _, rfl, by decide⟩, fun e he fuel rest hf hr => ?_⟩
  rw [flatMap_enclosed he (by decide) (by decide)] at hf ⊢
  simp only [List.length_cons, List.length_append, List.length_nil] at hf
  obtain ⟨n, rfl⟩ : ∃ n, fuel = n + 1 := ⟨fuel - 1, by omega⟩
  rw [List.cons_append, List.append_assoc, List.singleton_append, readValue?,
    skipSpace_cons (by decide)]
  cases h with
  | nil => rfl
  | @cons p d pieces documents hp hrest =>
    have hitems := readItems?_join (.cons hp hrest) (List.cons_ne_nil p pieces) he n rest
      (by omega)
    obtain ⟨tail, htail⟩ := exists_join_cons [unit ','] p pieces
    obtain ⟨u, more, hu, hspace, hbracket⟩ := hp.flatMap_eq_cons he
    rw [htail, List.flatMap_append, hu, List.cons_append, List.cons_append] at hitems ⊢
    have hquote : (unit '[' == unit '"') = false := by decide
    simp only [hquote, skipSpace_cons hspace, beq_iff_eq, hbracket, hitems, if_false,
      Bool.false_eq_true, if_true, Option.map_some]

/-- A quoted name, a colon and the text of a document. -/
def SpellsMember (t : Text) (m : Text × Json) : Prop :=
  ∃ value, t = quote m.1 ++ unit ':' :: value ∧ Spells value m.2

/-- The units of a member behind its first quote. -/
theorem flatMap_member (he : Recoding e) (name value : Text) :
    (quote name ++ unit ':' :: value).flatMap e =
      unit '"' :: ((escapeText name).flatMap e ++ unit '"' :: unit ':' :: value.flatMap e) := by
  have hcolon : e (unit ':') = [unit ':'] := he.plain _ (by decide)
  rw [List.flatMap_append, he.flatMap_quote, List.flatMap_cons, hcolon]
  simp

/-- What is read behind a member: more members behind a comma, or the closing brace. -/
def afterMember? (n : Nat) (m : Text × Json) (rest : Text) : Option (List (Text × Json) × Text) :=
  match skipSpace rest with
  | d :: after =>
    if d == unit ',' then (readMembers? n after).map fun (members, r) => (m :: members, r)
    else if d == unit '\x7d' then some ([m], after)
    else none
  | [] => none

/-- A member is read up to the mark behind it; `n` is the fuel for what follows that. -/
theorem readMembers?_member {t : Text} {m : Text × Json} (h : SpellsMember t m)
    (he : Recoding e) {n : Nat} {rest : Text} (hf : 2 * (t.flatMap e).length ≤ n)
    (hr : Ends rest) :
    readMembers? (n + 1) (t.flatMap e ++ rest) = afterMember? n m rest := by
  obtain ⟨value, rfl, hv⟩ := h
  rw [flatMap_member he] at hf ⊢
  simp only [List.length_cons, List.length_append] at hf
  have hread := hv.reads e he n rest (by omega) hr
  rw [List.cons_append, List.append_assoc, List.cons_append, List.cons_append, readMembers?,
    skipSpace_cons (by decide)]
  simp only [beq_self_eq_true, if_true, he.readText?_escapeText,
    skipSpace_cons (show isSpace (unit ':') = false by decide), hread]
  rfl

/-- Members with commas between them are read up to the closing brace. -/
theorem readMembers?_join {pieces : List Text} {members : List (Text × Json)}
    (h : List.Forall₂ SpellsMember pieces members) (hne : pieces ≠ []) (he : Recoding e)
    (fuel : Nat) (rest : Text)
    (hf : 2 * ((Text.join [unit ','] pieces).flatMap e).length < fuel) :
    readMembers? fuel ((Text.join [unit ','] pieces).flatMap e ++ unit '\x7d' :: rest) =
      some (members, rest) := by
  have hcomma : e (unit ',') = [unit ','] := he.plain _ (by decide)
  induction h generalizing fuel with
  | nil => exact absurd rfl hne
  | @cons p m pieces members hp hrest ih =>
    obtain ⟨n, rfl⟩ : ∃ n, fuel = n + 1 := ⟨fuel - 1, by omega⟩
    cases hrest with
    | nil =>
      rw [join_singleton] at hf ⊢
      rw [readMembers?_member hp he (by omega) (ends_cons (.inr (.inr rfl)) rest), afterMember?,
        skipSpace_cons (by decide)]
      rfl
    | @cons q m' pieces members hq hrest =>
      rw [join_cons_cons, List.flatMap_append, List.flatMap_append, List.flatMap_cons, hcomma,
        List.flatMap_nil, List.append_nil] at hf ⊢
      simp only [List.length_append, List.length_singleton] at hf
      rw [List.append_assoc, List.append_assoc, List.cons_append, List.nil_append,
        readMembers?_member hp he (by omega) (ends_cons (.inl rfl) _), afterMember?,
        skipSpace_cons (by decide)]
      simp only [beq_self_eq_true, if_true, ih (List.cons_ne_nil q pieces) n (by omega),
        Option.map_some]

theorem spells_object {pieces : List Text} {members : List (Text × Json)}
    (h : List.Forall₂ SpellsMember pieces members) :
    Spells (unit '\x7b' :: Text.join [unit ','] pieces ++ [unit '\x7d'])
      (.object (Assoc.ofList members)) := by
  refine ⟨.inr ⟨unit '\x7b', _, rfl, by decide⟩, fun e he fuel rest hf hr => ?_⟩
  rw [flatMap_enclosed he (by decide) (by decide)] at hf ⊢
  simp only [List.length_cons, List.length_append, List.length_nil] at hf
  obtain ⟨n, rfl⟩ : ∃ n, fuel = n + 1 := ⟨fuel - 1, by omega⟩
  rw [List.cons_append, List.append_assoc, List.singleton_append, readValue?,
    skipSpace_cons (by decide)]
  have hquote : (unit '\x7b' == unit '"') = false := by decide
  have hbracket : (unit '\x7b' == unit '[') = false := by decide
  cases h with
  | nil => rfl
  | @cons p m pieces members hp hrest =>
    have hmembers := readMembers?_join (.cons hp hrest) (List.cons_ne_nil p pieces) he n rest
      (by omega)
    obtain ⟨tail, htail⟩ := exists_join_cons [unit ','] p pieces
    obtain ⟨value, rfl, _⟩ := hp
    have hclose : (unit '"' == unit '\x7d') = false := by decide
    rw [htail, List.flatMap_append, flatMap_member he, List.cons_append, List.cons_append]
      at hmembers ⊢
    simp only [hquote, hbracket, hclose, skipSpace_cons (show isSpace (unit '"') = false by decide),
      hmembers, if_false, Bool.false_eq_true, beq_self_eq_true, if_true, Option.map_some]

/-! Whole texts. -/

/-- A text that spells a document is parsed as that document, however it is recoded. -/
theorem Spells.parse? {t : Text} {document : Json} (h : Spells t document) (he : Recoding e) :
    Json.parse? (t.flatMap e) = some document := by
  have hread := h.reads e he (2 * (t.flatMap e).length + 2) [] (by omega) ends_nil
  rw [List.append_nil] at hread
  rw [Json.parse?, hread]
  rfl

end Json

end PageTemplate
