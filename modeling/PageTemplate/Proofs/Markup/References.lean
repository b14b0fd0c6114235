import PageTemplate.Proofs.Markup.Escape

/-!
# PageTemplate.Proofs.Markup.References

Character references: which texts are references, what a pass over a text makes of them, and what
escaping writes.

`decodes_iff` says what decoding comes to on every text: in one pass from left to right each known
reference gives way to what it stands for, and every other unit is kept. The known names are those
of the six characters and, as the table of names has members of its own, `constructor`.
`escape_inert_and_undone` is about escaping: nothing that has a meaning in markup is left, each `&`
starts a reference, and decoding gives the text back.
-/

namespace PageTemplate

namespace Text

/-- Replacing a unit wherever it stands. -/
theorem replaceAll_unit (u : CodeUnit) (replacement t : Text) :
    replaceAll [u] replacement t = t.flatMap fun v => if v == u then replacement else [v] := by
  have hkeep : ∀ s : Text, u ∉ s →
      (s.flatMap fun v => if v == u then replacement else [v]) = s := by
    intro s hs
    induction s with
    | nil => rfl
    | cons v s ih =>
      obtain ⟨hv, hs⟩ := not_or.1 (mt List.mem_cons.2 hs)
      have hbeq : (v == u) = false := beq_eq_false_iff_ne.2 (Ne.symm hv)
      rw [List.flatMap_cons, ih hs, hbeq]
      rfl
  induction hl : t.length using Nat.strong_induction_on generalizing t with
  | _ n ih =>
    subst hl
    by_cases hu : u ∈ t
    · obtain ⟨before, after, rfl, hbefore⟩ := List.eq_append_cons_of_mem hu
      have hrest := ih after.length (by simp; omega) after rfl
      rw [replaceAll, join] at hrest
      rw [replaceAll, join, splitOn_append hbefore, List.flatMap_append, hkeep before hbefore,
        List.flatMap_cons, beq_self_eq_true, if_pos rfl, ← hrest]
      cases hpieces : splitOn [u] after with
      | nil =>
        rw [splitOn, dif_neg (List.cons_ne_nil u [])] at hpieces
        split at hpieces <;> cases hpieces
      | cons p ps => rw [List.intercalate_cons_cons, List.append_assoc]
    · rw [replaceAll, join, splitOn_of_not_mem hu, List.intercalate_singleton, hkeep t hu]

end Text

namespace Markup

open CodeUnit

/-! What a reference stands for. -/

/-- The characters that have names. -/
def characterNames : List (String × Char) :=
  [("amp", '&'), ("lt", '<'), ("gt", '>'), ("quot", '"'), ("apos", '\''), ("nbsp", '\u00A0')]

/-- What is between `&` and `;` in a known reference, and the text that the reference stands for. -/
inductive Refers : Text → Text → Prop where
  | named {name : String} {c : Char} {body : Text} : (name, c) ∈ characterNames →
    body.asciiLower = Text.ofString name → Refers body [unit c]
  | decimal {digits : Text} : digits ≠ [] → (∀ u ∈ digits, isDigit u) →
    Text.readNat 10 digits ≤ 0x10FFFF →
    Refers (unit '#' :: digits) (Text.ofCodePoint (Text.readNat 10 digits))
  | hexadecimal {x : CodeUnit} {digits : Text} : x = unit 'x' ∨ x = unit 'X' → digits ≠ [] →
    (∀ u ∈ digits, isHexDigit u) → Text.readNat 16 digits ≤ 0x10FFFF →
    Refers (unit '#' :: x :: digits) (Text.ofCodePoint (Text.readNat 16 digits))
  /-- The one member of the table of names that names no character. -/
  | inherited {body : Text} : body.asciiLower = Text.ofString "constructor" →
    Refers body "function Object() \x7b [native code] \x7d"

theorem namedReferences_eq : namedReferences =
    (characterNames.map fun (name, c) => (Text.ofString name, [unit c])) ++
      [(Text.ofString "constructor", Text.ofString "function Object() \x7b [native code] \x7d")] :=
  rfl

theorem asciiLower_eq_x_iff {u : CodeUnit} :
    asciiLower u = unit 'x' ↔ u = unit 'x' ∨ u = unit 'X' := by
  have hx : unit 'x' = 120 := rfl
  have hX : unit 'X' = 88 := rfl
  constructor
  · intro h
    rw [asciiLower] at h
    split at h
    · exact .inr (by grind)
    · exact .inl h
  · rintro (rfl | rfl) <;> decide

/-- What is a letter in lower case is a letter. -/
theorem isLetter_of_asciiLower {u : CodeUnit} (h : isLowerLetter (asciiLower u)) : isLetter u := by
  rw [asciiLower] at h
  split at h
  · rename_i hu
    rw [isLetter, hu, Bool.or_true]
  · rw [isLetter, h, Bool.true_or]

/-- A text that is a name up to the case of its letters is made of letters. -/
theorem all_isLetter_of_asciiLower {body name : Text} (hn : name.all isLowerLetter)
    (h : body.asciiLower = name) : body.all isLetter := by
  rw [List.all_eq_true] at hn ⊢
  intro u hu
  refine isLetter_of_asciiLower (hn _ ?_)
  rw [← h]
  exact List.mem_map_of_mem hu

theorem reference?_name {body value : Text} (h : (body.asciiLower, value) ∈ namedReferences) :
    reference? body = some value := by
  have hnames : ∀ pair ∈ namedReferences, pair.1 ≠ [] ∧ pair.1.all isLowerLetter := by decide
  obtain ⟨hne, hlower⟩ := hnames _ h
  have hletters : body.all isLetter := all_isLetter_of_asciiLower hlower rfl
  cases body with
  | nil => exact absurd rfl hne
  | cons u rest =>
    have hu : u ≠ unit '#' := by
      rintro rfl
      exact absurd (List.all_eq_true.1 hletters _ List.mem_cons_self) (by decide)
    have hfound := Assoc.find?_of_mem (by decide) h
    rw [reference?.eq_def]
    simp only [beq_iff_eq, if_neg hu, if_pos hletters, hfound]

theorem point?_eq_some_iff {n : Nat} {value : Text} :
    reference?.point? n = some value ↔ n ≤ 0x10FFFF ∧ value = Text.ofCodePoint n := by
  rw [reference?.point?]
  split
  · rename_i h
    simp [h, eq_comm]
  · rename_i h
    simp [h]

/-- **What a reference stands for** is settled by its kind: one of the names in any case, or the
digits of a code point in base ten or sixteen. -/
theorem reference?_eq_some_iff {body value : Text} :
    reference? body = some value ↔ Refers body value := by
  constructor
  · intro h
    rw [reference?.eq_def] at h
    split at h
    · cases h
    rename_i u rest
    split at h
    · rename_i hu
      rw [eq_of_beq hu]
      split at h
      · cases h
      rename_i x hex
      split at h
      · rename_i hx
        split at h
        · rename_i hdigits
          rw [Bool.and_eq_true, List.all_eq_true, Bool.not_eq_true', List.isEmpty_eq_false_iff]
            at hdigits
          obtain ⟨hle, rfl⟩ := point?_eq_some_iff.1 h
          exact .hexadecimal (asciiLower_eq_x_iff.1 (eq_of_beq hx)) hdigits.1 hdigits.2 hle
        · cases h
      split at h
      · rename_i hdigits
        obtain ⟨hle, rfl⟩ := point?_eq_some_iff.1 h
        exact .decimal (List.cons_ne_nil x hex) (List.all_eq_true.1 hdigits) hle
      · cases h
    split at h
    · have hm := Assoc.mem_of_find? h
      rw [namedReferences_eq, List.mem_append, List.mem_map, List.mem_singleton] at hm
      rcases hm with ⟨⟨name, c⟩, hc, he⟩ | he
      · obtain ⟨hname, rfl⟩ := Prod.mk.inj he
        exact .named hc hname.symm
      · obtain ⟨hname, rfl⟩ := Prod.mk.inj he
        exact .inherited hname
    · cases h
  · intro h
    cases h with
    | @named name c _ hc hname =>
      refine reference?_name ?_
      rw [namedReferences_eq, hname]
      exact List.mem_append_left _ (List.mem_map_of_mem hc)
    | @decimal digits hne hdigits hle =>
      cases digits with
      | nil => exact absurd rfl hne
      | cons x digits =>
        have hx : asciiLower x ≠ unit 'x' := by
          intro hx
          have hdigit := hdigits x List.mem_cons_self
          rcases asciiLower_eq_x_iff.1 hx with rfl | rfl <;> exact absurd hdigit (by decide)
        rw [reference?.eq_def]
        simp only [beq_self_eq_true, if_true, beq_iff_eq, if_neg hx,
          if_pos (List.all_eq_true.2 hdigits)]
        exact point?_eq_some_iff.2 ⟨hle, rfl⟩
    | @hexadecimal x digits hx hne hdigits hle =>
      have hcond : (!digits.isEmpty && digits.all isHexDigit) = true := by
        rw [Bool.and_eq_true, List.all_eq_true, Bool.not_eq_true', List.isEmpty_eq_false_iff]
        exact ⟨hne, hdigits⟩
      rw [reference?, if_pos (by rfl)]
      simp only [beq_iff_eq, asciiLower_eq_x_iff.2 hx, if_true, hcond]
      exact point?_eq_some_iff.2 ⟨hle, rfl⟩
    | inherited hname =>
      refine reference?_name ?_
      rw [namedReferences_eq, hname]
      exact List.mem_append_right _ (List.mem_singleton.2 rfl)

/-! What decoding makes of a text. -/

theorem isReferenceUnit_of_isHexDigit {u : CodeUnit} (h : isHexDigit u) : isReferenceUnit u := by
  have hf : unit 'f' ≤ unit 'z' := by decide
  have hF : unit 'F' ≤ unit 'Z' := by decide
  simp only [isHexDigit, isReferenceUnit, isLetter, isLowerLetter, isUpperLetter, Bool.or_eq_true,
    Bool.and_eq_true, decide_eq_true_eq] at h ⊢
  rcases h with (h | ⟨hlow, hhigh⟩) | ⟨hlow, hhigh⟩
  · exact .inl (.inr h)
  · exact .inl (.inl (.inl ⟨hlow, UInt16.le_trans hhigh hf⟩))
  · exact .inl (.inl (.inr ⟨hlow, UInt16.le_trans hhigh hF⟩))

/-- The units of what is between `&` and `;` in a known reference. -/
theorem Refers.isReferenceUnit {body value : Text} (h : Refers body value) :
    body.all isReferenceUnit := by
  rw [List.all_eq_true]
  have hletters : ∀ {name : Text}, name.all isLowerLetter → body.asciiLower = name →
      ∀ u ∈ body, Markup.isReferenceUnit u := by
    intro name hn hname u hu
    have hu := List.all_eq_true.1 (all_isLetter_of_asciiLower hn hname) u hu
    rw [Markup.isReferenceUnit, hu, Bool.true_or, Bool.true_or]
  cases h with
  | named hc hname =>
    have hnames : ∀ pair ∈ characterNames, (Text.ofString pair.1).all isLowerLetter := by decide
    exact hletters (hnames _ hc) hname
  | decimal _ hdigits =>
    refine List.forall_mem_cons.2 ⟨by decide, fun u hu => ?_⟩
    rw [Markup.isReferenceUnit, hdigits u hu, Bool.or_true, Bool.true_or]
  | hexadecimal hx _ hdigits =>
    refine List.forall_mem_cons.2 ⟨by decide, List.forall_mem_cons.2 ⟨?_, fun u hu => ?_⟩⟩
    · rcases hx with rfl | rfl <;> decide
    · exact isReferenceUnit_of_isHexDigit (hdigits u hu)
  | inherited hname => exact hletters (by decide) hname

/-- A known reference stands at the front of a text exactly when the text says so. -/
theorem leadingReference?_eq_some_iff {t value : Text} {size : Nat} :
    leadingReference? t = some (value, size) ↔
      ∃ body rest, t = body ++ unit ';' :: rest ∧ Refers body value ∧ size = body.length + 1 := by
  constructor
  · intro h
    rw [leadingReference?] at h
    split at h
    · rename_i s rest hrest
      split at h
      · rename_i hs
        obtain ⟨value', hr, he⟩ := Option.map_eq_some_iff.1 h
        obtain ⟨rfl, rfl⟩ := Prod.mk.inj he
        refine ⟨t.takeWhile isReferenceUnit, rest, ?_, reference?_eq_some_iff.1 hr, rfl⟩
        rw [← eq_of_beq hs, ← hrest, List.takeWhile_append_dropWhile]
      · cases h
    · cases h
  · rintro ⟨body, rest, rfl, hr, rfl⟩
    have hstop : ∀ u ∈ (unit ';' :: rest).head?, isReferenceUnit u = false := by
      rintro u ⟨⟩
      decide
    have hbody := List.all_eq_true.1 hr.isReferenceUnit
    simp only [leadingReference?, Text.takeWhile_append hbody hstop,
      Text.dropWhile_append hbody hstop, beq_self_eq_true, if_true, reference?_eq_some_iff.2 hr,
      Option.map_some]

/-- One pass over a text from left to right, and what comes out. What a reference stands for is not
looked at again. -/
inductive Decodes : Text → Text → Prop where
  | done : Decodes [] []
  | reference {body value rest out : Text} : Refers body value → Decodes rest out →
    Decodes (unit '&' :: (body ++ unit ';' :: rest)) (value ++ out)
  | keep {u : CodeUnit} {rest out : Text} :
    (u = unit '&' →
      ∀ body value after, rest = body ++ unit ';' :: after → ¬ Refers body value) →
    Decodes rest out → Decodes (u :: rest) (u :: out)

variable {t rest out : Text} {u : CodeUnit}

/-- A unit that starts no known reference stands for itself. -/
theorem decodeFrom_keep (h : u = unit '&' →
      ∀ body value after, rest = body ++ unit ';' :: after → ¬ Refers body value) :
    decodeFrom 0 (u :: rest) = u :: decodeFrom 0 rest := by
  by_cases hu : u = unit '&'
  · have hnone : leadingReference? rest = none := by
      cases hl : leadingReference? rest with
      | none => rfl
      | some found =>
        obtain ⟨value, size⟩ := found
        obtain ⟨body, after, he, hr, _⟩ := leadingReference?_eq_some_iff.1 hl
        exact absurd hr (h hu body value after he)
    rw [decodeFrom, if_pos (by simpa using hu), hnone]
  · exact decodeFrom_cons hu rest

theorem Decodes.eq_decodeReferences (h : Decodes t out) : out = decodeReferences t := by
  induction h with
  | done => rfl
  | reference hr _ ih =>
    rw [ih, decodeReferences, decodeReferences,
      decodeFrom_reference _ _ hr.isReferenceUnit (reference?_eq_some_iff.2 hr)]
  | keep hnone _ ih => rw [ih, decodeReferences, decodeReferences, decodeFrom_keep hnone]

theorem decodes_decodeReferences (t : Text) : Decodes t (decodeReferences t) := by
  induction hl : t.length using Nat.strong_induction_on generalizing t with
  | _ n ih =>
    subst hl
    cases t with
    | nil => exact .done
    | cons u rest =>
      by_cases hr : u = unit '&' ∧
          ∃ body value after, rest = body ++ unit ';' :: after ∧ Refers body value
      · obtain ⟨rfl, body, value, after, rfl, hr⟩ := hr
        have hafter := ih after.length (by simp; omega) after rfl
        have hd := decodeFrom_reference body value hr.isReferenceUnit
          (reference?_eq_some_iff.2 hr) after
        rw [decodeReferences, hd]
        exact .reference hr hafter
      · have hkeep : u = unit '&' → ∀ body value after, rest = body ++ unit ';' :: after →
            ¬ Refers body value :=
          fun hu body value after he hv => hr ⟨hu, body, value, after, he, hv⟩
        rw [decodeReferences, decodeFrom_keep hkeep]
        exact .keep hkeep (ih rest.length (Nat.lt_succ_self _) rest rfl)

/-- **Decoding is one pass over the known references**, on every text. -/
theorem decodes_iff : Decodes t out ↔ out = decodeReferences t :=
  ⟨Decodes.eq_decodeReferences, fun h => h ▸ decodes_decodeReferences t⟩

example : decodeReferences "&AMP;lt; &#x41;&#1114112;&copy;&" = "&lt; A&#1114112;&copy;&" := by
  decide

/-- A name that names no character is decoded all the same. -/
example : decodeReferences "&Constructor;" = "function Object() \x7b [native code] \x7d" := by
  decide

/-! What escaping writes. -/

/-- The references that escaping writes. -/
def writtenReferences : List Text := ["&amp;", "&lt;", "&gt;", "&quot;", "&#39;"]

/-- The characters that escaping leaves nowhere. -/
def markupCharacters : List CodeUnit := [unit '<', unit '>', unit '"', unit '\'']

/-- The text that stands for a unit is a reference, or it is the unit, which then has no meaning in
markup. -/
theorem escapeUnit_cases (u : CodeUnit) :
    escapeUnit u ∈ writtenReferences ∨
      escapeUnit u = [u] ∧ u ≠ unit '&' ∧ u ∉ markupCharacters := by
  simp only [escapeUnit, beq_iff_eq]
  split
  · exact .inl (by decide)
  split
  · exact .inl (by decide)
  split
  · exact .inl (by decide)
  split
  · exact .inl (by decide)
  split
  · exact .inl (by decide)
  · rename_i h1 h2 h3 h4 h5
    exact .inr ⟨rfl, h1, by simp [markupCharacters, h2, h3, h4, h5]⟩

/-- A written reference starts with its only `&` and holds nothing else that has a meaning. -/
theorem written_eq_cons {r : Text} (h : r ∈ writtenReferences) :
    ∃ body, r = unit '&' :: body ∧ unit '&' ∉ body ∧ ∀ u ∈ r, u ∉ markupCharacters := by
  have hall : writtenReferences.all fun r => r.head? = some (unit '&') && unit '&' ∉ r.tail &&
      r.all (· ∉ markupCharacters) := by decide
  have hr := List.all_eq_true.1 hall r h
  simp only [Bool.and_eq_true, decide_eq_true_eq, List.all_eq_true] at hr
  obtain ⟨body, rfl⟩ := List.head?_eq_some_iff.1 hr.1.1
  exact ⟨body, rfl, hr.1.2, hr.2⟩

theorem not_markup_of_mem_escape (h : u ∈ escape t) : u ∉ markupCharacters := by
  obtain ⟨v, _, hu⟩ := List.mem_flatMap.1 h
  rcases escapeUnit_cases v with hw | ⟨he, _, hv⟩
  · obtain ⟨_, _, _, hplain⟩ := written_eq_cons hw
    exact hplain u hu
  · rw [he, List.mem_singleton] at hu
    exact hu ▸ hv

/-- Every `&` of an escaped text starts one of the references that escaping writes. -/
theorem exists_written_of_escape {before after : Text}
    (h : escape t = before ++ unit '&' :: after) :
    ∃ r ∈ writtenReferences, r <+: unit '&' :: after := by
  induction t generalizing before with
  | nil => exact absurd h.symm (List.append_ne_nil_of_right_ne_nil _ (List.cons_ne_nil _ _))
  | cons v t ih =>
    rw [escape_cons] at h
    rcases List.append_eq_append_iff.1 h with ⟨s, _, hs⟩ | ⟨s, hs, hafter⟩
    · exact ih hs
    cases s with
    | nil =>
      rw [List.nil_append] at hafter
      exact ih (hafter.symm.trans (List.nil_append _).symm)
    | cons w s =>
      obtain ⟨rfl, rfl⟩ := List.cons.inj hafter
      -- The `&` lies in what stands for `v`, so that is a reference, and this is its first unit.
      rcases escapeUnit_cases v with hw | ⟨he, hv, _⟩
      · obtain ⟨body, hbody, hno, _⟩ := written_eq_cons hw
        cases before with
        | nil => exact ⟨_, hw, by rw [hs]; exact List.prefix_append _ _⟩
        | cons w' before =>
          rw [hbody, List.cons_append] at hs
          obtain ⟨_, rfl⟩ := List.cons.inj hs
          exact absurd (List.mem_append_right _ List.mem_cons_self) hno
      · have hm : unit '&' ∈ escapeUnit v := by
          rw [hs]
          exact List.mem_append_right _ List.mem_cons_self
        rw [he, List.mem_singleton] at hm
        exact absurd hm.symm hv

/-- Escaping unit by unit is replacing one character after the other, `&` first: none of the later
replacements touches a reference that is written already. -/
theorem escape_eq_replaceAll (t : Text) : escape t =
    Text.replaceAll [unit '\''] "&#39;" (Text.replaceAll [unit '"'] "&quot;"
      (Text.replaceAll [unit '>'] "&gt;" (Text.replaceAll [unit '<'] "&lt;"
        (Text.replaceAll [unit '&'] "&amp;" t)))) := by
  simp only [Text.replaceAll_unit, List.flatMap_assoc]
  rw [escape]
  refine List.flatMap_congr fun u _ => ?_
  by_cases h : u ∈ unit '&' :: markupCharacters
  · simp only [markupCharacters, List.mem_cons, List.not_mem_nil, or_false] at h
    rcases h with rfl | rfl | rfl | rfl | rfl <;> rfl
  · simp only [markupCharacters, List.mem_cons, List.not_mem_nil, or_false, not_or] at h
    obtain ⟨h1, h2, h3, h4, h5⟩ := h
    simp [escapeUnit, h1, h2, h3, h4, h5]

/-- **Escaping is undone by decoding and leaves no markup.** An escaped text is the outcome of
replacing the five characters one after the other. It holds none of `<`, `>` and the two quotes,
every `&` in it starts one of the references that escaping writes, and decoding it yields the text;
so no two texts are escaped alike. -/
theorem escape_inert_and_undone :
    (∀ t : Text,
      escape t = Text.replaceAll [unit '\''] "&#39;" (Text.replaceAll [unit '"'] "&quot;"
        (Text.replaceAll [unit '>'] "&gt;" (Text.replaceAll [unit '<'] "&lt;"
          (Text.replaceAll [unit '&'] "&amp;" t)))) ∧
      (∀ u ∈ escape t, u ≠ unit '<' ∧ u ≠ unit '>' ∧ u ≠ unit '"' ∧ u ≠ unit '\'') ∧
      (∀ before after, escape t = before ++ unit '&' :: after →
        ∃ r ∈ writtenReferences, r <+: unit '&' :: after) ∧
      decodeReferences (escape t) = t) ∧
    Function.Injective escape := by
  refine ⟨fun t => ⟨escape_eq_replaceAll t, fun u hu => ?_, fun before after h => ?_,
    decodeReferences_escape t⟩, fun s t h => ?_⟩
  · simpa [markupCharacters] using not_markup_of_mem_escape hu
  · exact exists_written_of_escape h
  · rw [← decodeReferences_escape s, h, decodeReferences_escape]

example : escape "&lt;'a'" = "&amp;lt;&#39;a&#39;" := by decide

end Markup

end PageTemplate
