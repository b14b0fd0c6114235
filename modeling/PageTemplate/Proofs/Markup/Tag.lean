import PageTemplate.Proofs.Assoc
import PageTemplate.Proofs.Markup.Lexing

/-!
# PageTemplate.Proofs.Markup.Tag

The tags of a written forest: a closing tag is read back as its name, an opening tag as its name
and its attributes, and the content of a raw element up to its own closing tag.
-/

namespace PageTemplate

namespace Markup

variable {options : ReadOptions}

theorem not_blank_of_isLowerTagUnit {u : CodeUnit} (h : isLowerTagUnit u) :
    isBlank u = false := by
  have hu : 45 ≤ u ∧ u ≤ 122 := by
    simp only [isLowerTagUnit, CodeUnit.isLowerLetter, CodeUnit.isDigit, Bool.or_eq_true,
      beq_iff_eq] at h
    rcases h with (((h | h) | rfl) | rfl) | rfl
    · simp only [unit] at h
      simp at h
      grind
    · simp only [unit] at h
      simp at h
      grind
    all_goals decide
  cases hb : isBlank u with
  | false => rfl
  | true =>
    exfalso
    simp only [isBlank, Bool.or_eq_true, Bool.and_eq_true, decide_eq_true_eq, beq_iff_eq] at hb
    rcases hb with (((((((((h | h) | h) | h) | h) | h) | h) | h) | h) | h) | h
    all_goals grind

theorem lexes_close {tag rest : Text} {tokens : List Token} (h : isTagName tag)
    (more : Lexes options rest tokens) :
    Lexes options ("</" ++ (tag ++ unit '>' :: rest)) (.close tag :: tokens) := by
  have hi : ¬ ([] ++ [unit '>']) <:+: tag := by
    rintro ⟨before, after, he⟩
    have : unit '>' ∈ tag := by simp [← he]
    have := isLowerTagUnit_of_mem h this
    revert this
    decide
  have hb := Text.breakOn_append (q := []) (z := unit '>') (r := rest) (by simp) hi
  have ht : Text.trim tag = tag :=
    Text.trim_of_not_blank fun u hu => not_blank_of_isLowerTagUnit (isLowerTagUnit_of_mem h hu)
  have : Text.ofString "</" ++ (tag ++ unit '>' :: rest) =
      unit '<' :: unit '/' :: (tag ++ ([] ++ [unit '>']) ++ rest) := by
    simp only [List.append_assoc]
    rfl
  rw [this]
  refine lexes_tag ?_ (by simp only [List.length_cons, List.length_append]; omega) more
  have hp : (unit '/' == unit '%') = false := by decide
  have he : (unit '/' == unit '!') = false := by decide
  simp only [tagToken?, hp, he, Bool.and_false, Bool.false_eq_true, if_false, beq_self_eq_true,
    if_true]
  rw [show Text.ofString ">" = [] ++ [unit '>'] from rfl, hb]
  simp only [ht, toLower_of_isTagName h]

/-! Attributes. -/

theorem isNameUnit_of_mem {name : Text} (h : isAttributeName name) {u : CodeUnit} (hu : u ∈ name) :
    isNameUnit u := by
  simp only [isAttributeName, Bool.and_eq_true, List.all_eq_true] at h
  exact h.2 u hu

/-- The attribute that a written attribute is read as. -/
theorem attribute_write {name : Text} (h : isAttributeName name) (value rest : Text) :
    attribute? (name ++ unit '=' :: unit '"' :: (escape value ++ unit '"' :: rest)) =
      some ((name, value), rest) := by
  have hall : ∀ u ∈ name, isNameUnit u := fun _ => isNameUnit_of_mem h
  simp only [isAttributeName, Bool.and_eq_true, beq_iff_eq, Bool.not_eq_true'] at h
  have hend : ∀ u ∈ (unit '=' :: unit '"' :: (escape value ++ unit '"' :: rest)).head?,
      isNameUnit u = false := by
    intro u hu
    cases hu
    decide
  simp only [attribute?, Text.takeWhile_append hall hend, Text.dropWhile_append hall hend, h.1.1,
    Bool.false_eq_true, if_false, Text.trimStart_cons (show isBlank (unit '=') = false by decide),
    Text.trimStart_cons (show isBlank (unit '"') = false by decide), attributeValue?,
    Text.breakAt_append (quote_not_mem_escape value) rest, beq_self_eq_true, if_true, Bool.true_or,
    Option.some_or, h.1.2, decodeReferences_escape]

theorem tagPart_write {name : Text} (h : isAttributeName name) (value rest : Text) :
    tagPart (writeAttribute name value ++ rest) = .attribute name value rest := by
  have hr := attribute_write h value rest
  cases name with
  | nil => cases h
  | cons u name =>
    have hu := isNameUnit_of_mem h List.mem_cons_self
    simp only [isNameUnit, Bool.and_eq_true, bne_iff_ne, ne_eq, Bool.not_eq_true'] at hu
    obtain ⟨⟨⟨hb, _⟩, hs⟩, hg⟩ := hu
    have ht : Text.trimStart (writeAttribute (u :: name) value ++ rest) =
        u :: (name ++ unit '=' :: unit '"' :: (escape value ++ unit '"' :: rest)) := by
      have hw : writeAttribute (u :: name) value ++ rest = unit ' ' :: u ::
          (name ++ unit '=' :: unit '"' :: (escape value ++ unit '"' :: rest)) := by
        simp [writeAttribute]
      rw [hw, Text.trimStart, List.dropWhile_cons_of_pos (by decide),
        List.dropWhile_cons_of_neg (by simp [hb])]
    have hg' : (u == unit '>') = false := beq_eq_false_iff_ne.2 hg
    have hs' : (u == unit '/') = false := beq_eq_false_iff_ne.2 hs
    rw [List.cons_append] at hr
    simp only [tagPart, ht, hg', hs', Bool.false_and, Bool.false_eq_true, if_false, hr]

/-- The attributes of a tag as they are written. -/
def writeAttributes (attributes : Attributes) : Text :=
  attributes.flatMap fun (n, v) => writeAttribute n v

/-- Reading all written attributes of an opening tag, up to what follows them. -/
theorem attributesFrom_writeAttributes {attributes done : Attributes}
    (h : ∀ a ∈ attributes, isAttributeName a.1)
    (hn : ((done ++ attributes).map (·.1)).Nodup) (rest : Text) (fuel : Nat)
    (hf : attributes.length ≤ fuel) :
    attributesFrom fuel done (writeAttributes attributes ++ rest) =
      attributesFrom (fuel - attributes.length) (done ++ attributes) rest := by
  induction attributes generalizing done fuel with
  | nil => simp [writeAttributes]
  | cons a attributes ih =>
    obtain ⟨name, value⟩ := a
    cases fuel with
    | zero => simp at hf
    | succ fuel =>
      have hput : Assoc.put name value done = done ++ [(name, value)] := by
        refine Assoc.put_of_not_mem ?_ value
        simp only [List.map_append, List.map_cons] at hn
        intro hm
        exact (List.nodup_append.1 hn).2.2 _ hm _ List.mem_cons_self rfl
      have hw : writeAttributes ((name, value) :: attributes) ++ rest =
          writeAttribute name value ++ (writeAttributes attributes ++ rest) := by
        simp [writeAttributes]
      rw [hw, attributesFrom, tagPart_write (h _ List.mem_cons_self)]
      simp only [hput]
      rw [ih (fun a ha => h a (List.mem_cons_of_mem _ ha)) (by simpa using hn) fuel
          (by simpa using hf)]
      simp

/-- What may follow the written attributes of a tag, with the text behind the tag and whether the
tag closes itself. -/
inductive TagEnd : Text → Bool → Text → Prop where
  | open (rest : Text) : TagEnd (unit '>' :: rest) false rest
  | void (rest : Text) : TagEnd (" />" ++ rest) true rest

theorem TagEnd.tagPart_eq {t rest : Text} {closed : Bool} (h : TagEnd t closed rest) :
    tagPart t = .finish closed rest := by
  cases h with
  | «open» rest =>
    have ht : Text.trimStart (unit '>' :: rest) = unit '>' :: rest :=
      Text.trimStart_cons (by decide) _
    simp only [tagPart, ht, beq_self_eq_true, if_true]
  | void rest =>
    have ht : Text.trimStart (Text.ofString " />" ++ rest) = unit '/' :: unit '>' :: rest := by
      rw [show Text.ofString " />" ++ rest = unit ' ' :: unit '/' :: unit '>' :: rest from rfl,
        Text.trimStart, List.dropWhile_cons_of_pos (by decide),
        List.dropWhile_cons_of_neg (by decide)]
    have hg : (unit '/' == unit '>') = false := by decide
    simp only [tagPart, ht, hg, Bool.false_eq_true, if_false, beq_self_eq_true,
      List.head?_cons, Bool.and_self, if_true, List.drop_succ_cons, List.drop_zero]

theorem length_writeAttributes (attributes : Attributes) :
    attributes.length ≤ (writeAttributes attributes).length := by
  induction attributes with
  | nil => simp
  | cons a attributes ih =>
    simp only [writeAttributes, List.flatMap_cons, List.length_append, List.length_cons,
      writeAttribute] at ih ⊢
    omega

/-- The inside of an opening tag behind its name. -/
theorem attributesFrom_tag {attributes : Attributes} (h : AttributesWellFormed attributes)
    {t rest : Text} {closed : Bool} (ht : TagEnd t closed rest) :
    attributesFrom ((writeAttributes attributes ++ t).length + 1) []
      (writeAttributes attributes ++ t) = (attributes, closed, rest) := by
  have hl := length_writeAttributes attributes
  rw [attributesFrom_writeAttributes h.names (by simpa using h.nodup) t _
    (by rw [List.length_append]; omega)]
  obtain ⟨n, hn⟩ : ∃ n, (writeAttributes attributes ++ t).length + 1 - attributes.length =
      n + 1 := ⟨(writeAttributes attributes ++ t).length - attributes.length, by
    rw [List.length_append]; omega⟩
  rw [hn, attributesFrom, ht.tagPart_eq]
  rfl

/-- Behind the name of a tag comes no unit of a name. -/
theorem not_tagUnit_of_head (attributes : Attributes) {t rest : Text} {closed : Bool}
    (ht : TagEnd t closed rest) :
    ∀ u ∈ (writeAttributes attributes ++ t).head?, isTagUnit u = false := by
  intro u hu
  cases attributes with
  | nil =>
    cases ht with
    | «open» => cases hu; decide
    | void => cases hu; decide
  | cons a attributes => cases hu; decide

theorem TagEnd.length_le {t rest : Text} {closed : Bool} (h : TagEnd t closed rest) :
    rest.length ≤ t.length := by
  cases h with
  | «open» => simp
  | void => simp

/-- A text that begins with the name of a tag is read as an opening tag. -/
theorem tagToken_openingTag {tag : Text} (h : isTagName tag) (more : Text) :
    tagToken? options (tag ++ more) = some (openingTag options (tag ++ more)) := by
  obtain ⟨u, rest, rfl, hu⟩ := exists_cons_of_isTagName h
  have hne : ∀ v, CodeUnit.isLowerLetter v = false → (u == v) = false := by
    intro v hv
    refine beq_eq_false_iff_ne.2 ?_
    rintro rfl
    rw [hu] at hv
    cases hv
  have hl : CodeUnit.isLetter u = true := by simp [CodeUnit.isLetter, hu]
  simp only [List.cons_append, tagToken?, hne (unit '%') (by decide),
    hne (unit '!') (by decide), hne (unit '/') (by decide), Bool.and_false, Bool.false_eq_true,
    if_false, hl, if_true]

/-- What a written opening tag is read as. -/
theorem openingTag_write {tag : Text} (h : isTagName tag) {attributes : Attributes}
    (ha : AttributesWellFormed attributes) {t rest : Text} {closed : Bool}
    (ht : TagEnd t closed rest) :
    openingTag options (tag ++ (writeAttributes attributes ++ t)) =
      if closed || isVoid tag then (.opening tag attributes true none, rest)
      else if options.rawTags.contains tag then
        (.opening tag attributes false (some (rawContent tag rest).1), (rawContent tag rest).2)
      else (.opening tag attributes false none, rest) := by
  have hall : ∀ u ∈ tag, isTagUnit u := fun u hu =>
    isTagUnit_of_isLowerTagUnit (isLowerTagUnit_of_mem h hu)
  have hend := not_tagUnit_of_head attributes ht
  simp only [openingTag, Text.takeWhile_append hall hend, Text.dropWhile_append hall hend,
    toLower_of_isTagName h, attributesFrom_tag ha ht]

theorem lexes_opening {tag : Text} (h : isTagName tag) {attributes : Attributes}
    {t rest after : Text} {closed : Bool} {token : Token}
    {tokens : List Token} (ht : TagEnd t closed rest)
    (ho : openingTag options (tag ++ (writeAttributes attributes ++ t)) = (token, after))
    (hl : after.length ≤ rest.length) (more : Lexes options after tokens) :
    Lexes options (unit '<' :: (tag ++ (writeAttributes attributes ++ t))) (token :: tokens) := by
  refine lexes_tag ((tagToken_openingTag h _).trans (congrArg some ho)) ?_ more
  have := ht.length_le
  simp only [List.length_append]
  omega

/-- An element whose content is read as markup begins with its opening tag. -/
theorem lexes_open {tag : Text} (h : isTagName tag) {attributes : Attributes}
    (ha : AttributesWellFormed attributes) (hv : isVoid tag = false)
    (hr : options.rawTags.contains tag = false) {rest : Text} {tokens : List Token}
    (more : Lexes options rest tokens) :
    Lexes options (unit '<' :: (tag ++ (writeAttributes attributes ++ unit '>' :: rest)))
      (.opening tag attributes false none :: tokens) := by
  refine lexes_opening h (.open rest) ?_ (Nat.le_refl _) more
  rw [openingTag_write h ha (.open rest)]
  simp only [hv, hr, Bool.or_self, Bool.false_eq_true, if_false]

theorem lexes_void {tag : Text} (h : isTagName tag) {attributes : Attributes}
    (ha : AttributesWellFormed attributes) {rest : Text} {tokens : List Token}
    (more : Lexes options rest tokens) :
    Lexes options (writeVoid tag (writeAttributes attributes) ++ rest)
      (.opening tag attributes true none :: tokens) := by
  have : writeVoid tag (writeAttributes attributes) ++ rest =
      unit '<' :: (tag ++ (writeAttributes attributes ++ (" />" ++ rest))) := by
    simp only [writeVoid, List.cons_append, List.append_assoc]
  rw [this]
  refine lexes_opening h (.void rest) ?_ (Nat.le_refl _) more
  rw [openingTag_write h ha (.void rest)]
  simp only [Bool.true_or, if_true]

/-! Raw content. -/

/-- What is found as a closing tag is one. -/
theorem eq_of_afterRawEnd {tag t after : Text} (h : afterRawEnd? tag t = some after) :
    ∃ name blanks : Text, t = unit '<' :: unit '/' :: (name ++ (blanks ++ unit '>' :: after)) ∧
      Text.sameIgnoringAsciiCase name tag ∧ ∀ u ∈ blanks, isBlank u := by
  simp only [afterRawEnd?] at h
  split at h
  · cases h
  · rename_i rest hp
    have ht := Text.afterPrefix_eq_some_iff.1 hp
    split at h
    · rename_i hs
      split at h
      · rename_i u more htrim
        split at h
        · rename_i hu
          cases h
          refine ⟨rest.take tag.length, (rest.drop tag.length).takeWhile isBlank, ?_, hs,
            fun u hu => List.mem_takeWhile_imp hu⟩
          have hd := List.takeWhile_append_dropWhile (p := isBlank) (l := rest.drop tag.length)
          rw [Text.trimStart] at htrim
          rw [htrim, beq_iff_eq.1 hu] at hd
          rw [hd, List.take_append_drop, ht]
          rfl
        · cases h
      · cases h
    · cases h

theorem less_not_mem_of_same {name tag : Text} (h : isTagName tag)
    (hs : Text.sameIgnoringAsciiCase name tag) : unit '<' ∉ name := by
  intro hm
  have hl : unit '<' ∈ tag.asciiLower := by
    rw [← beq_iff_eq.1 hs]
    exact List.mem_map.2 ⟨unit '<', hm, by decide⟩
  obtain ⟨u, hu, he⟩ := List.mem_map.1 hl
  have hu' := isLowerTagUnit_of_mem h hu
  rw [asciiLower_of_isLowerTagUnit hu'] at he
  exact ne_less_of_isLowerTagUnit hu' he

/-- A text without a closing tag gets none at its start when it is followed by a `<`. -/
theorem afterRawEnd_append {tag content more : Text} (h : isTagName tag) (hne : content ≠ [])
    (hc : ¬ HasClosingTag tag content) :
    afterRawEnd? tag (content ++ unit '<' :: more) = none := by
  cases ha : afterRawEnd? tag (content ++ unit '<' :: more) with
  | none => rfl
  | some after =>
    exfalso
    obtain ⟨name, blanks, he, hs, hb⟩ := eq_of_afterRawEnd ha
    have hless : unit '<' ∉ unit '/' :: (name ++ (blanks ++ [unit '>'])) := by
      simp only [List.mem_cons, List.mem_append, List.not_mem_nil, or_false, not_or]
      refine ⟨by decide, less_not_mem_of_same h hs, fun hm => ?_, by decide⟩
      exact absurd (hb _ hm) (by decide)
    have he' : content ++ unit '<' :: more =
        unit '<' :: unit '/' :: (name ++ (blanks ++ [unit '>'])) ++ after := by
      rw [he]
      simp
    rcases List.append_eq_append_iff.1 he' with ⟨as, h1, h2⟩ | ⟨bs, h1, h2⟩
    · -- The closing tag would reach into what follows, but only its first unit is a `<`.
      cases as with
      | nil => exact hc ⟨[], name, blanks, [], by simpa using h1.symm, hs, hb⟩
      | cons a as =>
        cases content with
        | nil => exact hne rfl
        | cons u content =>
          have ha : a = unit '<' := (List.cons.inj h2).1.symm
          rw [List.cons_append] at h1
          refine hless ?_
          rw [(List.cons.inj h1).2, ha]
          simp
    · exact hc ⟨[], name, blanks, bs, by simpa using h1, hs, hb⟩

theorem HasClosingTag.cons {tag content : Text} (h : HasClosingTag tag content) (u : CodeUnit) :
    HasClosingTag tag (u :: content) := by
  obtain ⟨before, name, blanks, after, rfl, hs, hb⟩ := h
  exact ⟨u :: before, name, blanks, after, rfl, hs, hb⟩

/-- The content of a raw element ends at its own closing tag. -/
theorem rawContent_write {tag content : Text} (h : isTagName tag)
    (hc : ¬ HasClosingTag tag content) (rest : Text) :
    rawContent tag (content ++ unit '<' :: unit '/' :: (tag ++ unit '>' :: rest)) =
      (content, rest) := by
  induction content with
  | nil =>
    have hs : Text.sameIgnoringAsciiCase tag tag := by simp [Text.sameIgnoringAsciiCase]
    have ha : afterRawEnd? tag (unit '<' :: unit '/' :: (tag ++ unit '>' :: rest)) =
        some rest := by
      have hp := Text.afterPrefix_append "</" (tag ++ unit '>' :: rest)
      rw [show Text.ofString "</" ++ (tag ++ unit '>' :: rest) =
        unit '<' :: unit '/' :: (tag ++ unit '>' :: rest) from rfl] at hp
      simp only [afterRawEnd?, hp, List.take_left, hs, if_true, List.drop_left,
        Text.trimStart_cons (show isBlank (unit '>') = false by decide), beq_self_eq_true]
    simp only [List.nil_append, rawContent, ha]
  | cons u content ih =>
    have ha : afterRawEnd? tag (u :: (content ++ unit '<' :: unit '/' :: (tag ++ unit '>' :: rest))) =
        none := afterRawEnd_append h (List.cons_ne_nil u content) hc
    rw [List.cons_append]
    simp only [rawContent, ha, ih fun hc' => hc (hc'.cons u)]

theorem lexes_raw {tag content : Text} (h : isTagName tag) {attributes : Attributes}
    (ha : AttributesWellFormed attributes) (hv : isVoid tag = false)
    (hr : options.rawTags.contains tag = true) (hc : ¬ HasClosingTag tag content) {rest : Text}
    {tokens : List Token} (more : Lexes options rest tokens) :
    Lexes options (writeFilled tag (writeAttributes attributes) content ++ rest)
      (.opening tag attributes false (some content) :: tokens) := by
  have : writeFilled tag (writeAttributes attributes) content ++ rest =
      unit '<' :: (tag ++ (writeAttributes attributes ++ unit '>' ::
        (content ++ unit '<' :: unit '/' :: (tag ++ unit '>' :: rest)))) := by
    simp only [writeFilled, List.cons_append, List.append_assoc, List.nil_append]
    rfl
  rw [this]
  refine lexes_opening h (.open _) ?_ ?_ more
  · rw [openingTag_write h ha (.open _)]
    simp only [hv, hr, Bool.or_self, Bool.false_eq_true, if_false, if_true,
      rawContent_write h hc]
  · simp only [List.length_append, List.length_cons]
    omega

end Markup

end PageTemplate
