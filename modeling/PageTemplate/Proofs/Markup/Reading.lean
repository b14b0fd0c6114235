import PageTemplate.Proofs.Case
import PageTemplate.Proofs.Markup.Tag

/-!
# PageTemplate.Proofs.Markup.Reading

What reading yields. Whatever the text, the nodes that are read from it have tag names for tags and
distinct names in lower case for attributes, no text is empty, and no value holds what would have
ended it.
-/

namespace PageTemplate

namespace Text

/-- Before the first occurrence of a pattern there is none. -/
theorem not_infix_of_breakOn {p t before after : Text} (hp : p ≠ [])
    (h : breakOn p t = some (before, after)) : ¬ p <:+: before := by
  induction t generalizing before with
  | nil =>
    have : p.isEmpty = false := by simpa using hp
    simp [breakOn, this] at h
  | cons u t ih =>
    have he := eq_of_breakOn h
    simp only [breakOn] at h
    split at h
    · cases h
      intro hi
      exact hp (List.infix_nil.1 hi)
    · rename_i hn
      obtain ⟨⟨b, a⟩, hb, hba⟩ := Option.map_eq_some_iff.1 h
      cases hba
      intro hi
      rcases List.infix_cons_iff.1 hi with hpre | hi
      · refine afterPrefix_eq_none_iff.1 hn ?_
        rw [he, List.append_assoc]
        exact hpre.trans (List.prefix_append _ _)
      · exact ih hb hi

end Text

namespace Markup

theorem not_infix_upTo {stop : Text} (h : stop ≠ []) (t : Text) : ¬ stop <:+: (upTo stop t).1 := by
  rw [upTo]
  cases hb : Text.breakOn stop t with
  | none => exact Text.breakOn_eq_none_iff.1 hb
  | some found => exact Text.not_infix_of_breakOn h hb

mutual

/-- What holds of a node that was read. -/
def Node.IsRead (options : ReadOptions) : Node → Prop
  | .element tag attributes children =>
    isTagName tag ∧ AttributesWellFormed attributes ∧
      if isVoid tag then children = []
      else if options.rawTags.contains tag then IsRawBody tag children
      else AllRead options children
  | .text value raw => raw = false ∧ value ≠ []
  | .code source => options.inlineCode = true ∧ ¬ Text.ofString "%>" <:+: source
  | .comment value => ¬ Text.ofString "-->" <:+: value
  | .doctype value => Text.trim value = value ∧ unit '>' ∉ value

/-- What holds of nodes that were read. -/
def AllRead (options : ReadOptions) : List Node → Prop
  | [] => True
  | n :: ns => n.IsRead options ∧ AllRead options ns

end

theorem allRead_iff {options : ReadOptions} {ns : List Node} :
    AllRead options ns ↔ ∀ n ∈ ns, n.IsRead options := by
  induction ns with
  | nil => simp [AllRead]
  | cons n ns ih => simp [AllRead, ih]

/-- What holds of a piece that was read. -/
def Token.IsRead (options : ReadOptions) : Token → Prop
  | .text _ | .close _ => True
  | .code source => options.inlineCode = true ∧ ¬ Text.ofString "%>" <:+: source
  | .comment value => ¬ Text.ofString "-->" <:+: value
  | .doctype value => Text.trim value = value ∧ unit '>' ∉ value
  | .opening tag attributes closed content =>
    isTagName tag ∧ AttributesWellFormed attributes ∧
      match closed, content with
      | true, none => True
      | false, none => isVoid tag = false ∧ options.rawTags.contains tag = false
      | _, some content =>
        isVoid tag = false ∧ options.rawTags.contains tag = true ∧ ¬ HasClosingTag tag content

/-! Names. -/

theorem lt_of_isTagUnit {u : CodeUnit} (h : isTagUnit u) : u < 0x80 := by
  simp only [isTagUnit, CodeUnit.isWord, CodeUnit.isLetter, CodeUnit.isLowerLetter,
    CodeUnit.isUpperLetter, CodeUnit.isDigit, unit] at h
  simp at h
  grind

theorem isLowerTagUnit_asciiLower {u : CodeUnit} (h : isTagUnit u) :
    isLowerTagUnit (CodeUnit.asciiLower u) := by
  have hlt := lt_of_isTagUnit h
  revert h
  have : ∀ n : Fin 128, isTagUnit (UInt16.ofNat n) →
      isLowerTagUnit (CodeUnit.asciiLower (UInt16.ofNat n)) := by decide
  have hu : UInt16.ofNat u.toNat = u := by simp
  have := this ⟨u.toNat, hlt⟩
  rwa [hu] at this

theorem isLowerLetter_asciiLower {u : CodeUnit} (h : CodeUnit.isLetter u) :
    CodeUnit.isLowerLetter (CodeUnit.asciiLower u) := by
  simp only [CodeUnit.isLetter, CodeUnit.isLowerLetter, CodeUnit.isUpperLetter,
    CodeUnit.asciiLower, unit] at *
  simp at *
  grind

theorem isTagUnit_of_isLetter {u : CodeUnit} (h : CodeUnit.isLetter u) : isTagUnit u := by
  simp [isTagUnit, CodeUnit.isWord, h]

/-- The tag of an opening tag is a tag name. -/
theorem isTagName_read {u : CodeUnit} (hu : CodeUnit.isLetter u) (more : Text) :
    isTagName (Text.toLower ((u :: more).takeWhile isTagUnit)) := by
  rw [List.takeWhile_cons_of_pos (isTagUnit_of_isLetter hu)]
  have hunit : ∀ v ∈ u :: more.takeWhile isTagUnit, isTagUnit v := by
    intro v hv
    rcases List.mem_cons.1 hv with rfl | hv
    · exact isTagUnit_of_isLetter hu
    · exact List.mem_takeWhile_imp hv
  have hall : (u :: more.takeWhile isTagUnit).all (· < 0x80) := by
    rw [List.all_eq_true]
    exact fun v hv => by simpa using lt_of_isTagUnit (hunit v hv)
  rw [Text.toLower, if_pos hall, List.map_cons, isTagName, Bool.and_eq_true, List.all_eq_true]
  refine ⟨isLowerLetter_asciiLower hu, fun v hv => ?_⟩
  obtain ⟨v', hv', rfl⟩ := List.mem_map.1 hv
  exact isLowerTagUnit_asciiLower (hunit v' (List.mem_cons_of_mem u hv'))

/-- The units of letters can stand in names. -/
theorem isNameUnit_of_lowered {n : Nat} (h : CodePoint.IsLowered n) {u : CodeUnit}
    (hu : u ∈ Text.ofCodePoint n) : isNameUnit u := by
  have hlt := h.lt
  have hfree := h.free
  simp only [CodePoint.reserved, List.forall_mem_cons, CaseRange.covers_eq_false_iff] at hfree
  have hunit : u.toNat = n ∨ (0xD800 ≤ u.toNat ∧ u.toNat ≤ 0xDFFF) := by
    rw [Text.ofCodePoint] at hu
    split at hu
    · rename_i hn
      rw [List.mem_singleton.1 hu, Text.toNat_toUInt16 hn]
      exact .inl rfl
    · rcases List.mem_cons.1 hu with rfl | hu
      · rw [Text.toNat_toUInt16 (by omega)]
        omega
      · rw [List.mem_singleton.1 hu, Text.toNat_toUInt16 (by omega)]
        omega
  have he : unit '=' = 0x3D := rfl
  have hs : unit '/' = 0x2F := rfl
  have hg : unit '>' = 0x3E := rfl
  simp only [isNameUnit, isBlank, he, hs, hg, Bool.and_eq_true, Bool.not_eq_true',
    Bool.or_eq_false_iff, Bool.and_eq_false_iff, decide_eq_false_iff_not, beq_eq_false_iff_ne,
    bne_iff_ne, ne_eq, UInt16.le_iff_toNat_le, ← UInt16.toNat_inj, UInt16.reduceToNat]
  omega

/-- The lower-case form of a run of units of names is a name. -/
theorem isAttributeName_toLower {raw : Text} (hne : raw ≠ []) (h : ∀ u ∈ raw, isNameUnit u) :
    isAttributeName (Text.toLower raw) := by
  have hall : ∀ u ∈ Text.toLower raw, isNameUnit u := by
    intro u hu
    rcases Text.mem_toLower hu with hu | ⟨n, hn, hu⟩
    · exact h u hu
    · exact isNameUnit_of_lowered hn hu
  simp only [isAttributeName, Bool.and_eq_true, Bool.not_eq_true', beq_iff_eq, List.all_eq_true,
    Text.toLower_idem, and_true]
  exact ⟨by simpa using Text.toLower_ne_nil hne, hall⟩

theorem AttributesWellFormed.put {attributes : Attributes} (h : AttributesWellFormed attributes)
    {name : Text} (hn : isAttributeName name) (value : Text) :
    AttributesWellFormed (Assoc.put name value attributes) where
  names a ha := by
    have hk := List.mem_map_of_mem (f := (·.1)) ha
    rw [Assoc.keys_put] at hk
    have hold : a.1 ∈ attributes.map (·.1) → isAttributeName a.1 := by
      intro hm
      obtain ⟨b, hb, he⟩ := List.mem_map.1 hm
      exact he ▸ h.names b hb
    split at hk
    · exact hold hk
    · rcases List.mem_append.1 hk with hk | hk
      · exact hold hk
      · rw [List.mem_singleton.1 hk]
        exact hn
  nodup := Assoc.nodup_put h.nodup name value

theorem isAttributeName_attribute {t name value after : Text}
    (h : attribute? t = some ((name, value), after)) : isAttributeName name := by
  simp only [attribute?] at h
  split at h
  · cases h
  · rename_i hne
    have hraw : isAttributeName (Text.toLower (t.takeWhile isNameUnit)) :=
      isAttributeName_toLower (by simpa using hne) fun u hu => List.mem_takeWhile_imp hu
    split at h <;> (cases h; exact hraw)

theorem isAttributeName_tagPart {t name value after : Text}
    (h : tagPart t = .attribute name value after) : isAttributeName name := by
  simp only [tagPart] at h
  split at h
  · cases h
  · split at h
    · cases h
    · split at h
      · cases h
      · split at h
        · rename_i ha
          cases h
          exact isAttributeName_attribute ha
        · cases h

/-- The attributes of an opening tag have distinct names. -/
theorem wellFormed_attributesFrom (fuel : Nat) {done : Attributes} (h : AttributesWellFormed done)
    (t : Text) : AttributesWellFormed (attributesFrom fuel done t).1 := by
  induction fuel generalizing done t with
  | zero => exact h
  | succ n ih =>
    rw [attributesFrom]
    cases hp : tagPart t with
    | finish closed rest => exact h
    | «attribute» name value after => exact ih (h.put (isAttributeName_tagPart hp) value) after
    | stray rest => exact ih h rest

/-! Raw content. -/

theorem length_eq_of_same {s t : Text} (h : Text.sameIgnoringAsciiCase s t) :
    s.length = t.length := by
  have := congrArg List.length (beq_iff_eq.1 h)
  simpa [Text.asciiLower] using this

/-- A closing tag is found where one stands. -/
theorem afterRawEnd_closing {tag name blanks : Text}
    (hs : Text.sameIgnoringAsciiCase name tag) (hb : ∀ u ∈ blanks, isBlank u) (after : Text) :
    afterRawEnd? tag (unit '<' :: unit '/' :: (name ++ (blanks ++ unit '>' :: after))) =
      some after := by
  have hp := Text.afterPrefix_append "</" (name ++ (blanks ++ unit '>' :: after))
  rw [show Text.ofString "</" ++ (name ++ (blanks ++ unit '>' :: after)) =
    unit '<' :: unit '/' :: (name ++ (blanks ++ unit '>' :: after)) from rfl] at hp
  have htrim : Text.trimStart (blanks ++ unit '>' :: after) = unit '>' :: after :=
    Text.dropWhile_append hb fun u hu => by
      cases hu
      decide
  simp only [afterRawEnd?, hp, ← length_eq_of_same hs, List.take_left, hs, if_true,
    List.drop_left, htrim, beq_self_eq_true]

theorem rawContent_prefix (tag t : Text) : (rawContent tag t).1 <+: t := by
  induction t with
  | nil => exact List.prefix_rfl
  | cons u t ih =>
    rw [rawContent]
    split
    · exact List.nil_prefix
    · exact (List.prefix_cons_inj u).2 ih

/-- The content of a raw element holds no closing tag of it. -/
theorem not_hasClosingTag_rawContent (tag t : Text) : ¬ HasClosingTag tag (rawContent tag t).1 := by
  induction t with
  | nil =>
    rintro ⟨before, name, blanks, after, he, _⟩
    simp [rawContent] at he
  | cons u t ih =>
    rw [rawContent]
    cases ha : afterRawEnd? tag (u :: t) with
    | some after =>
      rintro ⟨before, name, blanks, after, he, _⟩
      simp at he
    | none =>
      rintro ⟨before, name, blanks, after, he, hs, hb⟩
      cases before with
      | cons v before => exact ih ⟨before, name, blanks, after, (List.cons.inj he).2, hs, hb⟩
      | nil =>
        obtain ⟨rfl, hc⟩ := List.cons.inj he
        obtain ⟨rest, hr⟩ := rawContent_prefix tag t
        rw [hc] at hr
        have hclose := afterRawEnd_closing hs hb (after ++ rest)
        rw [← hr] at ha
        simp only [List.cons_append, List.append_assoc] at ha
        rw [hclose] at ha
        cases ha

/-! Pieces. -/

theorem isRead_openingTag (options : ReadOptions) {u : CodeUnit} (hu : CodeUnit.isLetter u)
    (more : Text) : (openingTag options (u :: more)).1.IsRead options := by
  have ht := isTagName_read hu more
  have hnil : AttributesWellFormed [] := ⟨by simp, List.nodup_nil⟩
  have ha := wellFormed_attributesFrom (((u :: more).dropWhile isTagUnit).length + 1) hnil
    ((u :: more).dropWhile isTagUnit)
  rw [openingTag]
  generalize Text.toLower ((u :: more).takeWhile isTagUnit) = tag at ht ⊢
  generalize attributesFrom _ [] ((u :: more).dropWhile isTagUnit) = read at ha ⊢
  obtain ⟨attributes, closed, rest⟩ := read
  dsimp only
  split
  · exact ⟨ht, ha, trivial⟩
  · rename_i hc
    have hv : isVoid tag = false := by
      cases hv : isVoid tag with
      | false => rfl
      | true => simp [hv] at hc
    split
    · rename_i hr
      exact ⟨ht, ha, hv, hr, not_hasClosingTag_rawContent tag rest⟩
    · rename_i hr
      exact ⟨ht, ha, hv, by simpa using hr⟩

theorem isRead_tagToken {options : ReadOptions} {t rest : Text} {token : Token}
    (h : tagToken? options t = some (token, rest)) : token.IsRead options := by
  have hstray : ∀ s : Text, (strayText s).1.IsRead options := fun s => trivial
  cases t with
  | nil =>
    cases h
    trivial
  | cons u more =>
    simp only [tagToken?] at h
    split at h
    · rename_i hcode
      obtain ⟨⟨source, after⟩, hb, he⟩ := Option.map_eq_some_iff.1 h
      cases he
      exact ⟨(Bool.and_eq_true_iff.1 hcode).1, Text.not_infix_of_breakOn (by decide) hb⟩
    · split at h
      · split at h
        · rename_i inner _
          cases h
          exact not_infix_upTo (by decide) inner
        · cases h
          have hg : ¬ Text.ofString ">" <:+: (upTo ">" more).1 :=
            not_infix_upTo (by decide) more
          refine ⟨Text.trim_idem _, fun hm => hg ?_⟩
          obtain ⟨before, after, he⟩ := List.append_of_mem (Text.trim_subset _ hm)
          exact ⟨before, after, by rw [he]; simp; rfl⟩
      · split at h
        · split at h
          · cases h
            trivial
          · cases h
            trivial
        · split at h
          · rename_i hu
            have hi := isRead_openingTag options hu more
            rw [Option.some.inj h] at hi
            exact hi
          · cases h
            trivial

theorem isRead_token {options : ReadOptions} {t rest : Text} {token : Token}
    (h : token? options t = some (token, rest)) : token.IsRead options := by
  cases t with
  | nil => cases h
  | cons u t =>
    simp only [token?] at h
    split at h
    · exact isRead_tagToken h
    · cases h
      trivial

theorem isRead_tokensFrom {options : ReadOptions} (total fuel : Nat) {t : Text}
    {tokens : List Token} (h : tokensFrom options total fuel t = .ok tokens) :
    ∀ token ∈ tokens, token.IsRead options := by
  induction fuel generalizing t tokens with
  | zero =>
    cases t <;> (cases h; simp)
  | succ n ih =>
    cases t with
    | nil =>
      cases h
      simp
    | cons u t =>
      simp only [tokensFrom] at h
      split at h
      · cases h
      · rename_i token rest hr
        cases hm : tokensFrom options total n rest with
        | error e =>
          rw [hm] at h
          cases h
        | ok more =>
          rw [hm] at h
          cases h
          intro token' hm'
          rcases List.mem_cons.1 hm' with rfl | hm'
          · exact isRead_token hr
          · exact ih hm token' hm'

/-! Trees. -/

/-- What holds of an element that is being read. -/
structure Frame.IsRead (options : ReadOptions) (f : Frame) : Prop where
  tag : isTagName f.tag
  attributes : AttributesWellFormed f.attributes
  filled : isVoid f.tag = false
  markup : options.rawTags.contains f.tag = false
  children : AllRead options f.children

/-- What holds while nodes are being read. -/
structure Builder.IsRead (options : ReadOptions) (b : Builder) : Prop where
  frames : ∀ f ∈ b.frames, f.IsRead options
  finished : AllRead options b.finished

namespace Builder

variable {options : ReadOptions} {b : Builder}

theorem IsRead.add (h : b.IsRead options) {n : Node} (hn : n.IsRead options) :
    (b.add n).IsRead options := by
  obtain ⟨frames, finished⟩ := b
  cases frames with
  | nil => exact ⟨h.frames, hn, h.finished⟩
  | cons f fs =>
    refine ⟨fun g hg => ?_, h.finished⟩
    have hf := h.frames f List.mem_cons_self
    rcases List.mem_cons.1 hg with rfl | hg
    · exact ⟨hf.tag, hf.attributes, hf.filled, hf.markup, hn, hf.children⟩
    · exact h.frames g (List.mem_cons_of_mem f hg)

theorem allRead_reverse {ns : List Node} (h : AllRead options ns) : AllRead options ns.reverse := by
  rw [allRead_iff] at h ⊢
  exact fun n hn => h n (List.mem_reverse.1 hn)

theorem IsRead.closeOne (h : b.IsRead options) : b.closeOne.IsRead options := by
  obtain ⟨frames, finished⟩ := b
  cases frames with
  | nil => exact h
  | cons f fs =>
    have hf := h.frames f List.mem_cons_self
    have hrest : Builder.IsRead options ⟨fs, finished⟩ :=
      ⟨fun g hg => h.frames g (List.mem_cons_of_mem f hg), h.finished⟩
    refine hrest.add ?_
    simp only [Node.IsRead, hf.filled, hf.markup, Bool.false_eq_true, if_false]
    exact ⟨hf.tag, hf.attributes, allRead_reverse hf.children⟩

theorem IsRead.close (h : b.IsRead options) (n : Nat) : (b.close n).IsRead options := by
  induction n generalizing b with
  | zero => exact h
  | succ n ih => exact ih h.closeOne

/-- A raw element with its content. -/
theorem isRead_raw {tag content : Text} {attributes : Attributes} (ht : isTagName tag)
    (ha : AttributesWellFormed attributes) (hv : isVoid tag = false)
    (hr : options.rawTags.contains tag = true) (hc : ¬ HasClosingTag tag content) :
    (Node.element tag attributes
      (if content.isEmpty then [] else [.text content true])).IsRead options := by
  simp only [Node.IsRead, hv, hr, Bool.false_eq_true, if_false, if_true]
  refine ⟨ht, ha, ?_⟩
  cases content with
  | nil => trivial
  | cons u content => exact ⟨List.cons_ne_nil u content, hc⟩

theorem IsRead.step (h : b.IsRead options) {token : Token} (ht : token.IsRead options) :
    (b.step token).IsRead options := by
  cases token with
  | text value =>
    simp only [Builder.step]
    split
    · rename_i hv
      have hne : value ≠ [] := by
        rintro rfl
        simp [Text.trim, Text.trimStart, Text.trimEnd, Text.dropEndWhile] at hv
      exact h.add ⟨rfl, decodeReferences_ne_nil hne⟩
    · exact h
  | code source => exact h.add ht
  | comment value => exact h.add ht
  | doctype value => exact h.add ht
  | close tag =>
    simp only [Builder.step]
    split
    · exact h.close _
    · exact h
  | opening tag attributes closed content =>
    obtain ⟨hn, ha, hc⟩ := ht
    cases closed <;> cases content
    · refine ⟨fun f hf => ?_, h.finished⟩
      rcases List.mem_cons.1 hf with rfl | hf
      · exact ⟨hn, ha, hc.1, hc.2, trivial⟩
      · exact h.frames f hf
    · exact h.add (isRead_raw hn ha hc.1 hc.2.1 hc.2.2)
    · refine h.add ⟨hn, ha, ?_⟩
      split
      · rfl
      · split <;> trivial
    · exact h.add (isRead_raw hn ha hc.1 hc.2.1 hc.2.2)

theorem IsRead.foldl (h : b.IsRead options) {tokens : List Token}
    (ht : ∀ token ∈ tokens, token.IsRead options) :
    (tokens.foldl Builder.step b).IsRead options := by
  induction tokens generalizing b with
  | nil => exact h
  | cons token tokens ih =>
    have hnext := h.step (ht token List.mem_cons_self)
    exact ih hnext fun t' hm => ht t' (List.mem_cons_of_mem token hm)

end Builder

/-- **What reading yields**, from any text. -/
theorem allRead_parse {options : ReadOptions} {t : Text} {ns : List Node}
    (h : parse options t = .ok ns) : AllRead options ns := by
  rw [parse] at h
  cases ht : tokens options t with
  | error e =>
    rw [ht] at h
    cases h
  | ok pieces =>
    rw [ht] at h
    cases h
    have hb : Builder.IsRead options ⟨[], []⟩ := ⟨by simp, trivial⟩
    have hf := (hb.foldl (isRead_tokensFrom _ _ ht)).close
      (pieces.foldl Builder.step ⟨[], []⟩).frames.length
    exact Builder.allRead_reverse hf.finished

end Markup

end PageTemplate
