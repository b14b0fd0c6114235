import PageTemplate.Markup.Parser
import PageTemplate.Markup.Serialize
import PageTemplate.Proofs.Markup.Escape
import PageTemplate.Proofs.Text

/-!
# PageTemplate.Proofs.Markup.Lexing

The forests that can be told from their text: every name can be read as a name, no value ends the
piece of markup that it stands in, and no two text nodes are neighbours. Each piece of such a forest
is read back from the start of the text that it is written as, whatever follows; a text node only
when nothing or a `<` follows.
-/

namespace PageTemplate

namespace Markup

/-- The units of a tag name in lower case. -/
def isLowerTagUnit (u : CodeUnit) : Bool :=
  CodeUnit.isLowerLetter u || CodeUnit.isDigit u || u == unit '_' || u == unit ':' ||
    u == unit '-'

/-- Tag names: a lower-case letter, then lower-case letters, digits, `_`, `:` and `-`. -/
def isTagName : Text → Bool
  | [] => false
  | u :: rest => CodeUnit.isLowerLetter u && rest.all isLowerTagUnit

/-- Attribute names: not empty, in lower case, without white space, `=`, `/` and `>`. -/
def isAttributeName (name : Text) : Bool :=
  !name.isEmpty && Text.toLower name == name && name.all isNameUnit

structure AttributesWellFormed (attributes : Attributes) : Prop where
  names : ∀ a ∈ attributes, isAttributeName a.1
  nodup : (attributes.map (·.1)).Nodup

/-- Whether a text holds a closing tag: `</`, the tag in any case, white space and `>`. -/
def HasClosingTag (tag content : Text) : Prop :=
  ∃ before name blanks after : Text,
    content = before ++ unit '<' :: unit '/' :: (name ++ (blanks ++ unit '>' :: after)) ∧
      Text.sameIgnoringAsciiCase name tag ∧ ∀ u ∈ blanks, isBlank u

/-- What a raw element may hold: nothing, or one raw text that does not end it. -/
def IsRawBody (tag : Text) : List Node → Prop
  | [] => True
  | [.text value true] => value ≠ [] ∧ ¬ HasClosingTag tag value
  | _ => False

def Node.isText : Node → Bool
  | .text .. => true
  | _ => false

mutual

/-- A node that can stand inside an element whose content is read as markup. -/
def Node.WellFormed (rawTags : List Text) : Node → Prop
  | .element tag attributes children =>
    isTagName tag ∧ AttributesWellFormed attributes ∧
      if isVoid tag then children = []
      else if rawTags.contains tag then IsRawBody tag children
      else Siblings rawTags children
  | .text value raw => raw = false ∧ value ≠ []
  | .code source => ¬ Text.ofString "%>" <:+: source
  | .comment value => ¬ Text.ofString "-->" <:+: value
  | .doctype value =>
    Text.trim value = value ∧ unit '>' ∉ value ∧ ¬ Text.ofString "--" <+: value

/-- Nodes that can stand side by side: each is well-formed, and text is followed by something
else. -/
def Siblings (rawTags : List Text) : List Node → Prop
  | [] => True
  | n :: ns =>
    n.WellFormed rawTags ∧ (n.isText → ∀ m ∈ ns.head?, m.isText = false) ∧ Siblings rawTags ns

end

/-- A well-formed list of nodes. Outside all elements a text node is not white space alone. -/
structure Forest (rawTags : List Text) (ns : List Node) : Prop where
  siblings : Siblings rawTags ns
  visible : ∀ value raw, .text value raw ∈ ns → ∃ u ∈ value, isBlank u = false

/-! Units of names. -/

theorem isTagUnit_of_isLowerTagUnit {u : CodeUnit} (h : isLowerTagUnit u) : isTagUnit u := by
  simp only [isLowerTagUnit, Bool.or_eq_true] at h
  simp only [isTagUnit, CodeUnit.isWord, CodeUnit.isLetter, Bool.or_eq_true]
  grind

theorem lt_of_isLowerLetter {u : CodeUnit} (h : CodeUnit.isLowerLetter u) : u < 0x80 := by
  simp only [CodeUnit.isLowerLetter, unit] at h
  simp at h
  grind

theorem asciiLower_of_isLowerLetter {u : CodeUnit} (h : CodeUnit.isLowerLetter u) :
    CodeUnit.asciiLower u = u := by
  simp only [CodeUnit.isLowerLetter, CodeUnit.asciiLower, CodeUnit.isUpperLetter, unit] at *
  simp at *
  grind

theorem isLowerTagUnit_of_isLowerLetter {u : CodeUnit} (h : CodeUnit.isLowerLetter u) :
    isLowerTagUnit u := by
  simp [isLowerTagUnit, h]

theorem lt_of_isLowerTagUnit {u : CodeUnit} (h : isLowerTagUnit u) : u < 0x80 := by
  simp only [isLowerTagUnit, CodeUnit.isDigit, Bool.or_eq_true, beq_iff_eq] at h
  rcases h with (((h | h) | rfl) | rfl) | rfl
  · exact lt_of_isLowerLetter h
  · simp only [unit] at h
    simp at h
    grind
  all_goals decide

theorem asciiLower_of_isLowerTagUnit {u : CodeUnit} (h : isLowerTagUnit u) :
    CodeUnit.asciiLower u = u := by
  simp only [isLowerTagUnit, CodeUnit.isDigit, Bool.or_eq_true, beq_iff_eq] at h
  rcases h with (((h | h) | rfl) | rfl) | rfl
  · exact asciiLower_of_isLowerLetter h
  · simp only [CodeUnit.asciiLower, CodeUnit.isUpperLetter, unit] at *
    simp at *
    grind
  all_goals decide

/-- A tag name begins with a letter. -/
theorem exists_cons_of_isTagName {tag : Text} (h : isTagName tag) :
    ∃ u rest, tag = u :: rest ∧ CodeUnit.isLowerLetter u := by
  cases tag with
  | nil => cases h
  | cons u rest =>
    simp only [isTagName, Bool.and_eq_true] at h
    exact ⟨u, rest, rfl, h.1⟩

theorem isLowerTagUnit_of_mem {tag : Text} (h : isTagName tag) {u : CodeUnit} (hu : u ∈ tag) :
    isLowerTagUnit u := by
  cases tag with
  | nil => cases hu
  | cons v rest =>
    simp only [isTagName, Bool.and_eq_true, List.all_eq_true] at h
    rcases List.mem_cons.1 hu with rfl | hr
    · exact isLowerTagUnit_of_isLowerLetter h.1
    · exact h.2 u hr

theorem toLower_of_isTagName {tag : Text} (h : isTagName tag) : Text.toLower tag = tag :=
  Text.toLower_of_ascii (fun _ hu => lt_of_isLowerTagUnit (isLowerTagUnit_of_mem h hu))
    (fun _ hu => asciiLower_of_isLowerTagUnit (isLowerTagUnit_of_mem h hu))

theorem ne_less_of_isLowerTagUnit {u : CodeUnit} (h : isLowerTagUnit u) : u ≠ unit '<' := by
  rintro rfl
  revert h
  decide

/-! The pieces of a text. -/

mutual

/-- The pieces that a node is written as. -/
def Node.pieces (rawTags : List Text) : Node → List Token
  | .element tag attributes children =>
    if isVoid tag then [.opening tag attributes true none]
    else if rawTags.contains tag then
      [.opening tag attributes false (some (serializeAll children))]
    else .opening tag attributes false none :: (pieces rawTags children ++ [.close tag])
  | .text value _ => [.text (escape value)]
  | .code source => [.code source]
  | .comment value => [.comment value]
  | .doctype value => [.doctype value]

/-- The pieces of nodes one after another. -/
def pieces (rawTags : List Text) : List Node → List Token
  | [] => []
  | n :: ns => n.pieces rawTags ++ pieces rawTags ns

end

/-- The pieces that a text is read as, each one from a shorter rest. -/
inductive Lexes (options : ReadOptions) : Text → List Token → Prop where
  | nil : Lexes options [] []
  | cons {t rest : Text} {token : Token} {tokens : List Token}
      (read : token? options t = some (token, rest)) (shorter : rest.length < t.length)
      (more : Lexes options rest tokens) : Lexes options t (token :: tokens)

theorem Lexes.tokensFrom_eq {options : ReadOptions} {t : Text} {tokens : List Token}
    (h : Lexes options t tokens) :
    ∀ total fuel, t.length ≤ fuel → tokensFrom options total fuel t = .ok tokens := by
  induction h with
  | nil =>
    intro total fuel _
    cases fuel <;> rfl
  | @cons t rest token tokens read shorter _ ih =>
    intro total fuel hf
    cases fuel with
    | zero => omega
    | succ fuel =>
      cases t with
      | nil => simp at shorter
      | cons u t =>
        simp only [tokensFrom, read, ih total fuel (by omega)]
        rfl

theorem Lexes.tokens_eq {options : ReadOptions} {t : Text} {pieces : List Token}
    (h : Lexes options t pieces) : tokens options t = .ok pieces :=
  h.tokensFrom_eq t.length t.length (Nat.le_refl _)

/-- Whether a text is empty or begins with `<`, so that a text before it ends there. -/
def EndsText (t : Text) : Prop := ∀ u ∈ t.head?, u = unit '<'

theorem endsText_cons (t : Text) : EndsText (unit '<' :: t) := by
  intro u hu
  cases hu
  rfl

variable {options : ReadOptions}

/-- Reading a piece that begins with `<`. -/
theorem lexes_tag {t rest : Text} {token : Token} {tokens : List Token}
    (read : tagToken? options t = some (token, rest)) (shorter : rest.length ≤ t.length)
    (more : Lexes options rest tokens) : Lexes options (unit '<' :: t) (token :: tokens) := by
  refine .cons ?_ (by simp only [List.length_cons]; omega) more
  simpa only [token?, beq_self_eq_true, if_true] using read

theorem lexes_text {value rest : Text} {tokens : List Token} (hv : value ≠ [])
    (hr : EndsText rest) (more : Lexes options rest tokens) :
    Lexes options (escape value ++ rest) (.text (escape value) :: tokens) := by
  have hne : escape value ≠ [] := fun h => hv (escape_eq_nil_iff.1 h)
  have hs : ∀ u ∈ escape value, (u != unit '<') = true := by
    intro u hu
    simpa using escape_ne_less hu
  have hd : ∀ u ∈ rest.head?, (u != unit '<') = false := by
    intro u hu
    simpa using hr u hu
  have ht := Text.takeWhile_append hs hd
  have hw := Text.dropWhile_append hs hd
  cases he : escape value with
  | nil => exact absurd he hne
  | cons u us =>
    have hu : u ≠ unit '<' := escape_ne_less (t := value) (by simp [he])
    rw [he] at ht hw
    have hlt : rest.length < (u :: us ++ rest).length := by
      rw [List.cons_append, List.length_cons, List.length_append]
      omega
    refine .cons ?_ hlt more
    simp only [List.cons_append] at ht hw ⊢
    simp only [token?, beq_iff_eq, hu, if_false, ht, hw]

theorem lexes_code {rawTags : List Text} {source rest : Text} {tokens : List Token}
    (h : ¬ Text.ofString "%>" <:+: source) (more : Lexes ⟨rawTags, true⟩ rest tokens) :
    Lexes ⟨rawTags, true⟩ (writeCode source ++ rest) (.code source :: tokens) := by
  have hb := Text.breakOn_append (q := [unit '%']) (z := unit '>') (r := rest) (by decide) h
  have : writeCode source ++ rest = unit '<' :: unit '%' :: (source ++ "%>" ++ rest) := by
    simp only [writeCode, List.append_assoc]
    rfl
  rw [this]
  refine lexes_tag ?_ (by simp only [List.length_cons, List.length_append]; omega) more
  simp only [tagToken?, beq_self_eq_true, Bool.and_self, if_true]
  exact congrArg (Option.map _) hb

theorem lexes_comment {value rest : Text} {tokens : List Token}
    (h : ¬ Text.ofString "-->" <:+: value) (more : Lexes options rest tokens) :
    Lexes options (writeComment value ++ rest) (.comment value :: tokens) := by
  have hb := Text.breakOn_append (q := [unit '-', unit '-']) (z := unit '>') (r := rest)
    (by decide) h
  have : writeComment value ++ rest =
      unit '<' :: unit '!' :: ("--" ++ (value ++ "-->" ++ rest)) := by
    simp only [writeComment, List.append_assoc]
    rfl
  rw [this]
  refine lexes_tag ?_ (by simp only [List.length_cons, List.length_append]; omega) more
  have hp : (unit '!' == unit '%') = false := by decide
  have hu : upTo "-->" (value ++ "-->" ++ rest) = (value, rest) := by
    simp only [upTo]
    exact congrArg (Option.getD · _) hb
  simp only [tagToken?, hp, Bool.and_false, Bool.false_eq_true, if_false, beq_self_eq_true,
    if_true, Text.afterPrefix_append, hu]

theorem lexes_doctype {value rest : Text} {tokens : List Token} (ht : Text.trim value = value)
    (hg : unit '>' ∉ value) (hd : ¬ Text.ofString "--" <+: value)
    (more : Lexes options rest tokens) :
    Lexes options (writeDoctype value ++ rest) (.doctype value :: tokens) := by
  have hi : ¬ ([] ++ [unit '>']) <:+: value := by
    rintro ⟨before, after, rfl⟩
    simp at hg
  have hb := Text.breakOn_append (q := []) (z := unit '>') (r := rest) (by simp) hi
  have : writeDoctype value ++ rest = unit '<' :: unit '!' :: (value ++ ">" ++ rest) := by
    simp only [writeDoctype, List.append_assoc]
    rfl
  rw [this]
  refine lexes_tag ?_ (by simp only [List.length_cons, List.length_append]; omega) more
  have hp : (unit '!' == unit '%') = false := by decide
  have hn : Text.afterPrefix "--" (value ++ ">" ++ rest) = none := by
    rw [Text.afterPrefix_eq_none_iff]
    rintro ⟨more, hm⟩
    -- The two dashes would have to reach into what follows the value, which is no dash.
    match value, hd with
    | [], _ =>
      have h0 : unit '-' = unit '>' := Option.some.inj (congrArg List.head? hm)
      exact absurd h0 (by decide)
    | [u], _ =>
      have h1 : unit '-' = unit '>' := Option.some.inj (congrArg (fun t => t[1]?) hm)
      exact absurd h1 (by decide)
    | u :: v :: value, hd =>
      refine hd ⟨value, ?_⟩
      have h0 : unit '-' = u := Option.some.inj (congrArg (fun t => t[0]?) hm)
      have h1 : unit '-' = v := Option.some.inj (congrArg (fun t => t[1]?) hm)
      rw [← h0, ← h1]
      rfl
  have hu : upTo ">" (value ++ ">" ++ rest) = (value, rest) := by
    simp only [upTo]
    exact congrArg (Option.getD · _) hb
  simp only [tagToken?, hp, Bool.and_false, Bool.false_eq_true, if_false, beq_self_eq_true,
    if_true, hn, hu, ht]

end Markup

end PageTemplate
