import PageTemplate.Proofs.Markup.Reading
import PageTemplate.Proofs.Markup.Tag

/-!
# PageTemplate.Proofs.Markup.RoundTrip

Reading undoes writing.

`parse_serializeAll`: a well-formed forest is read back from its text. The text is first cut into
the pieces that the nodes were written as; building the tree from these pieces then yields the
nodes again.

Writing what was read. The text that read nodes are written as is read as the same nodes, with
neighbouring texts joined, and is what these are written as: it is a normal form. There are two
exceptions. A declaration that begins with `--` is written as the beginning of a comment; and a text
of nothing but white space is not read again where it stands outside all elements.
-/

namespace PageTemplate

namespace Markup

/-! The pieces of a written forest. -/

/-- Everything but text begins with `<`. -/
theorem endsText_serialize {n : Node} (h : n.isText = false) (t : Text) :
    EndsText (n.serialize ++ t) := by
  cases n with
  | element tag attributes children =>
    simp only [Node.serialize, writeElement]
    split
    · exact endsText_cons _
    · exact endsText_cons _
  | text value raw => cases h
  | code source => exact endsText_cons _
  | comment value => exact endsText_cons _
  | doctype value => exact endsText_cons _

theorem endsText_serializeAll {ns : List Node} (h : ∀ m ∈ ns.head?, m.isText = false) {t : Text}
    (ht : EndsText t) : EndsText (serializeAll ns ++ t) := by
  cases ns with
  | nil => exact ht
  | cons n ns =>
    rw [serializeAll, List.append_assoc]
    exact endsText_serialize (h n rfl) _

mutual

theorem Node.lexes {rawTags : List Text} (n : Node) (h : n.WellFormed rawTags) {rest : Text}
    {tokens : List Token} (hr : n.isText → EndsText rest)
    (more : Lexes ⟨rawTags, true⟩ rest tokens) :
    Lexes ⟨rawTags, true⟩ (n.serialize ++ rest) (n.pieces rawTags ++ tokens) := by
  match n with
  | .element tag attributes children =>
    obtain ⟨ht, ha, hc⟩ := h
    simp only [Node.serialize, writeElement, Node.pieces]
    cases hv : isVoid tag with
    | true =>
      simp only [if_true]
      exact lexes_void ht ha more
    | false =>
      simp only [hv, Bool.false_eq_true, if_false] at hc ⊢
      cases hraw : rawTags.contains tag with
      | true =>
        simp only [hraw, if_true] at hc ⊢
        refine lexes_raw ht ha hv hraw ?_ more
        match children, hc with
        | [], _ =>
          rintro ⟨before, name, blanks, after, he, _⟩
          cases before <;> cases he
        | [.text value true], hc => simpa [serializeAll, Node.serialize, writeText] using hc.2
      | false =>
        simp only [hraw, Bool.false_eq_true, if_false] at hc ⊢
        have hclose := lexes_close ht more
        have hin := lexesAll children hc (endsText_cons _) hclose
        have hopen := lexes_open ht ha hv hraw hin
        simp only [writeFilled, writeAttributes, List.cons_append, List.append_assoc,
          List.nil_append] at hopen ⊢
        exact hopen
  | .text value raw =>
    obtain ⟨rfl, hne⟩ := h
    exact lexes_text hne (hr rfl) more
  | .code source => exact lexes_code h more
  | .comment value => exact lexes_comment h more
  | .doctype value => exact lexes_doctype h.1 h.2.1 h.2.2 more

theorem lexesAll {rawTags : List Text} (ns : List Node) (h : Siblings rawTags ns) {rest : Text}
    {tokens : List Token} (hr : EndsText rest) (more : Lexes ⟨rawTags, true⟩ rest tokens) :
    Lexes ⟨rawTags, true⟩ (serializeAll ns ++ rest) (pieces rawTags ns ++ tokens) := by
  match ns with
  | [] => exact more
  | n :: ns =>
    obtain ⟨hn, hne, hs⟩ := h
    rw [serializeAll, pieces, List.append_assoc, List.append_assoc]
    exact n.lexes hn (fun ht => endsText_serializeAll (hne ht) hr) (lexesAll ns hs hr more)

end

/-! The tree of the pieces. -/

namespace Builder

/-- Nodes added inside an open element. -/
theorem foldl_add_open (ns : List Node) (f : Frame) (fs : List Frame) (finished : List Node) :
    ns.foldl Builder.add ⟨f :: fs, finished⟩ =
      ⟨{ f with children := ns.reverse ++ f.children } :: fs, finished⟩ := by
  induction ns generalizing f with
  | nil => rfl
  | cons n ns ih => simp [Builder.add, ih]

/-- Nodes added outside all elements. -/
theorem foldl_add_top (ns finished : List Node) :
    ns.foldl Builder.add ⟨[], finished⟩ = ⟨[], ns.reverse ++ finished⟩ := by
  induction ns generalizing finished with
  | nil => rfl
  | cons n ns ih => simp [Builder.add, ih]

/-- The innermost open element is closed by its own tag. -/
theorem step_close (f : Frame) (fs : List Frame) (finished : List Node) :
    Builder.step ⟨f :: fs, finished⟩ (.close f.tag) =
      Builder.add ⟨fs, finished⟩ (.element f.tag f.attributes f.children.reverse) := by
  simp [Builder.step, List.findIdx?_cons, Builder.close, Builder.closeOne]

theorem step_text {b : Builder} {value : Text} (hne : value ≠ [])
    (hv : b.frames ≠ [] ∨ ∃ u ∈ value, isBlank u = false) :
    b.step (.text (escape value)) = b.add (.text value false) := by
  have hcond : (!(Text.trim (escape value)).isEmpty ||
      (!(escape value).isEmpty && !b.frames.isEmpty)) = true := by
    rcases hv with hf | hv
    · have : escape value ≠ [] := fun he => hne (escape_eq_nil_iff.1 he)
      simp [this, hf]
    · obtain ⟨v, hm, hb⟩ := exists_not_blank_escape hv
      have : Text.trim (escape value) ≠ [] := by
        intro ht
        have := Text.trim_eq_nil_iff.1 ht v hm
        rw [hb] at this
        cases this
      simp [this]
  simp only [Builder.step, hcond, if_true, decodeReferences_escape]

end Builder

/-- Whether a node counts where a builder stands: text of nothing but white space counts only inside
an element. -/
def Counts (b : Builder) (n : Node) : Prop :=
  ∀ value raw, n = .text value raw → b.frames ≠ [] ∨ ∃ u ∈ value, isBlank u = false

theorem counts_add {b : Builder} {m : Node} (h : Counts b m) (n : Node) : Counts (b.add n) m := by
  intro value raw he
  rcases h value raw he with hf | hv
  · left
    cases hb : b.frames with
    | nil => exact absurd hb hf
    | cons f fs => simp [Builder.add, hb]
  · exact .inr hv

theorem counts_open (f : Frame) (fs : List Frame) (finished : List Node) (n : Node) :
    Counts ⟨f :: fs, finished⟩ n := by
  intro _ _ _
  exact .inl (by simp)

mutual

/-- The pieces of a node make that node. -/
theorem Node.build {rawTags : List Text} (n : Node) (h : n.WellFormed rawTags) (b : Builder)
    (hb : Counts b n) : (n.pieces rawTags).foldl Builder.step b = b.add n := by
  match n with
  | .element tag attributes children =>
    obtain ⟨ht, ha, hc⟩ := h
    simp only [Node.pieces]
    cases hv : isVoid tag with
    | true =>
      simp only [hv, if_true] at hc ⊢
      rw [hc]
      rfl
    | false =>
      simp only [hv, Bool.false_eq_true, if_false] at hc ⊢
      cases hraw : rawTags.contains tag with
      | true =>
        simp only [hraw, if_true] at hc ⊢
        match children, hc with
        | [], _ => rfl
        | [.text value true], hc =>
          simp [serializeAll, Node.serialize, writeText, Builder.step, hc.1]
      | false =>
        simp only [hraw, Bool.false_eq_true, if_false] at hc ⊢
        have hin := buildAll children hc ⟨⟨tag, attributes, []⟩ :: b.frames, b.finished⟩
          fun n _ => counts_open _ _ _ n
        rw [Builder.foldl_add_open] at hin
        rw [List.foldl_cons, List.foldl_append]
        simp only [Builder.step]
        rw [hin]
        simp only [List.append_nil, List.foldl_cons, List.foldl_nil]
        rw [Builder.step_close ⟨tag, attributes, children.reverse⟩]
        simp only [List.reverse_reverse]
  | .text value raw =>
    obtain ⟨rfl, hne⟩ := h
    exact Builder.step_text hne (hb value false rfl)
  | .code source => rfl
  | .comment value => rfl
  | .doctype value => rfl

/-- The pieces of nodes make those nodes. -/
theorem buildAll {rawTags : List Text} (ns : List Node) (h : Siblings rawTags ns) (b : Builder)
    (hb : ∀ n ∈ ns, Counts b n) :
    (pieces rawTags ns).foldl Builder.step b = ns.foldl Builder.add b := by
  match ns with
  | [] => rfl
  | n :: ns =>
    obtain ⟨hn, _, hs⟩ := h
    rw [pieces, List.foldl_append, n.build hn b (hb n List.mem_cons_self), List.foldl_cons]
    exact buildAll ns hs (b.add n) fun m hm => counts_add (hb m (List.mem_cons_of_mem n hm)) n

end

/-- **Reading undoes writing.** A well-formed forest is read back from its text. -/
theorem parse_serializeAll {rawTags : List Text} {ns : List Node} (h : Forest rawTags ns) :
    parse ⟨rawTags, true⟩ (serializeAll ns) = .ok ns := by
  have hend : EndsText [] := fun u hu => by cases hu
  have hl := lexesAll ns h.siblings hend .nil
  rw [List.append_nil, List.append_nil] at hl
  have hb := buildAll ns h.siblings ⟨[], []⟩ fun n hn value raw he =>
    .inr (h.visible value raw (he ▸ hn))
  rw [Builder.foldl_add_top] at hb
  simp only [parse, hl.tokens_eq, Except.map, Node.ofTokens, hb, Builder.finish, List.length_nil,
    Builder.close, List.append_nil, List.reverse_reverse]

/-! Writing what was read. -/

/-- A node before others. Two texts become one. -/
def joinOne : Node → List Node → List Node
  | .text a false, .text b false :: ns => .text (a ++ b) false :: ns
  | n, ns => n :: ns

mutual

/-- A node with neighbouring texts in it joined. -/
def Node.joined : Node → Node
  | .element tag attributes children => .element tag attributes (joinTexts children)
  | .text value raw => .text value raw
  | .code source => .code source
  | .comment value => .comment value
  | .doctype value => .doctype value

/-- Nodes with neighbouring texts joined, at every depth. -/
def joinTexts : List Node → List Node
  | [] => []
  | n :: ns => joinOne n.joined (joinTexts ns)

end

mutual

/-- Whether there is a declaration in a node that begins like a comment. -/
def Node.startsComment : Node → Bool
  | .element _ _ children => anyStartsComment children
  | .doctype value => Text.startsWith value "--"
  | .text .. | .code _ | .comment _ => false

/-- Whether there is a declaration in nodes that begins like a comment. -/
def anyStartsComment : List Node → Bool
  | [] => false
  | n :: ns => n.startsComment || anyStartsComment ns

end

/-! Joined texts are written as they were. -/

theorem serializeAll_joinOne (n : Node) (ns : List Node) :
    serializeAll (joinOne n ns) = n.serialize ++ serializeAll ns := by
  rw [joinOne.eq_def]
  split
  · simp [serializeAll, Node.serialize, writeText, escape]
  · rfl

mutual

theorem Node.serialize_joined (n : Node) : n.joined.serialize = n.serialize := by
  match n with
  | .element tag attributes children =>
    rw [Node.joined, Node.serialize, Node.serialize, serializeAll_joinTexts children]
  | .text .. | .code _ | .comment _ | .doctype _ => rfl

/-- Joining neighbouring texts leaves the written text as it is. -/
theorem serializeAll_joinTexts (ns : List Node) :
    serializeAll (joinTexts ns) = serializeAll ns := by
  match ns with
  | [] => rfl
  | n :: ns =>
    rw [joinTexts, serializeAll_joinOne, Node.serialize_joined n, serializeAll_joinTexts ns]
    rfl

end

/-! Joined nodes can be told from their text. -/

variable {options : ReadOptions} {rawTags : List Text}

theorem siblings_joinOne {n : Node} {ns : List Node} (hn : n.WellFormed rawTags)
    (hs : Siblings rawTags ns) : Siblings rawTags (joinOne n ns) := by
  rw [joinOne.eq_def]
  split
  · rename_i a b ns
    obtain ⟨_, hnext, hs⟩ := hs
    exact ⟨⟨rfl, List.append_ne_nil_of_left_ne_nil hn.2 b⟩, fun _ => hnext rfl, hs⟩
  · rename_i hjoin
    refine ⟨hn, fun ht m hm => ?_, hs⟩
    cases ns with
    | nil => cases hm
    | cons m' ns =>
      cases hm
      cases n with
      | text a raw =>
        obtain rfl := hn.1
        cases m with
        | text b raw' =>
          obtain rfl := hs.1.1
          exact (hjoin a b ns rfl rfl).elim
        | _ => rfl
      | _ => cases ht

theorem IsRawBody.joinTexts {tag : Text} {children : List Node} (h : IsRawBody tag children) :
    joinTexts children = children := by
  match children, h with
  | [], _ => rfl
  | [.text value true], _ => rfl

mutual

/-- A read node is well-formed once its texts are joined. -/
theorem Node.IsRead.wellFormed_joined (n : Node) (h : n.IsRead options)
    (hd : n.startsComment = false) : n.joined.WellFormed options.rawTags := by
  match n with
  | .element tag attributes children =>
    obtain ⟨ht, ha, hc⟩ := h
    refine ⟨ht, ha, ?_⟩
    split at hc
    · rename_i hv
      rw [if_pos hv, hc]
      rfl
    · rename_i hv
      rw [if_neg hv]
      split at hc
      · rename_i hraw
        rw [if_pos hraw, hc.joinTexts]
        exact hc
      · rename_i hraw
        rw [if_neg hraw]
        exact AllRead.siblings_joinTexts children hc hd
  | .text value raw => exact h
  | .code source => exact h.2
  | .comment value => exact h
  | .doctype value =>
    refine ⟨h.1, h.2, fun hp => ?_⟩
    rw [Node.startsComment, Text.startsWith, Option.isSome_eq_false_iff, Option.isNone_iff_eq_none,
      Text.afterPrefix_eq_none_iff] at hd
    exact hd hp

/-- Read nodes can stand side by side once their texts are joined. -/
theorem AllRead.siblings_joinTexts (ns : List Node) (h : AllRead options ns)
    (hd : anyStartsComment ns = false) : Siblings options.rawTags (joinTexts ns) := by
  match ns with
  | [] => trivial
  | n :: ns =>
    rw [anyStartsComment, Bool.or_eq_false_iff] at hd
    exact siblings_joinOne (Node.IsRead.wellFormed_joined n h.1 hd.1)
      (AllRead.siblings_joinTexts ns h.2 hd.2)

end

/-- **Writing what was read yields a normal form**: reading it yields the nodes with their
neighbouring texts joined, and these are written in the same way. -/
theorem parse_serializeAll_parse {t : Text} {ns : List Node}
    (h : parse ⟨rawTags, true⟩ t = .ok ns) (hd : anyStartsComment ns = false)
    (hv : ∀ value raw, .text value raw ∈ joinTexts ns → ∃ u ∈ value, isBlank u = false) :
    parse ⟨rawTags, true⟩ (serializeAll ns) = .ok (joinTexts ns) ∧
      serializeAll (joinTexts ns) = serializeAll ns := by
  have hs := serializeAll_joinTexts ns
  refine ⟨?_, hs⟩
  rw [← hs]
  exact parse_serializeAll ⟨AllRead.siblings_joinTexts ns (allRead_parse h) hd, hv⟩

/-- A declaration that begins like a comment is one when it is read again. -/
example : (parse ⟨[], true⟩ "<! --x>").map serializeAll = .ok "<!--x>" ∧
    (parse ⟨[], true⟩ "<!--x>").map serializeAll = .ok "<!--x>-->" := by decide +kernel

end Markup

end PageTemplate
