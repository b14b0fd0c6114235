import PageTemplate.Markup.Serialize

/-!
# PageTemplate.Proofs.Markup.Stretches

Written markup cut at its tags: the tags, and what stands between them. The text of markup is that
of its stretches, one after another, so what becomes of a text when certain tags are taken out of
it can be said.
-/

namespace PageTemplate

namespace Markup

/-- A tag, or the text of a node that is no element. -/
inductive Stretch where
  | opening (tag : Text) (attributes : Attributes)
  | closing (tag : Text)
  /-- The tag of an element that has no content. -/
  | single (tag : Text) (attributes : Attributes)
  | between (written : Text)

namespace Stretch

def writeAttributes (attributes : Attributes) : Text :=
  attributes.flatMap fun (n, v) => writeAttribute n v

def write : Stretch → Text
  | .opening tag attributes => unit '<' :: tag ++ writeAttributes attributes ++ [unit '>']
  | .closing tag => "</" ++ tag ++ [unit '>']
  | .single tag attributes => writeVoid tag (writeAttributes attributes)
  | .between written => written

/-- Whether a stretch is a tag of a certain kind of elements. -/
def isTagOf (tag : Text) : Stretch → Bool
  | .opening t _ | .closing t | .single t _ => t == tag
  | .between _ => false

end Stretch

mutual

/-- The stretches of a node. -/
def Node.stretches : Node → List Stretch
  | .element tag attributes children =>
    if isVoid tag then [.single tag attributes]
    else .opening tag attributes :: (stretchesOf children ++ [.closing tag])
  | .text value raw => [.between (writeText value raw)]
  | .code source => [.between (writeCode source)]
  | .comment value => [.between (writeComment value)]
  | .doctype value => [.between (writeDoctype value)]

/-- The stretches of nodes one after another. -/
def stretchesOf : List Node → List Stretch
  | [] => []
  | n :: ns => n.stretches ++ stretchesOf ns

end

/-- Stretches as a text. -/
def writeStretches (ps : List Stretch) : Text := ps.flatMap Stretch.write

theorem writeStretches_append (ps qs : List Stretch) :
    writeStretches (ps ++ qs) = writeStretches ps ++ writeStretches qs := List.flatMap_append

theorem stretchesOf_append (ns ms : List Node) : stretchesOf (ns ++ ms) = stretchesOf ns ++ stretchesOf ms := by
  induction ns with
  | nil => rfl
  | cons n ns ih => rw [List.cons_append, stretchesOf, stretchesOf, ih, List.append_assoc]

mutual

theorem Node.serialize_eq_stretches (n : Node) : n.serialize = writeStretches n.stretches := by
  match n with
  | .element tag attributes children =>
    rw [Node.serialize, Node.stretches, writeElement]
    split
    · simp [writeStretches, Stretch.write, Stretch.writeAttributes]
    · rw [serializeAll_eq_stretches children]
      simp [writeStretches, Stretch.write, Stretch.writeAttributes, writeFilled]
  | .text .. | .code _ | .comment _ | .doctype _ =>
    simp [Node.serialize, Node.stretches, writeStretches, Stretch.write]

/-- The text of nodes is that of their stretches. -/
theorem serializeAll_eq_stretches (ns : List Node) : serializeAll ns = writeStretches (stretchesOf ns) := by
  match ns with
  | [] => rfl
  | n :: ns =>
    rw [serializeAll, stretchesOf, writeStretches_append, n.serialize_eq_stretches,
      serializeAll_eq_stretches ns]

end

/-! Taking out the tags of one kind of elements. -/

/-- The stretches that are no tags of a certain kind of elements. -/
def withoutTags (tag : Text) (ps : List Stretch) : List Stretch := ps.filter fun p => !p.isTagOf tag

section WithoutTags

variable {tag : Text}

@[simp] theorem withoutTags_append (ps qs : List Stretch) :
    withoutTags tag (ps ++ qs) = withoutTags tag ps ++ withoutTags tag qs :=
  List.filter_append ..

/-- Without the tags of its kind, an element leaves its content. -/
theorem withoutTags_own {attributes : Attributes} {children : List Node} (hv : isVoid tag = false) :
    withoutTags tag (Node.element tag attributes children).stretches =
      withoutTags tag (stretchesOf children) := by
  rw [Node.stretches, if_neg (by simp [hv]), ← List.singleton_append, withoutTags_append,
    withoutTags_append]
  simp [withoutTags, Stretch.isTagOf]

/-- An element comes out the same around contents that do. -/
theorem withoutTags_element {t : Text} {attributes : Attributes} {children children' : List Node}
    (h : withoutTags tag (stretchesOf children') = withoutTags tag (stretchesOf children)) :
    withoutTags tag (Node.element t attributes children').stretches =
      withoutTags tag (Node.element t attributes children).stretches := by
  rw [Node.stretches, Node.stretches]
  split
  · rfl
  · rw [← List.singleton_append, ← List.singleton_append (l := stretchesOf children ++ _)]
    simp only [withoutTags_append, h]

end WithoutTags

end Markup

end PageTemplate
