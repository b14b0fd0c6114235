import PageTemplate.Proofs.Tree.Operations

/-!
# PageTemplate.Proofs.Tree.NodeTree

Trees of nodes, apart from the store. A place of a view represents a tree when the node there and
everything below it is as the tree says. What represents a tree keeps doing so as long as the nodes
in it stay as they are.
-/

namespace PageTemplate

/-- A tree of nodes. A leaf is a node of a kind that has no children. -/
inductive NodeTree where
  | element (tag : Value) (attributes : List (Value × Value)) (children : List NodeTree)
  | leaf (core : NodeCore)

/-- Attributes with values for their texts. -/
def Markup.values (attributes : Markup.Attributes) : List (Value × Value) :=
  attributes.map fun (n, v) => (.text n, .text v)

@[simp] theorem Markup.values_nil : Markup.values [] = [] := rfl

@[simp] theorem Markup.values_cons (a : Text × Text) (attributes : Markup.Attributes) :
    Markup.values (a :: attributes) = (.text a.1, .text a.2) :: Markup.values attributes := rfl

mutual

/-- Markup as a tree of nodes. -/
def Markup.Node.tree : Markup.Node → NodeTree
  | .element tag attributes children =>
    .element (.text tag) (Markup.values attributes) (treesOf children)
  | .text value raw => .leaf (.text (.text value) (.bool raw))
  | .code source => .leaf (.code (.text source))
  | .comment value => .leaf (.comment (.text value))
  | .doctype value => .leaf (.doctype (.text value))

/-- Markup as trees of nodes. -/
def treesOf : List Markup.Node → List NodeTree
  | [] => []
  | n :: ns => n.tree :: treesOf ns

end

theorem treesOf_append (ns ms : List Markup.Node) :
    treesOf (ns ++ ms) = treesOf ns ++ treesOf ms := by
  induction ns with
  | nil => rfl
  | cons n ns ih => rw [List.cons_append, treesOf, treesOf, ih, List.cons_append]

namespace View

mutual

/-- Whether there is a certain tree at a place. -/
def Represents (V : View) (id : ObjectId) : NodeTree → Prop
  | .element tag attributes children =>
    V.core id = some (.element tag) ∧ (V.attributes id).live = attributes ∧
      RepresentsAll V (V.children id) children
  | .leaf core => V.core id = some core ∧ core.hasChildren = false

/-- Whether there are certain trees at some places. -/
def RepresentsAll (V : View) (ids : List ObjectId) : List NodeTree → Prop
  | [] => ids = []
  | t :: ts => ∃ id rest, ids = id :: rest ∧ V.Represents id t ∧ RepresentsAll V rest ts

end

@[simp] theorem representsAll_nil {V : View} {ids : List ObjectId} :
    V.RepresentsAll ids [] ↔ ids = [] := by
  simp [RepresentsAll]

@[simp] theorem representsAll_cons {V : View} {id : ObjectId} {ids : List ObjectId} {t : NodeTree}
    {ts : List NodeTree} :
    V.RepresentsAll (id :: ids) (t :: ts) ↔ V.Represents id t ∧ V.RepresentsAll ids ts := by
  simp only [RepresentsAll]
  constructor
  · rintro ⟨id', rest, he, h, hs⟩
    cases he
    exact ⟨h, hs⟩
  · rintro ⟨h, hs⟩
    exact ⟨id, ids, rfl, h, hs⟩

theorem representsAll_append {V : View} {ids ids' : List ObjectId} {ts ts' : List NodeTree}
    (h : V.RepresentsAll ids ts) (h' : V.RepresentsAll ids' ts') :
    V.RepresentsAll (ids ++ ids') (ts ++ ts') := by
  induction ts generalizing ids with
  | nil =>
    rw [representsAll_nil.1 h]
    exact h'
  | cons t ts ih =>
    obtain ⟨id, rest, rfl, ht, hts⟩ := h
    exact representsAll_cons.2 ⟨ht, ih hts⟩

theorem RepresentsAll.split {V : View} {ids ids' : List ObjectId} {ts : List NodeTree}
    (h : V.RepresentsAll (ids ++ ids') ts) :
    ∃ us us', ts = us ++ us' ∧ V.RepresentsAll ids us ∧ V.RepresentsAll ids' us' := by
  induction ids generalizing ts with
  | nil => exact ⟨[], ts, rfl, representsAll_nil.2 rfl, h⟩
  | cons id ids ih =>
    cases ts with
    | nil => cases representsAll_nil.1 h
    | cons t ts =>
      obtain ⟨ht, hts⟩ := representsAll_cons.1 h
      obtain ⟨us, us', rfl, hus, hus'⟩ := ih hts
      exact ⟨t :: us, us', rfl, representsAll_cons.2 ⟨ht, hus⟩, hus'⟩

/-- Whether a node and what it lists are the same in two views. -/
structure Agree (V V' : View) (x : ObjectId) : Prop where
  core : V'.core x = V.core x
  children : V'.children x = V.children x
  attributes : V'.attributes x = V.attributes x

theorem Agree.refl (V : View) (x : ObjectId) : Agree V V x := ⟨rfl, rfl, rfl⟩

theorem Agree.trans {V V' V'' : View} {x : ObjectId} (h : Agree V V' x) (h' : Agree V' V'' x) :
    Agree V V'' x :=
  ⟨h'.core.trans h.core, h'.children.trans h.children, h'.attributes.trans h.attributes⟩

/-- Whether a node is another one or lies below it. -/
def Within (V : View) (id x : ObjectId) : Prop := x = id ∨ V.Above id x

theorem Within.of_child {V : View} {id c x : ObjectId} (hc : V.parent c = some id)
    (h : V.Within c x) : V.Within id x := by
  rcases h with rfl | ha
  · exact .inr (.single hc)
  · exact .inr (ha.tail hc)

mutual

/-- A tree stays as it is when its nodes do. -/
theorem Represents.frame {V V' : View} (hf : V.IsForest) {id : ObjectId} (t : NodeTree)
    (h : V.Represents id t) (hag : ∀ x, V.Within id x → Agree V V' x) : V'.Represents id t := by
  match t with
  | .element tag attributes children =>
    obtain ⟨hc, ha, hs⟩ := h
    have hid := hag id (.inl rfl)
    refine ⟨hid.core.trans hc, by rw [hid.attributes]; exact ha, ?_⟩
    rw [hid.children]
    refine RepresentsAll.frame hf children hs fun c hm x hx => hag x ?_
    exact hx.of_child ((hf.mem_children id c).1 hm)
  | .leaf core =>
    have hid := hag id (.inl rfl)
    exact ⟨hid.core.trans h.1, h.2⟩

theorem RepresentsAll.frame {V V' : View} (hf : V.IsForest) {ids : List ObjectId}
    (ts : List NodeTree) (h : V.RepresentsAll ids ts)
    (hag : ∀ c ∈ ids, ∀ x, V.Within c x → Agree V V' x) : V'.RepresentsAll ids ts := by
  match ts with
  | [] => exact h
  | t :: ts =>
    obtain ⟨id, rest, rfl, ht, hts⟩ := h
    refine representsAll_cons.2 ⟨?_, ?_⟩
    · exact ht.frame hf t (hag id List.mem_cons_self)
    · exact hts.frame hf ts fun c hm => hag c (List.mem_cons_of_mem id hm)

end

/-- What is at a place that represents a tree. -/
theorem Represents.core {V : View} {id : ObjectId} {t : NodeTree} (h : V.Represents id t) :
    ∃ core, V.core id = some core ∧ core.isInner := by
  cases t with
  | element tag attributes children => exact ⟨_, h.1, rfl⟩
  | leaf core =>
    refine ⟨core, h.1, ?_⟩
    cases core <;> first | rfl | exact absurd h.2 (by decide)

theorem RepresentsAll.inner {V : View} {ids : List ObjectId} {ts : List NodeTree}
    (h : V.RepresentsAll ids ts) : ∀ c ∈ ids, V.Inner c := by
  induction ts generalizing ids with
  | nil =>
    rw [representsAll_nil.1 h]
    intro c hc
    cases hc
  | cons t ts ih =>
    obtain ⟨id, rest, rfl, ht, hts⟩ := h
    intro c hc
    rcases List.mem_cons.1 hc with rfl | hc
    · exact ht.core
    · exact ih hts c hc

/-- What lies below a node that is no root is no root. -/
theorem Within.ne_root {V : View} {id x r : ObjectId} (h : V.Within id x)
    (hr : V.parent r = none) (hid : id ≠ r) : x ≠ r := by
  rintro rfl
  rcases h with rfl | ha
  · exact hid rfl
  · obtain ⟨y, hy, _⟩ := Relation.TransGen.head'_iff.1 ha
    rw [hr] at hy
    cases hy

/-- Every place represents one of the trees. -/
theorem RepresentsAll.of_mem {V : View} {ids : List ObjectId} {ts : List NodeTree}
    (h : V.RepresentsAll ids ts) {id : ObjectId} (hm : id ∈ ids) :
    ∃ t ∈ ts, V.Represents id t := by
  induction ts generalizing ids with
  | nil =>
    rw [representsAll_nil.1 h] at hm
    cases hm
  | cons t ts ih =>
    obtain ⟨first, rest, rfl, ht, hts⟩ := h
    rcases List.mem_cons.1 hm with rfl | hm
    · exact ⟨t, List.mem_cons_self, ht⟩
    · obtain ⟨u, hu, hr⟩ := ih hts hm
      exact ⟨u, List.mem_cons_of_mem t hu, hr⟩

/-- Putting a root among the children of another root keeps all trees outside of that one. -/
theorem RepresentsAll.insert_root {V : View} (hf : V.IsForest) {r : ObjectId}
    {ids nodes xs : List ObjectId} {ts : List NodeTree} (h : V.RepresentsAll xs ts)
    (hr : V.parent r = none) (hx : r ∉ xs) : (V.insert r ids nodes).RepresentsAll xs ts := by
  refine h.frame hf ts fun c hc x hw => ?_
  have hne : x ≠ r := hw.ne_root hr fun he => hx (he ▸ hc)
  refine ⟨rfl, ?_, rfl⟩
  rw [insert_children, if_neg hne]

theorem not_under_root {V : View} {nodes : List ObjectId} {r : ObjectId}
    (hr : V.parent r = none) (hm : r ∉ nodes) : ¬ V.Under nodes r := by
  rintro ⟨n, hn, h⟩
  exact Within.ne_root h hr (fun he => hm (he ▸ hn)) rfl

end View

end PageTemplate
