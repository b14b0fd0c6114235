import PageTemplate.Proofs.Tree.View

/-!
# PageTemplate.Proofs.Tree.Step

Changes to a view and the changes to the store that realize them. Records, arrays and maps are
different objects, so a change to one part of one node is a change to nothing else that is shown.
A tree step leaves everything alone that belongs to no node.
-/

namespace PageTemplate

namespace View

/-- The view with another parent of a node. -/
def setParent (V : View) (c : ObjectId) (p : Option ObjectId) : View :=
  { V with parent := fun id => if id = c then p else V.parent id }

/-- The view with another parent of some nodes. -/
def setParents (V : View) (cs : List ObjectId) (p : Option ObjectId) : View :=
  { V with parent := fun id => if id ∈ cs then p else V.parent id }

/-- The view with other children of a node. -/
def setChildren (V : View) (p : ObjectId) (ids : List ObjectId) : View :=
  { V with children := fun id => if id = p then ids else V.children id }

/-- The view with other attributes of an element. -/
def setAttributes (V : View) (e : ObjectId) (entries : Entries) : View :=
  { V with attributes := fun id => if id = e then entries else V.attributes id }

/-- The view with one more node, which has neither a parent nor children. -/
def add (V : View) (new : ObjectId) (core : NodeCore) (attributes : Entries) : View where
  core id := if id = new then some core else V.core id
  parent id := if id = new then none else V.parent id
  children id := if id = new then [] else V.children id
  attributes id := if id = new then attributes else V.attributes id

/-- The places that the nodes of a view take up. -/
def Place (V : View) (id : ObjectId) : Prop :=
  ∃ n core, V.core n = some core ∧ (id = n ∨ (core.hasChildren ∧ id = Tree.childrenOf n) ∨
    (core.hasAttributes ∧ id = Tree.attributesOf n))

theorem setParents_cons (V : View) (c : ObjectId) (cs : List ObjectId) (p : Option ObjectId) :
    (V.setParent c p).setParents cs p = V.setParents (c :: cs) p := by
  simp only [setParents, setParent, View.mk.injEq, true_and, and_true]
  funext id
  by_cases hc : id = c
  · simp [hc]
  · simp [hc]

theorem setChildren_self (V : View) (p : ObjectId) : V.setChildren p (V.children p) = V := by
  have : (fun id => if id = p then V.children p else V.children id) = V.children := by
    funext id
    split
    · rename_i h
      rw [h]
    · rfl
  rw [setChildren, this]

end View

/-- A tree step: from a store that shows a view to a store that shows another one. What is no part
of a node stays as it is, and what is new is part of a node. -/
structure TreeStep (w : World) (V : View) (w' : World) (V' : View) : Prop where
  shows : Shows w' V'
  size : w.cells.size ≤ w'.cells.size
  frame : ∀ id, id < w.cells.size → ¬ V.Place id → w'.cells[id]? = w.cells[id]?
  core : ∀ id, id < w.cells.size → V'.core id = V.core id
  fresh : ∀ id, w.cells.size ≤ id → id < w'.cells.size → V'.Place id
  rest : w'.scopes = w.scopes ∧ w'.log = w.log ∧ w'.warnings = w.warnings ∧ w'.joining = w.joining

namespace Shows

variable {w : World} {V : View}

theorem lt {id : ObjectId} {core : NodeCore} (h : Shows w V) (hc : V.core id = some core) :
    id < w.cells.size :=
  World.lt_of_getElem? (h.record id core hc)

/-- There is no node yet where the next object is going to be. -/
theorem core_size (h : Shows w V) : V.core w.cells.size = none := by
  cases hc : V.core w.cells.size with
  | none => rfl
  | some core => exact absurd (h.lt hc) (Nat.lt_irrefl _)

theorem setParent {c : ObjectId} {core : NodeCore} (h : Shows w V) (hc : V.core c = some core)
    (p : Option ObjectId) :
    Shows (w.setCell c (Tree.nodeCell c core p)) (V.setParent c p) := by
  have hrec := h.record c core hc
  constructor
  · intro id core' hid
    by_cases hne : id = c
    · subst hne
      cases hc.symm.trans hid
      simp [View.setParent, World.setCell_self _ (h.lt hc)]
    · rw [World.setCell_other _ hne]
      simpa [View.setParent, hne] using h.record id core' hid
  · intro id core' hid hh
    have hl := h.list id core' hid hh
    have hne : Tree.childrenOf id ≠ c := by
      intro he
      rw [he, hrec] at hl
      cases hl
    rw [World.setCell_other _ hne]
    exact hl
  · intro id core' hid hh
    have hm := h.map id core' hid hh
    have hne : Tree.attributesOf id ≠ c := by
      intro he
      rw [he, hrec] at hm
      cases hm
    rw [World.setCell_other _ hne]
    exact hm

theorem setChildren {p : ObjectId} {core : NodeCore} (h : Shows w V) (hp : V.core p = some core)
    (hh : core.hasChildren) (ids : List ObjectId) :
    Shows (w.setCell (Tree.childrenOf p) (Tree.listCell ids)) (V.setChildren p ids) := by
  have hlist := h.list p core hp hh
  constructor
  · intro id core' hid
    have hr := h.record id core' hid
    have hne : id ≠ Tree.childrenOf p := by
      intro he
      rw [he, hlist] at hr
      cases hr
    rw [World.setCell_other _ hne]
    exact hr
  · intro id core' hid hh'
    by_cases hne : id = p
    · subst hne
      rw [World.setCell_self _ (World.lt_of_getElem? hlist)]
      simp [View.setChildren]
    · have hne' : Tree.childrenOf id ≠ Tree.childrenOf p := by
        simpa [Tree.childrenOf] using hne
      rw [World.setCell_other _ hne']
      simpa [View.setChildren, hne] using h.list id core' hid hh'
  · intro id core' hid hh'
    have hm := h.map id core' hid hh'
    have hne : Tree.attributesOf id ≠ Tree.childrenOf p := by
      intro he
      rw [he, hlist] at hm
      cases hm
    rw [World.setCell_other _ hne]
    exact hm

theorem setAttributes {e : ObjectId} {core : NodeCore} (h : Shows w V) (he : V.core e = some core)
    (hh : core.hasAttributes) (entries : Entries) :
    Shows (w.setCell (Tree.attributesOf e) (.map entries)) (V.setAttributes e entries) := by
  have hmap := h.map e core he hh
  constructor
  · intro id core' hid
    have hr := h.record id core' hid
    have hne : id ≠ Tree.attributesOf e := by
      intro he
      rw [he, hmap] at hr
      cases hr
    rw [World.setCell_other _ hne]
    exact hr
  · intro id core' hid hh'
    have hl := h.list id core' hid hh'
    have hne : Tree.childrenOf id ≠ Tree.attributesOf e := by
      intro he
      rw [he, hmap] at hl
      cases hl
    rw [World.setCell_other _ hne]
    exact hl
  · intro id core' hid hh'
    by_cases hne : id = e
    · subst hne
      rw [World.setCell_self _ (World.lt_of_getElem? hmap)]
      simp [View.setAttributes]
    · have hne' : Tree.attributesOf id ≠ Tree.attributesOf e := by
        simpa [Tree.attributesOf] using hne
      rw [World.setCell_other _ hne']
      simpa [View.setAttributes, hne] using h.map id core' hid hh'

/-- The places of nodes are places of the store. -/
theorem place_lt {id : ObjectId} (h : Shows w V) (hp : V.Place id) : id < w.cells.size := by
  obtain ⟨n, core, hc, rfl | ⟨hh, rfl⟩ | ⟨hh, rfl⟩⟩ := hp
  · exact h.lt hc
  · exact World.lt_of_getElem? (h.list n core hc hh)
  · exact World.lt_of_getElem? (h.map n core hc hh)

/-- As long as the places of the nodes stay as they are, so does the view. -/
theorem of_places {w' : World} (h : Shows w V)
    (ho : ∀ id, V.Place id → w'.cells[id]? = w.cells[id]?) : Shows w' V := by
  constructor
  · intro id core hid
    rw [ho id ⟨id, core, hid, .inl rfl⟩]
    exact h.record id core hid
  · intro id core hid hh
    rw [ho _ ⟨id, core, hid, .inr (.inl ⟨hh, rfl⟩)⟩]
    exact h.list id core hid hh
  · intro id core hid hh
    rw [ho _ ⟨id, core, hid, .inr (.inr ⟨hh, rfl⟩)⟩]
    exact h.map id core hid hh

/-- As long as the objects stay as they are, so does the view. -/
theorem of_old {w' : World} (h : Shows w V)
    (ho : ∀ id, id < w.cells.size → w'.cells[id]? = w.cells[id]?) : Shows w' V :=
  h.of_places fun id hp => ho id (h.place_lt hp)

/-- Whatever is added to the store, the view stays. -/
theorem allocAll (h : Shows w V) (cells : List Cell) : Shows (w.allocAll cells) V :=
  h.of_old fun _ hlt => World.allocAll_old cells hlt

theorem add (h : Shows w V) (core : NodeCore) (attributes : Entries) :
    Shows (w.allocAll (Tree.nodeCells core attributes w.cells.size))
      (V.add w.cells.size core attributes) := by
  have hold := h.allocAll (Tree.nodeCells core attributes w.cells.size)
  have hnew := World.allocAll_new w (Tree.nodeCells core attributes w.cells.size)
  constructor
  · intro id core' hid
    by_cases hne : id = w.cells.size
    · subst hne
      simp only [View.add, if_true, Option.some.injEq] at hid
      subst hid
      simpa [Tree.nodeCells, View.add] using hnew 0
    · simp only [View.add, hne, if_false] at hid ⊢
      exact hold.record id core' hid
  · intro id core' hid hh
    by_cases hne : id = w.cells.size
    · subst hne
      simp only [View.add, if_true, Option.some.injEq] at hid
      subst hid
      simpa [Tree.nodeCells, View.add, hh, Tree.childrenOf] using hnew 1
    · simp only [View.add, hne, if_false] at hid ⊢
      exact hold.list id core' hid hh
  · intro id core' hid hh
    by_cases hne : id = w.cells.size
    · subst hne
      simp only [View.add, if_true, Option.some.injEq] at hid
      subst hid
      have hc : core.hasChildren := by
        cases core <;> first | rfl | cases hh
      simpa [Tree.nodeCells, View.add, hh, hc, Tree.attributesOf] using hnew 2
    · simp only [View.add, hne, if_false] at hid ⊢
      exact hold.map id core' hid hh

end Shows

namespace TreeStep

variable {w w' w'' : World} {V V' V'' : View}

theorem refl (h : Shows w V) : TreeStep w V w V where
  shows := h
  size := Nat.le_refl _
  frame _ _ _ := rfl
  core _ _ := rfl
  fresh _ h1 h2 := absurd h2 (Nat.not_lt.2 h1)
  rest := ⟨rfl, rfl, rfl, rfl⟩

/-- A place that is old and belongs to a node afterwards belonged to one before. -/
theorem place_old {id : ObjectId} (h : TreeStep w V w' V') (hlt : id < w.cells.size)
    (hp : V'.Place id) : V.Place id := by
  obtain ⟨n, core, hc, ho⟩ := hp
  have hn : n < w.cells.size := by
    rcases ho with rfl | ⟨_, rfl⟩ | ⟨_, rfl⟩
    · exact hlt
    · exact Nat.lt_of_succ_lt hlt
    · exact Nat.lt_of_succ_lt (Nat.lt_of_succ_lt hlt)
  exact ⟨n, core, (h.core n hn) ▸ hc, ho⟩

/-- A place that belongs to a node keeps belonging to it. -/
theorem place_keep {id : ObjectId} (h : TreeStep w V w' V') (hs : Shows w V) (hp : V.Place id) :
    V'.Place id := by
  obtain ⟨n, core, hc, ho⟩ := hp
  exact ⟨n, core, (h.core n (hs.lt hc)).trans hc, ho⟩

theorem trans (h : TreeStep w V w' V') (h' : TreeStep w' V' w'' V'') :
    TreeStep w V w'' V'' where
  shows := h'.shows
  size := Nat.le_trans h.size h'.size
  frame id hlt hp := by
    have hp' : ¬ V'.Place id := fun hp' => hp (h.place_old hlt hp')
    rw [h'.frame id (Nat.lt_of_lt_of_le hlt h.size) hp', h.frame id hlt hp]
  core id hlt := by rw [h'.core id (Nat.lt_of_lt_of_le hlt h.size), h.core id hlt]
  fresh id h1 h2 := by
    by_cases hlt : id < w'.cells.size
    · exact h'.place_keep h.shows (h.fresh id h1 hlt)
    · exact h'.fresh id (Nat.not_lt.1 hlt) h2
  rest := by
    obtain ⟨a, b, c, d⟩ := h.rest
    obtain ⟨a', b', c', d'⟩ := h'.rest
    exact ⟨a'.trans a, b'.trans b, c'.trans c, d'.trans d⟩

/-- A change to an object that belongs to a node. -/
theorem of_setCell {id : ObjectId} {c : Cell} (hp : V.Place id) (hcore : V'.core = V.core)
    (h' : Shows (w.setCell id c) V') : TreeStep w V (w.setCell id c) V' where
  shows := h'
  size := by simp
  frame other _ hn := World.setCell_other c fun he => hn (he ▸ hp)
  core other _ := by rw [hcore]
  fresh other h1 h2 := absurd h2 (by rw [World.size_setCell]; exact Nat.not_lt.2 h1)
  rest := ⟨rfl, rfl, rfl, rfl⟩

theorem setParent {c : ObjectId} {core : NodeCore} (h : Shows w V) (hc : V.core c = some core)
    (p : Option ObjectId) :
    TreeStep w V (w.setCell c (Tree.nodeCell c core p)) (V.setParent c p) :=
  of_setCell ⟨c, core, hc, .inl rfl⟩ rfl (h.setParent hc p)

theorem setChildren {p : ObjectId} {core : NodeCore} (h : Shows w V) (hp : V.core p = some core)
    (hh : core.hasChildren) (ids : List ObjectId) :
    TreeStep w V (w.setCell (Tree.childrenOf p) (Tree.listCell ids)) (V.setChildren p ids) :=
  of_setCell ⟨p, core, hp, .inr (.inl ⟨hh, rfl⟩)⟩ rfl (h.setChildren hp hh ids)

theorem setAttributes {e : ObjectId} {core : NodeCore} (h : Shows w V) (he : V.core e = some core)
    (hh : core.hasAttributes) (entries : Entries) :
    TreeStep w V (w.setCell (Tree.attributesOf e) (.map entries)) (V.setAttributes e entries) :=
  of_setCell ⟨e, core, he, .inr (.inr ⟨hh, rfl⟩)⟩ rfl (h.setAttributes he hh entries)

theorem lt_length_nodeCells {core : NodeCore} {attributes : Entries}
    {id : ObjectId} {k : Nat} (h : k < (Tree.nodeCells core attributes id).length) :
    k = 0 ∨ (core.hasChildren ∧ k = 1) ∨ (core.hasAttributes ∧ k = 2) := by
  cases core
  all_goals
    simp [Tree.nodeCells, NodeCore.hasChildren, NodeCore.hasAttributes] at h ⊢
    omega

theorem add (h : Shows w V) (core : NodeCore) (attributes : Entries) :
    TreeStep w V (w.allocAll (Tree.nodeCells core attributes w.cells.size))
      (V.add w.cells.size core attributes) where
  shows := h.add core attributes
  size := by rw [World.size_allocAll]; omega
  frame id hlt _ := World.allocAll_old _ hlt
  core id hlt := by simp [View.add, Nat.ne_of_lt hlt]
  fresh id h1 h2 := by
    obtain ⟨k, rfl⟩ := Nat.exists_eq_add_of_le h1
    rw [World.size_allocAll] at h2
    refine ⟨w.cells.size, core, by simp [View.add], ?_⟩
    rcases lt_length_nodeCells (Nat.lt_of_add_lt_add_left h2) with rfl | ⟨hh, rfl⟩ | ⟨hh, rfl⟩
    · exact .inl rfl
    · exact .inr (.inl ⟨hh, rfl⟩)
    · exact .inr (.inr ⟨hh, rfl⟩)
  rest := ⟨rfl, rfl, rfl, rfl⟩

end TreeStep

end PageTemplate
