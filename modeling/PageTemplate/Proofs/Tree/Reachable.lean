import PageTemplate.Proofs.Tree.Takeover

/-!
# PageTemplate.Proofs.Tree.Reachable

The trees that a sequence of operations can lead to. The operations are those by which nodes are
created, inserted, moved, taken out and copied; they are applied to nodes of the kinds that they are
declared for, and no node is inserted below itself. What is said of a store here is what asking its
nodes answers: their kinds, their parents and their children.

Calls can fail. Of the operations that move nodes, appending refuses to put a node into itself, and
replacing and stripping refuse a node without a parent; nothing else fails. What appending and
replacing refuse leaves the store as it was. Stripping comes to ask for the parent last, and an
element without one has lost its children by then.
-/

namespace PageTemplate

/-- An operation on trees, applied to nodes of the store. -/
inductive Operation where
  | createElement (tag : Text) (attributes : Markup.Attributes)
  | createText (value : Text) (raw : Bool)
  | createCode (source : Text)
  | createComment (value : Text)
  | createDoctype (value : Text)
  | createFragment (nodes : List ObjectId)
  | createDocument (nodes : List ObjectId)
  | append (p v : ObjectId)
  | prepend (p v : ObjectId)
  | replaceWith (old replacement : ObjectId)
  | remove (v : ObjectId)
  | stealChildren (target source : ObjectId)
  | stripOut (element : ObjectId)
  | removeChildren (p : ObjectId)
  | clone (v : ObjectId)
  | setTextContent (element : ObjectId) (value : Text)

def Operation.run : Operation → M Unit
  | .createElement tag attributes => discard (Tree.createElement tag attributes)
  | .createText value raw => discard (Tree.createText value raw)
  | .createCode source => discard (Tree.create (.code source))
  | .createComment value => discard (Tree.create (.comment value))
  | .createDoctype value => discard (Tree.create (.doctype value))
  | .createFragment nodes => discard (Tree.createFragment (nodes.map .object))
  | .createDocument nodes => discard (Tree.createDocument (nodes.map .object))
  | .append p v => Tree.append (.object p) (.object v)
  | .prepend p v => Tree.prepend (.object p) (.object v)
  | .replaceWith old replacement => Tree.replaceWith (.object old) (.object replacement)
  | .remove v => Tree.remove (.object v)
  | .stealChildren target source => Tree.stealChildren (.object target) (.object source)
  | .stripOut element => Tree.stripOut (.object element)
  | .removeChildren p => Tree.removeChildren (.object p)
  | .clone v => discard (Tree.clone (.object v))
  | .setTextContent element value => Tree.setTextContent (.object element) (.text value)

namespace NodeKind

/-- The kinds of nodes that have children. -/
def isContainer : NodeKind → Bool
  | .element | .fragment | .document => true
  | _ => false

/-- The kinds of nodes that have a place among the children of others. -/
def isInner : NodeKind → Bool
  | .fragment | .document => false
  | _ => true

end NodeKind

theorem NodeCore.isInner_kind (core : NodeCore) : core.kind.isInner = core.isInner := by
  cases core <;> rfl

theorem NodeCore.isContainer_kind (core : NodeCore) :
    core.kind.isContainer = core.hasChildren := by
  cases core <;> rfl

section

variable (env : Env) (base : Nat) (w : World)

/-- Whether there is a node of a kind at a place that was not taken at the start. -/
def IsNode (k : NodeKind) (id : ObjectId) : Prop :=
  base ≤ id ∧ M.run' env w (Tree.kind? (.object id)) = (.ok (some k), w)

/-- Whether a node names another one as its parent. -/
def HasParent (c p : ObjectId) : Prop :=
  M.run' env w (Tree.parent (.object c)) = (.ok (.object p), w)

/-- Whether a node lists certain children. -/
def HasChildren (p : ObjectId) (cs : List ObjectId) : Prop :=
  M.run' env w (Tree.children (.object p)) = (.ok (cs.map .object), w)

/-- Whether a node is found by following parents from another one. -/
def Ancestor (a c : ObjectId) : Prop := Relation.TransGen (HasParent env w) c a

/-- Whether a node moves when another one is inserted: the node itself, and the children of a
fragment. -/
def Moves (v n : ObjectId) : Prop :=
  n = v ∨ IsNode env base w .fragment v ∧ ∃ cs, HasChildren env w v cs ∧ n ∈ cs

/-- Whether a node is neither a certain place nor above it. -/
def IsFree (p n : ObjectId) : Prop := n ≠ p ∧ ¬ Ancestor env w n p

def IsContainerNode (p : ObjectId) : Prop := ∃ k, IsNode env base w k p ∧ k.isContainer

def IsInnerNode (v : ObjectId) : Prop := ∃ k, IsNode env base w k v ∧ k.isInner

/-- Whether an operation is applied to nodes of the kinds that it is declared for and puts no node
below itself. -/
def Operation.Legal : Operation → Prop
  | .createElement .. | .createText .. | .createCode _ | .createComment _ | .createDoctype _ => True
  | .createFragment nodes | .createDocument nodes => ∀ n ∈ nodes, IsInnerNode env base w n
  | .append p v | .prepend p v =>
    IsContainerNode env base w p ∧ (∃ k, IsNode env base w k v ∧ k ≠ .document) ∧
      ∀ n, Moves env base w v n → IsFree env w p n
  | .replaceWith old v =>
    IsInnerNode env base w old ∧ (∃ k, IsNode env base w k v ∧ k ≠ .document) ∧
      ∀ p, HasParent env w old p → ∀ n, Moves env base w v n → IsFree env w p n
  | .stealChildren target source =>
    IsContainerNode env base w target ∧ IsContainerNode env base w source ∧
      ∀ cs, HasChildren env w source cs → ∀ n ∈ cs, IsFree env w target n
  | .stripOut e | .setTextContent e _ => IsNode env base w .element e
  | .removeChildren p => IsContainerNode env base w p
  | .remove v | .clone v => IsInnerNode env base w v

/-- What holds of the nodes of a store at all times. Nodes that can have children list nodes as
children, each once; a node is listed exactly where it says that it belongs, so in one place at
most; fragments and documents belong nowhere; and going up never leads back. -/
structure TreeInvariant : Prop where
  lists : ∀ p, IsContainerNode env base w p →
    ∃ cs, HasChildren env w p cs ∧ cs.Nodup ∧ ∀ c ∈ cs, IsInnerNode env base w c
  mem_iff : ∀ k p cs k' c, IsNode env base w k p → HasChildren env w p cs →
    IsNode env base w k' c → (c ∈ cs ↔ HasParent env w c p)
  parents : ∀ k c, IsNode env base w k c →
    M.run' env w (Tree.parent (.object c)) = (.ok .null, w) ∨
      ∃ p, HasParent env w c p ∧ IsContainerNode env base w p
  single : ∀ k p cs k' q ds c, IsNode env base w k p → HasChildren env w p cs →
    IsNode env base w k' q → HasChildren env w q ds → c ∈ cs → c ∈ ds → p = q
  roots : ∀ k r, IsNode env base w k r → k.isInner = false →
    M.run' env w (Tree.parent (.object r)) = (.ok .null, w)
  acyclic : ∀ k c, IsNode env base w k c → ¬ Ancestor env w c c

end

/-- The stores that legal operations lead to from a store in which the places before `base` are
taken. An operation that fails leads somewhere, too. -/
inductive Reachable (env : Env) (base : Nat) : World → Prop where
  | start (w : World) (h : w.cells.size = base) : Reachable env base w
  | step {w : World} (operation : Operation) (h : Reachable env base w)
      (legal : operation.Legal env base w) : Reachable env base (M.run' env w operation.run).2

namespace Tree

variable {env : Env} {w : World} {id : ObjectId}

/-! What is no node does not pass for one. -/

theorem run'_kind_none
    (h : M.run' env w (Property.search? (.object id) (Text.ofString "nodeType")) = (.ok none, w)) :
    M.run' env w (kind? (.object id)) = (.ok none, w) := by
  rw [kind?, M.run'_bind_ok (Property.run'_get_none h rfl)]
  rfl

theorem run'_kind_listCell {ids : List ObjectId} (h : w.cells[id]? = some (listCell ids)) :
    M.run' env w (kind? (.object id)) = (.ok none, w) := by
  have hc := World.cell_of_getElem? h
  refine run'_kind_none (Property.run'_search_shared (f := .array) ?_ ?_)
  · simp only [Property.own?, Property.ownOf?, M.run'_bind, Store.run'_cell, hc, listCell]
    rfl
  · simp only [Property.ancestry, Property.ancestryOf, M.run'_bind, Store.run'_cell, hc, listCell]
    rfl

theorem run'_kind_map {entries : Entries} (h : w.cells[id]? = some (.map entries)) :
    M.run' env w (kind? (.object id)) = (.ok none, w) :=
  run'_kind_none (Property.run'_search_map (World.cell_of_getElem? h) _)

theorem run'_kind_missing (h : w.cells.size ≤ id) :
    M.run' env w (kind? (.object id)) = (.ok none, w) := by
  have hc : w.cell id = .record .none [] := by
    simp [World.cell, Array.getD, Nat.not_lt.2 h]
    rfl
  exact run'_kind_none (Property.run'_search_plain .none hc _)

/-- A leaf has no children to list. -/
theorem run'_children_leaf {core : NodeCore} {parent : Option ObjectId}
    (h : w.cells[id]? = some (nodeCell id core parent)) (hl : core.hasChildren = false) :
    M.run' env w (children (.object id)) = (.error (.library .typeError), w) := by
  have hc : w.cell id = .record .object (nodeProperties id core parent) :=
    World.cell_of_getElem? h
  have hn : Assoc.find? (Text.ofString "childNodes") (nodeProperties id core parent) = none := by
    cases core <;> first | rfl | cases hl
  have hs : M.run' env w (Property.search? (.object id) (Text.ofString "childNodes")) =
      (.ok none, w) := by
    rw [Property.run'_search_plain .object hc, Properties.member?, hn]
    rfl
  rw [children, M.run'_bind_error]
  rw [childList, M.run'_bind_ok (Property.run'_get_none hs rfl)]
  rfl

end Tree

/-- What passes for a node of a kind where a node of a view takes up places is one. -/
theorem Shows.node_of_place {env : Env} {base : Nat} {w : World} {V : View} (h : Shows w V)
    {id : ObjectId} (hp : V.Place id) {k : NodeKind} (hk : IsNode env base w k id) :
    ∃ core, V.core id = some core ∧ core.kind = k := by
  obtain ⟨_, hk⟩ := hk
  obtain ⟨n, core, hc, rfl | ⟨hh, rfl⟩ | ⟨hh, rfl⟩⟩ := hp
  · rw [Tree.run'_kind (h.record id core hc)] at hk
    exact ⟨core, hc, by simpa using hk⟩
  · rw [Tree.run'_kind_listCell (h.list n core hc hh)] at hk
    cases hk
  · rw [Tree.run'_kind_map (h.map n core hc hh)] at hk
    cases hk

/-- A view of everything in the store from a place on. -/
structure Tracks (base : Nat) (w : World) (V : View) : Prop where
  shows : Shows w V
  regular : V.IsRegular
  le : base ≤ w.cells.size
  old : ∀ id core, V.core id = some core → base ≤ id
  places : ∀ id, base ≤ id → id < w.cells.size → V.Place id

namespace Tracks

variable {env : Env} {base : Nat} {w : World} {V : View}

theorem start (w : World) : Tracks w.cells.size w View.empty where
  shows := View.shows_empty w
  regular := View.isRegular_empty
  le := Nat.le_refl _
  old _ _ h := by cases h
  places _ h h' := absurd h' (Nat.not_lt.2 h)

theorem step {w' : World} {V' : View} (h : Tracks base w V) (hs : TreeStep w V w' V')
    (hg : V'.IsRegular) : Tracks base w' V' where
  shows := hs.shows
  regular := hg
  le := Nat.le_trans h.le hs.size
  old id core hc := by
    by_cases hlt : id < w.cells.size
    · exact h.old id core ((hs.core id hlt) ▸ hc)
    · exact Nat.le_trans h.le (Nat.not_lt.1 hlt)
  places id hb hlt := by
    by_cases hold : id < w.cells.size
    · exact hs.place_keep h.shows (h.places id hb hold)
    · exact hs.fresh id (Nat.not_lt.1 hold) hlt

/-! What the nodes of a view answer is what the view says. -/

theorem isNode_iff (h : Tracks base w V) {k : NodeKind} {id : ObjectId} :
    IsNode env base w k id ↔ ∃ core, V.core id = some core ∧ core.kind = k := by
  constructor
  · intro hk
    refine h.shows.node_of_place (h.places id hk.1 (Nat.lt_of_not_le fun hle => ?_)) hk
    rw [IsNode, Tree.run'_kind_missing hle] at hk
    cases hk.2
  · rintro ⟨core, hc, rfl⟩
    exact ⟨h.old id core hc, Tree.run'_kind (h.shows.record id core hc)⟩

theorem parent_eq (h : Tracks base w V) {c : ObjectId} {core : NodeCore} (hc : V.core c = some core) :
    M.run' env w (Tree.parent (.object c)) = (.ok (Tree.parentValue (V.parent c)), w) :=
  Tree.run'_parent (h.shows.record c core hc)

theorem hasParent_iff (h : Tracks base w V) {c p : ObjectId} {core : NodeCore}
    (hc : V.core c = some core) : HasParent env w c p ↔ V.parent c = some p := by
  rw [HasParent, h.parent_eq hc]
  cases V.parent c <;> simp [Tree.parentValue]

theorem children_eq (h : Tracks base w V) {p : ObjectId} {core : NodeCore}
    (hp : V.core p = some core) (hh : core.hasChildren) :
    HasChildren env w p (V.children p) :=
  Tree.run'_children h.shows hp hh

/-- A node that answers with children is one that can have some. -/
theorem children_eq_of_answer (h : Tracks base w V) {p : ObjectId} {core : NodeCore}
    (hp : V.core p = some core) {cs : List ObjectId} (hcs : HasChildren env w p cs) :
    core.hasChildren ∧ cs = V.children p := by
  by_cases hh : core.hasChildren
  · have hch : HasChildren env w p _ := h.children_eq hp hh
    rw [HasChildren, hch] at hcs
    simp only [Prod.mk.injEq, Except.ok.injEq, and_true] at hcs
    exact ⟨hh, (List.map_injective_iff.2 (fun _ _ => Value.object.inj) hcs).symm⟩
  · rw [HasChildren, Tree.run'_children_leaf (h.shows.record p core hp) (by simpa using hh)] at hcs
    cases hcs

theorem ancestor_iff (h : Tracks base w V) {a c : ObjectId} {core : NodeCore}
    (hc : V.core c = some core) : Ancestor env w a c ↔ V.Above a c := by
  constructor
  · intro ha
    induction ha using Relation.TransGen.head_induction_on generalizing core with
    | single hp => exact .single ((h.hasParent_iff hc).1 hp)
    | head hp _ ih =>
      have hp := (h.hasParent_iff hc).1 hp
      obtain ⟨pcore, hpc, _⟩ := h.regular.container _ _ hp
      exact .head hp (ih hpc)
  · intro ha
    induction ha using Relation.TransGen.head_induction_on generalizing core with
    | single hp => exact .single ((h.hasParent_iff hc).2 hp)
    | head hp _ ih =>
      obtain ⟨pcore, hpc, _⟩ := h.regular.container _ _ hp
      exact .head ((h.hasParent_iff hc).2 hp) (ih hpc)

theorem isContainerNode_iff (h : Tracks base w V) {p : ObjectId} :
    IsContainerNode env base w p ↔ V.Container p := by
  constructor
  · rintro ⟨k, hk, hh⟩
    obtain ⟨core, hc, rfl⟩ := h.isNode_iff.1 hk
    exact ⟨core, hc, core.isContainer_kind.symm.trans hh⟩
  · rintro ⟨core, hc, hh⟩
    exact ⟨core.kind, h.isNode_iff.2 ⟨core, hc, rfl⟩, core.isContainer_kind.trans hh⟩

theorem isInnerNode_iff (h : Tracks base w V) {v : ObjectId} :
    IsInnerNode env base w v ↔ V.Inner v := by
  constructor
  · rintro ⟨k, hk, hi⟩
    obtain ⟨core, hc, rfl⟩ := h.isNode_iff.1 hk
    exact ⟨core, hc, core.isInner_kind.symm.trans hi⟩
  · rintro ⟨core, hc, hi⟩
    exact ⟨core.kind, h.isNode_iff.2 ⟨core, hc, rfl⟩, core.isInner_kind.trans hi⟩

theorem insertable (h : Tracks base w V) {v : ObjectId}
    (hv : ∃ k, IsNode env base w k v ∧ k ≠ .document) : V.Insertable v := by
  obtain ⟨k, hk, hd⟩ := hv
  obtain ⟨core, hc, rfl⟩ := h.isNode_iff.1 hk
  cases core with
  | fragment => exact .inl hc
  | document => exact absurd rfl hd
  | _ => exact .inr ⟨_, hc, rfl⟩

/-- What is inserted with a node moves with it. -/
theorem moves_of_inserted (h : Tracks base w V) {v n : ObjectId} (hn : n ∈ V.inserted v) :
    Moves env base w v n := by
  simp only [View.inserted] at hn
  split at hn
  · rename_i hf
    exact .inr ⟨h.isNode_iff.2 ⟨_, hf, rfl⟩, _, h.children_eq hf rfl, hn⟩
  · exact .inl (List.mem_singleton.1 hn)

/-- Where nodes are free to go, none of them lies above. -/
theorem not_under (h : Tracks base w V) {p : ObjectId} {core : NodeCore} (hp : V.core p = some core)
    {nodes : List ObjectId} (hn : ∀ n ∈ nodes, IsFree env w p n) : ¬ V.Under nodes p := by
  rintro ⟨n, hm, rfl | ha⟩
  · exact (hn p hm).1 rfl
  · exact (hn n hm).2 ((h.ancestor_iff hp).2 ha)

/-- The nodes of a view that tracks a store keep the invariant. -/
theorem invariant (h : Tracks base w V) : TreeInvariant env base w where
  lists p hp := by
    obtain ⟨core, hc, hh⟩ := h.isContainerNode_iff.1 hp
    refine ⟨V.children p, h.children_eq hc hh, h.regular.nodup p, fun c hm => ?_⟩
    exact h.isInnerNode_iff.2 (h.regular.inner c p ((h.regular.mem_children p c).1 hm))
  mem_iff k p cs k' c hp hcs hc := by
    obtain ⟨pcore, hpc, rfl⟩ := h.isNode_iff.1 hp
    obtain ⟨ccore, hcc, rfl⟩ := h.isNode_iff.1 hc
    rw [h.hasParent_iff hcc, (h.children_eq_of_answer hpc hcs).2]
    exact h.regular.mem_children p c
  parents k c hk := by
    obtain ⟨core, hc, rfl⟩ := h.isNode_iff.1 hk
    have hp : M.run' env w (Tree.parent (.object c)) = _ := h.parent_eq hc
    cases hpar : V.parent c with
    | none =>
      rw [hpar] at hp
      exact .inl hp
    | some p =>
      rw [hpar] at hp
      exact .inr ⟨p, hp, h.isContainerNode_iff.2 (h.regular.container c p hpar)⟩
  single k p cs k' q ds c hp hcs hq hds hc hd := by
    obtain ⟨pcore, hpc, rfl⟩ := h.isNode_iff.1 hp
    obtain ⟨qcore, hqc, rfl⟩ := h.isNode_iff.1 hq
    rw [(h.children_eq_of_answer hpc hcs).2, h.regular.mem_children] at hc
    rw [(h.children_eq_of_answer hqc hds).2, h.regular.mem_children, hc] at hd
    exact Option.some.inj hd
  roots k r hk hi := by
    obtain ⟨core, hc, rfl⟩ := h.isNode_iff.1 hk
    have hp : M.run' env w (Tree.parent (.object r)) = _ := h.parent_eq hc
    cases hpar : V.parent r with
    | none =>
      rw [hpar] at hp
      exact hp
    | some p =>
      obtain ⟨rcore, hr, hin⟩ := h.regular.inner r p hpar
      cases hc.symm.trans hr
      rw [NodeCore.isInner_kind, hin] at hi
      cases hi
  acyclic k c hk ha := by
    obtain ⟨core, hc, rfl⟩ := h.isNode_iff.1 hk
    exact h.regular.acyclic c ((h.ancestor_iff hc).1 ha)

end Tracks

namespace Operation

variable {env : Env} {base : Nat} {w : World} {V : View}

/-- An operation leads from a regular forest to a regular forest. -/
theorem leads_run (h : Tracks base w V) {operation : Operation}
    (legal : operation.Legal env base w) : Leads env w V operation.run fun _ _ => True := by
  have hs := h.shows
  have hg := h.regular
  have hdone : ∀ {α : Type} {Q : α → View → Prop} {action : M α}, Leads env w V action Q →
      Leads env w V (discard action) fun _ _ => True := fun hl =>
    Leads.bind hl fun _ _ _ hs' hg' _ => .of_does (.pure hs'.shows ()) hg' trivial
  cases operation with
  | createElement tag attributes =>
    exact hdone (Tree.leads_add hs hg fun _ ht => ⟨_, (NodeCore.element.inj ht).symm⟩)
  | createText value raw => exact hdone (Tree.leads_add hs hg (by simp))
  | createCode source => exact hdone (Tree.leads_add hs hg (by simp))
  | createComment value => exact hdone (Tree.leads_add hs hg (by simp))
  | createDoctype value => exact hdone (Tree.leads_add hs hg (by simp))
  | createFragment nodes =>
    exact hdone (Tree.leads_createAround hs hg (by simp) rfl fun n hn =>
      h.isInnerNode_iff.1 (legal n hn))
  | createDocument nodes =>
    exact hdone (Tree.leads_createAround hs hg (by simp) rfl fun n hn =>
      h.isInnerNode_iff.1 (legal n hn))
  | append p v =>
    obtain ⟨hp, hv, hfree⟩ := legal
    obtain ⟨pcore, hpc, hh⟩ := h.isContainerNode_iff.1 hp
    have hu := h.not_under hpc fun n hn => hfree n (h.moves_of_inserted hn)
    exact (Tree.leads_append hs hg ⟨pcore, hpc, hh⟩ (h.insertable hv) hu).imp fun _ _ _ => trivial
  | prepend p v =>
    obtain ⟨hp, hv, hfree⟩ := legal
    obtain ⟨pcore, hpc, hh⟩ := h.isContainerNode_iff.1 hp
    have hu := h.not_under hpc fun n hn => hfree n (h.moves_of_inserted hn)
    exact (Tree.leads_prepend hs hg ⟨pcore, hpc, hh⟩ (h.insertable hv) hu).imp fun _ _ _ => trivial
  | replaceWith old v =>
    obtain ⟨hold, hv, hfree⟩ := legal
    obtain ⟨ocore, hoc, _⟩ := h.isInnerNode_iff.1 hold
    refine (Tree.leads_replaceWith hs hg hoc (h.insertable hv) fun p hp => ?_).imp
      fun _ _ _ => trivial
    have hpar : HasParent env w old p := (h.hasParent_iff hoc).2 hp
    obtain ⟨pcore, hpc, _⟩ := hg.container old p hp
    exact ⟨(hfree p hpar v (.inl rfl)).1,
      h.not_under hpc fun n hn => hfree p hpar n (h.moves_of_inserted hn)⟩
  | remove v =>
    obtain ⟨core, hc, _⟩ := h.isInnerNode_iff.1 legal
    exact (Tree.leads_remove hs hg hc).imp fun _ _ _ => trivial
  | stealChildren target source =>
    obtain ⟨ht, hsrc, hfree⟩ := legal
    obtain ⟨tcore, htc, hth⟩ := h.isContainerNode_iff.1 ht
    obtain ⟨score, hsc, hsh⟩ := h.isContainerNode_iff.1 hsrc
    have hu := h.not_under htc (hfree _ (h.children_eq hsc hsh))
    exact (Tree.leads_stealChildren hs hg ⟨tcore, htc, hth⟩ ⟨score, hsc, hsh⟩ hu).imp
      fun _ _ _ => trivial
  | stripOut e =>
    obtain ⟨core, hc, hk⟩ := h.isNode_iff.1 legal
    cases core with
    | element tag => exact (Tree.leads_stripOut hs hg hc).imp fun _ _ _ => trivial
    | _ => cases hk
  | removeChildren p =>
    exact (Tree.leads_removeChildren hs hg (h.isContainerNode_iff.1 legal)).imp
      fun _ _ _ => trivial
  | clone v => exact hdone (Tree.leads_clone hs hg (h.isInnerNode_iff.1 legal))
  | setTextContent e value =>
    obtain ⟨core, hc, hk⟩ := h.isNode_iff.1 legal
    cases core with
    | element tag => exact Tree.leads_setTextContent hs hg hc _
    | _ => cases hk

end Operation

namespace Reachable

variable {env : Env} {base : Nat} {w : World}

/-- What a run keeps: there is a view of all nodes, and it is a forest. -/
theorem tracks (h : Reachable env base w) : ∃ V, Tracks base w V := by
  induction h with
  | start w h =>
    subst h
    exact ⟨View.empty, .start w⟩
  | step operation _ legal ih =>
    obtain ⟨V, hV⟩ := ih
    obtain ⟨V', hs, hg, _⟩ := Operation.leads_run hV legal
    exact ⟨V', hV.step hs hg⟩

/-- In whatever order operations are applied, parents and child lists go on saying the same, every
child is listed once, fragments and documents have no parents, and no node is above itself. -/
theorem treeInvariant (h : Reachable env base w) : TreeInvariant env base w := by
  obtain ⟨V, hV⟩ := h.tracks
  exact hV.invariant

/-- An element and a text, apart from each other. -/
def apart : World :=
  (M.run' Env.silent (M.run' Env.silent World.blank (Operation.createElement "p" []).run).2
    (Operation.createText "a" false).run).2

theorem reachable_apart : Reachable Env.silent 0 apart :=
  .step _ (.step _ (.start World.blank rfl) trivial) trivial

theorem legal_append : (Operation.append 0 3).Legal Env.silent 0 apart := by
  have hp : M.run' Env.silent apart (Tree.kind? (.object 0)) = (.ok (some .element), apart) :=
    Tree.run'_kind (show _ = some (Tree.nodeCell 0 (.element (.text "p")) none) from rfl)
  have hv : M.run' Env.silent apart (Tree.kind? (.object 3)) = (.ok (some .text), apart) :=
    Tree.run'_kind (show _ = some (Tree.nodeCell 3 (.text (.text "a") (.bool false)) none) from rfl)
  have hroot : M.run' Env.silent apart (Tree.parent (.object 0)) = (.ok .null, apart) :=
    Tree.run'_parent (show _ = some (Tree.nodeCell 0 (.element (.text "p")) none) from rfl)
  refine ⟨⟨_, ⟨Nat.le_refl 0, hp⟩, rfl⟩, ⟨_, ⟨Nat.zero_le 3, hv⟩, by decide⟩, ?_⟩
  rintro n (rfl | ⟨⟨_, hk⟩, _⟩)
  · refine ⟨by decide, fun ha => ?_⟩
    obtain ⟨y, hy, _⟩ := Relation.TransGen.head'_iff.1 ha
    rw [HasParent, hroot] at hy
    cases hy
  · rw [hv] at hk
    cases hk

/-- The invariant holds after a text was appended to an element. -/
theorem treeInvariant_append :
    Reachable Env.silent 0 (M.run' Env.silent apart (Operation.append 0 3).run).2 ∧
      TreeInvariant Env.silent 0 (M.run' Env.silent apart (Operation.append 0 3).run).2 :=
  ⟨.step _ reachable_apart legal_append, treeInvariant (.step _ reachable_apart legal_append)⟩

end Reachable

section Failure

open View

namespace Operation

/-- Whether an operation moves nodes, and these are of the kinds that it is declared for. -/
def Fits (V : View) : Operation → Prop
  | .append p v | .prepend p v => V.Container p ∧ V.Insertable v
  | .replaceWith old v => V.Inner old ∧ V.Insertable v
  | .remove v => V.Inner v
  | .stealChildren target source => V.Container target ∧ V.Container source
  | .stripOut e => ∃ tag, V.core e = some (.element tag)
  | .removeChildren p => V.Container p
  | _ => False

/-- What is refused. -/
def Refused (V : View) : Operation → Prop
  | .append p v => v = p
  | .replaceWith old _ => V.parent old = none
  | .stripOut e => V.parent e = none
  | _ => False

variable {env : Env} {w w' : World} {V : View} {operation : Operation}

/-- What is not refused succeeds, also where it puts a node below itself. -/
theorem does_run (env : Env) (h : Shows w V) (hf : V.IsForest) (hfits : operation.Fits V)
    (hallowed : ¬ operation.Refused V) : ∃ V', Does env w V operation.run () V' := by
  cases operation with
  | append p v =>
    obtain ⟨⟨pcore, hp, hh⟩, hv⟩ := hfits
    obtain ⟨vcore, hv⟩ := hv.core
    exact ⟨_, Tree.does_append h hf.isLinked hp hh hv hallowed⟩
  | prepend p v =>
    obtain ⟨⟨pcore, hp, hh⟩, hv⟩ := hfits
    obtain ⟨vcore, hv⟩ := hv.core
    exact ⟨_, Tree.does_prepend h hf.isLinked hp hh hv⟩
  | replaceWith old v =>
    obtain ⟨⟨ocore, ho, _⟩, hv⟩ := hfits
    obtain ⟨vcore, hv⟩ := hv.core
    obtain ⟨p, hp⟩ := Option.ne_none_iff_exists'.1 hallowed
    by_cases hne : v = old
    · have hrecord := h.record old ocore ho
      rw [hp] at hrecord
      rw [hne]
      exact ⟨V, w, Tree.run'_replaceWith_self hrecord, .refl h⟩
    · exact ⟨_, Tree.does_replaceWith_of_parent h hf.isLinked ho hv hne hp⟩
  | remove v =>
    obtain ⟨core, hv, _⟩ := hfits
    exact ⟨_, Tree.does_remove h hf.isLinked hv⟩
  | stealChildren target source =>
    obtain ⟨⟨tcore, ht, hth⟩, score, hs, hsh⟩ := hfits
    exact ⟨_, Tree.does_stealChildren h hf.isLinked ht hth hs hsh⟩
  | stripOut e =>
    obtain ⟨tag, he⟩ := hfits
    obtain ⟨p, hp⟩ := Option.ne_none_iff_exists'.1 hallowed
    obtain ⟨f, _, hdoes, _⟩ := Tree.does_strip env h hf he hp
    exact ⟨_, hdoes⟩
  | removeChildren p =>
    obtain ⟨core, hp, hh⟩ := hfits
    exact ⟨_, Tree.does_removeChildren h hf.isLinked hp hh⟩
  | _ => exact hfits.elim

/-- How an operation that is refused fails, and what it leaves. -/
theorem run'_refused (env : Env) (h : Shows w V) (hg : V.IsRegular) (hfits : operation.Fits V)
    (hrefused : operation.Refused V) :
    (∃ fault, M.run' env w operation.run = (.error fault, w)) ∨
      ∃ e f words w', operation = .stripOut e ∧ V.core f = none ∧
        M.run' env w operation.run = (.error (.detached words), w') ∧
        TreeStep w V w' ((V.add f .fragment []).stealChildren f e) := by
  cases operation with
  | append p v =>
    cases hrefused
    exact .inl ⟨_, Tree.run'_append_self _⟩
  | replaceWith old v =>
    obtain ⟨⟨ocore, ho, _⟩, _⟩ := hfits
    obtain ⟨words, hfail⟩ : ∃ words, M.run' env w _ = (.error (.detached words), w) :=
      Tree.run'_replaceWith_detached h hg.isOrderly ho hrefused (.object v)
    exact .inl ⟨_, hfail⟩
  | stripOut e =>
    obtain ⟨tag, he⟩ := hfits
    obtain ⟨f, words, w', hnew, hfail, hs, _⟩ := Tree.run'_stripOut_detached env h hg he hrefused
    exact .inr ⟨e, f, words, w', rfl, hnew, hfail, hs⟩
  | _ => exact hrefused.elim

/-- **What a failure changes.** When a call fails, the store is as it was, unless the call was to
strip an element without a parent: then the children of the element, and nothing else, have moved to
a new fragment. -/
theorem unchanged_of_error {fault : Fault} (h : Shows w V) (hg : V.IsRegular)
    (hfits : operation.Fits V) (hfail : M.run' env w operation.run = (.error fault, w')) :
    w' = w ∨ ∃ e f, operation = .stripOut e ∧ V.parent e = none ∧ V.core f = none ∧
      TreeStep w V w' ((V.add f .fragment []).stealChildren f e) := by
  by_cases hrefused : operation.Refused V
  · obtain ⟨_, hrun⟩ | ⟨e, f, _, _, rfl, hnew, hrun, hs⟩ := run'_refused env h hg hfits hrefused
    · cases hrun.symm.trans hfail
      exact .inl rfl
    · cases hrun.symm.trans hfail
      exact .inr ⟨e, f, rfl, hrefused, hnew, hs⟩
  · obtain ⟨V', w1, hrun, _⟩ := does_run env h hg.toIsForest hfits hrefused
    cases hrun.symm.trans hfail

end Operation

end Failure

end PageTemplate
