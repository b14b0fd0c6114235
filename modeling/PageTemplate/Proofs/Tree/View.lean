import PageTemplate.Proofs.Property
import PageTemplate.Tree.Edit

/-!
# PageTemplate.Proofs.Tree.View

The trees in the store, seen apart from everything else in it. A view tells of some places which
node is there, with its parent, its children and its attributes; a store shows a view when the
records, arrays and maps at these places say so. Asking a node that is shown for its parts does not
change the store and calls nothing.
-/

namespace PageTemplate

/-- Some nodes with their links. -/
@[ext] structure View where
  core : ObjectId → Option NodeCore
  parent : ObjectId → Option ObjectId
  children : ObjectId → List ObjectId
  attributes : ObjectId → Entries

/-- Whether the store holds the nodes of a view. -/
structure Shows (w : World) (V : View) : Prop where
  record : ∀ id core, V.core id = some core →
    w.cells[id]? = some (Tree.nodeCell id core (V.parent id))
  list : ∀ id core, V.core id = some core → core.hasChildren →
    w.cells[Tree.childrenOf id]? = some (Tree.listCell (V.children id))
  map : ∀ id core, V.core id = some core → core.hasAttributes →
    w.cells[Tree.attributesOf id]? = some (.map (V.attributes id))

namespace NodeKind

/-- A kind is known by its number. -/
theorem ofNumber_number (k : NodeKind) : ofNumber? (Number.ofNat k.number) = some k := by
  cases k <;> decide +kernel

end NodeKind

namespace Tree

/-! The properties of a node. -/

/-- The properties of the record of a node. -/
def nodeProperties (id : ObjectId) (core : NodeCore) (parent : Option ObjectId) : Properties :=
  .of [("nodeType", .ofNat core.kind.number)] ++ parts id core ++
    .of [("parentNode", parentValue parent)]

variable {id : ObjectId} {core : NodeCore} {parent : Option ObjectId}

theorem nodeCell_eq : nodeCell id core parent = .record .object (nodeProperties id core parent) :=
  rfl

theorem find_nodeType :
    Assoc.find? (Text.ofString "nodeType") (nodeProperties id core parent) =
      some (.ofNat core.kind.number) :=
  rfl

theorem find_parentNode :
    Assoc.find? (Text.ofString "parentNode") (nodeProperties id core parent) =
      some (parentValue parent) := by
  cases core <;> rfl

theorem put_parentNode (p : Option ObjectId) :
    Assoc.put (Text.ofString "parentNode") (parentValue p) (nodeProperties id core parent) =
      nodeProperties id core p := by
  cases core <;> rfl

theorem find_childNodes (h : core.hasChildren) :
    Assoc.find? (Text.ofString "childNodes") (nodeProperties id core parent) =
      some (.object (childrenOf id)) := by
  cases core <;> first | rfl | cases h

theorem find_attributes (h : core.hasAttributes) :
    Assoc.find? (Text.ofString "attributes") (nodeProperties id core parent) =
      some (.object (attributesOf id)) := by
  cases core <;> first | rfl | cases h

theorem find_tagName {tag : Value} :
    Assoc.find? (Text.ofString "tagName") (nodeProperties id (.element tag) parent) = some tag :=
  rfl

/-- The value of a text, a comment or a declaration. -/
theorem find_nodeValue {value : Value}
    (h : (∃ raw, core = .text value raw) ∨ core = .comment value ∨ core = .doctype value) :
    Assoc.find? (Text.ofString "nodeValue") (nodeProperties id core parent) = some value := by
  rcases h with ⟨raw, rfl⟩ | rfl | rfl <;> rfl

theorem find_raw {value raw : Value} :
    Assoc.find? (Text.ofString "raw") (nodeProperties id (.text value raw) parent) = some raw :=
  rfl

theorem find_source {source : Value} :
    Assoc.find? (Text.ofString "source") (nodeProperties id (.code source) parent) = some source :=
  rfl

/-! Asking a node for its parts. -/

variable {env : Env} {w : World}

/-- A property that the record of a node has. -/
theorem run'_get_node (h : w.cells[id]? = some (nodeCell id core parent)) {name : Text} {v : Value}
    (hv : Assoc.find? name (nodeProperties id core parent) = some v) :
    M.run' env w (Property.get (.object id) name) = (.ok v, w) :=
  Property.run'_get_record (World.cell_of_getElem? h) hv

theorem run'_kind (h : w.cells[id]? = some (nodeCell id core parent)) :
    M.run' env w (kind? (.object id)) = (.ok (some core.kind), w) := by
  rw [kind?, M.run'_bind_ok (run'_get_node h find_nodeType)]
  simp only [Value.ofNat, M.run'_pure, NodeKind.ofNumber_number]

theorem run'_parent (h : w.cells[id]? = some (nodeCell id core parent)) :
    M.run' env w (Tree.parent (.object id)) = (.ok (parentValue parent), w) :=
  run'_get_node h find_parentNode

theorem run'_childList (h : w.cells[id]? = some (nodeCell id core parent))
    (hc : core.hasChildren) :
    M.run' env w (childList (.object id)) = (.ok (.object (childrenOf id)), w) := by
  rw [childList, M.run'_bind_ok (run'_get_node h (find_childNodes hc))]
  rfl

theorem run'_attributeMap (h : w.cells[id]? = some (nodeCell id core parent))
    (ha : core.hasAttributes) :
    M.run' env w (attributeMap (.object id)) = (.ok (.object (attributesOf id)), w) := by
  rw [attributeMap, M.run'_bind_ok (run'_get_node h (find_attributes ha))]
  rfl

theorem run'_isElement (h : w.cells[id]? = some (nodeCell id core parent)) :
    M.run' env w (isElement (.object id)) = (.ok (core.kind == .element), w) := by
  simp [isElement, Value.isNullish, run'_kind h]

theorem run'_tag {t : Value} (h : w.cells[id]? = some (nodeCell id (.element t) parent)) :
    M.run' env w (tag (.object id)) = (.ok t, w) :=
  run'_get_node h find_tagName

theorem run'_nodeValue {value : Value} (h : w.cells[id]? = some (nodeCell id core parent))
    (hv : (∃ raw, core = .text value raw) ∨ core = .comment value ∨ core = .doctype value) :
    M.run' env w (nodeValue (.object id)) = (.ok value, w) :=
  run'_get_node h (find_nodeValue hv)

theorem run'_rawMark {value raw : Value}
    (h : w.cells[id]? = some (nodeCell id (.text value raw) parent)) :
    M.run' env w (rawMark (.object id)) = (.ok raw, w) :=
  run'_get_node h find_raw

theorem run'_source {s : Value} (h : w.cells[id]? = some (nodeCell id (.code s) parent)) :
    M.run' env w (source (.object id)) = (.ok s, w) :=
  run'_get_node h find_source

/-- Changing the parent of a node changes its record. -/
theorem run'_setParent (h : w.cells[id]? = some (nodeCell id core parent)) (p : Option ObjectId) :
    M.run' env w (setParent (.object id) p) = (.ok (), w.setCell id (nodeCell id core p)) := by
  have hc : w.cell id = .record .object (nodeProperties id core parent) :=
    World.cell_of_getElem? h
  have hs : M.run' env w (Property.set id _ _) = _ :=
    Property.run'_set_record hc find_parentNode (parentValue p)
  rw [put_parentNode] at hs
  simp only [setParent, M.run'_bind, Store.run'_cell, hc, setPart, hs, if_true, M.run'_pure,
    nodeCell_eq]

/-! Lists of objects and maps. -/

theorem objectIds_objects (ids : List ObjectId) :
    objectIds? (ids.map fun id => some (.object id)) = some ids := by
  induction ids with
  | nil => rfl
  | cons id ids ih => simp [objectIds?, ih]

theorem run'_objectList {l : ObjectId} {ids : List ObjectId}
    (h : w.cells[l]? = some (listCell ids)) :
    M.run' env w (objectList? (.object l)) = (.ok (some (l, ids)), w) := by
  simp [objectList?, M.run'_bind, World.cell_of_getElem? h, listCell, objectIds_objects]

theorem run'_mapEntries {m : ObjectId} {entries : Entries}
    (h : w.cells[m]? = some (.map entries)) :
    M.run' env w (mapEntries? (.object m)) = (.ok (some (m, entries)), w) := by
  simp [mapEntries?, M.run'_bind, World.cell_of_getElem? h]

namespace ChildList

variable {l : ObjectId} {ids : List ObjectId}

/-- An array of objects as the values that it is written from. -/
theorem array_eq_listCell (ids : List ObjectId) :
    Cell.array ((ids.map Value.object).map some) [] = listCell ids := by
  simp [listCell]

theorem run'_toList (h : w.cells[l]? = some (listCell ids)) :
    M.run' env w (toList (.object l)) = (.ok (ids.map .object), w) := by
  simp [toList, M.run'_bind, run'_objectList h]

theorem run'_takeAll (h : w.cells[l]? = some (listCell ids)) :
    M.run' env w (takeAll (.object l)) = (.ok (ids.map .object), w.setCell l (listCell [])) := by
  simp [takeAll, M.run'_bind, run'_objectList h, write, listCell]

theorem run'_push (h : w.cells[l]? = some (listCell ids)) (more : List ObjectId) :
    M.run' env w (push (.object l) (more.map .object)) =
      (.ok (), w.setCell l (listCell (ids ++ more))) := by
  simp only [push, M.run'_bind, run'_objectList h, write, Store.run'_setCell, ← List.map_append,
    array_eq_listCell]

theorem run'_unshift (h : w.cells[l]? = some (listCell ids)) (more : List ObjectId) :
    M.run' env w (unshift (.object l) (more.map .object)) =
      (.ok (), w.setCell l (listCell (more ++ ids))) := by
  simp only [unshift, M.run'_bind, run'_objectList h, write, Store.run'_setCell, ← List.map_append,
    array_eq_listCell]

theorem position_object (c : ObjectId) (ids : List ObjectId) :
    position? (.object c) ids = ids.idxOf? c := by
  simp only [position?, Value.strictlyEqual, Value.identicalBy, List.idxOf?]
  congr 1
  funext id
  exact Bool.beq_comm

/-- Removing a child removes its first occurrence. -/
theorem run'_remove (h : w.cells[l]? = some (listCell ids)) (c : ObjectId) :
    M.run' env w (remove (.object l) (.object c)) =
      (.ok (), if c ∈ ids then w.setCell l (listCell (ids.erase c)) else w) := by
  simp only [remove, M.run'_bind, run'_objectList h, position_object]
  cases hi : ids.idxOf? c with
  | none =>
    have : c ∉ ids := by simpa using hi
    simp [this]
  | some i =>
    have hm : c ∈ ids := by
      rw [← List.isSome_idxOf?, hi]
      rfl
    have he : ids.eraseIdx i = ids.erase c := by
      rw [List.erase_eq_eraseIdx, hi]
    simp only [hm, if_true, write, Store.run'_setCell, array_eq_listCell, he]

theorem spliceAt_objects (i : Option Nat) (inserted ids : List ObjectId) :
    spliceAt i (inserted.map Value.object) (ids.map .object) =
      (spliceAt i inserted ids).map .object := by
  simp [spliceAt]

theorem run'_substitute (h : w.cells[l]? = some (listCell ids)) (c : ObjectId)
    (inserted : List ObjectId) :
    M.run' env w (substitute (.object l) (.object c) (inserted.map .object)) =
      (.ok (), w.setCell l (listCell (spliceAt (ids.idxOf? c) inserted ids))) := by
  simp only [substitute, M.run'_bind, run'_objectList h, position_object, spliceAt_objects, write,
    Store.run'_setCell, array_eq_listCell]

end ChildList

end Tree

end PageTemplate
