import PageTemplate.Proofs.Tree.Reachable
import PageTemplate.Template.Expand

/-!
# PageTemplate.Proofs.Template.Recognition

What passes for a node. Data that a JSON document writes passes for one exactly when the document is
an object with the number of a kind under `nodeType` and with a member `parentNode`. Any other data
is shown as text when it is inserted as markup, and the text goes through the sanitizer.
-/

namespace PageTemplate

def Value.number? : Value → Option Float
  | .number x => some x
  | _ => none

/-- Whether the properties of a record have the shape of a node. -/
def Properties.isNodeShaped (properties : Properties) : Bool :=
  (((Assoc.find? (Text.ofString "nodeType") properties).bind Value.number?).bind
    NodeKind.ofNumber?).isSome && Assoc.has (Text.ofString "parentNode") properties

namespace Json

def number? : Json → Option Float
  | .number x => some x
  | _ => none

/-- Whether a document writes an object that has the shape of a node. -/
def isNodeShaped : Json → Bool
  | .object members =>
    (((Assoc.find? (Text.ofString "nodeType") members).bind number?).bind
      NodeKind.ofNumber?).isSome && Assoc.has (Text.ofString "parentNode") members
  | _ => false

end Json

variable {env : Env} {w w' : World}

namespace Library

/-- A document becomes a number only when it writes one. -/
theorem number_plantJson {document : Json} {v : Value}
    (h : M.run' env w (plantJson document) = (.ok v, w')) : v.number? = document.number? := by
  cases document with
  | array items =>
    obtain ⟨vs, w1, _, h⟩ := M.run'_bind_eq_ok.1 h
    obtain ⟨id, w2, _, h⟩ := M.run'_bind_eq_ok.1 h
    cases h
    rfl
  | object members =>
    obtain ⟨vs, w1, _, h⟩ := M.run'_bind_eq_ok.1 h
    obtain ⟨id, w2, _, h⟩ := M.run'_bind_eq_ok.1 h
    cases h
    rfl
  | _ =>
    cases h
    rfl

/-- The properties of a planted object have the names of its members, and are numbers where these
are. -/
theorem find_plantMembers {members : List (Text × Json)} {vs : Properties}
    (h : M.run' env w (plantMembers members) = (.ok vs, w')) (name : Text) :
    (Assoc.find? name vs).bind Value.number? = (Assoc.find? name members).bind Json.number? ∧
      Assoc.has name vs = Assoc.has name members := by
  induction members generalizing w vs with
  | nil =>
    cases h
    exact ⟨rfl, rfl⟩
  | cons member members ih =>
    obtain ⟨key, member⟩ := member
    obtain ⟨v, w1, hv, h⟩ := M.run'_bind_eq_ok.1 h
    obtain ⟨more, w2, hmore, h⟩ := M.run'_bind_eq_ok.1 h
    cases h
    obtain ⟨hnumber, hhas⟩ := ih hmore
    simp only [Assoc.has, Assoc.find?] at hhas ⊢
    by_cases hk : (key == name) = true
    · simp [hk, number_plantJson hv]
    · simp [hk, hnumber, hhas]

/-- What a document becomes: a value that is no object, an array, or a record. -/
theorem plantJson_cases {document : Json} {v : Value}
    (h : M.run' env w (plantJson document) = (.ok v, w')) :
    v.isObject = false ∧ document.isNodeShaped = false ∨
      (∃ id items, v = .object id ∧ w'.cell id = .array items [] ∧ document.isNodeShaped = false) ∨
      ∃ id properties, v = .object id ∧ w'.cell id = .record .object properties ∧
        document.isNodeShaped = properties.isNodeShaped := by
  cases document with
  | array items =>
    obtain ⟨vs, w1, _, h⟩ := M.run'_bind_eq_ok.1 h
    obtain ⟨id, w2, halloc, h⟩ := M.run'_bind_eq_ok.1 h
    cases (Store.run'_alloc _).symm.trans halloc
    cases h
    have hcell := World.cell_of_getElem? (World.allocAll_new w1 [.array (vs.map some) []] 0)
    exact .inr (.inl ⟨_, _, rfl, hcell, rfl⟩)
  | object members =>
    obtain ⟨vs, w1, hvs, h⟩ := M.run'_bind_eq_ok.1 h
    obtain ⟨id, w2, halloc, h⟩ := M.run'_bind_eq_ok.1 h
    cases (Store.run'_alloc _).symm.trans halloc
    cases h
    have hcell := World.cell_of_getElem? (World.allocAll_new w1 [.record .object vs] 0)
    refine .inr (.inr ⟨_, _, rfl, hcell, ?_⟩)
    rw [Json.isNodeShaped, Properties.isNodeShaped, (find_plantMembers hvs _).1,
      (find_plantMembers hvs _).2]
  | _ =>
    cases h
    exact .inl ⟨rfl, rfl⟩

end Library

namespace Tree

variable {id : ObjectId} {properties : Properties}

/-- The kind that a record says it is of. -/
theorem run'_kind_record (h : w.cell id = .record .object properties) :
    M.run' env w (kind? (.object id)) =
      (.ok (((Assoc.find? (Text.ofString "nodeType") properties).bind Value.number?).bind
        NodeKind.ofNumber?), w) := by
  have hmember : properties.member? .object (Text.ofString "nodeType") =
      Assoc.find? (Text.ofString "nodeType") properties := Option.or_none
  rw [kind?, M.run'_bind_ok (Property.run'_get_plain .object h _), hmember]
  rcases Assoc.find? (Text.ofString "nodeType") properties with _ | v
  · rfl
  · cases v <;> rfl

end Tree

namespace Present

variable {id : ObjectId} {v : Value} {document : Json}

/-- An object that is no handle is a node when it counts as one. -/
theorem run'_node_object {f : Family} {b : Bool} (hf : f ≠ .handle)
    (hfamily : M.run' env w (Property.family? (.object id)) = (.ok (some f), w))
    (hnode : M.run' env w (Tree.isNode (.object id)) = (.ok b, w)) :
    M.run' env w (node? (.object id)) = (.ok (if b then some (.object id) else none), w) := by
  have hhandle : (some f == some Family.handle) = false := by simpa using hf
  rw [node?]
  simp only [Value.isObject, Bool.not_true, Bool.false_eq_true, if_false]
  rw [M.run'_bind_ok hfamily]
  simp only [hhandle, Bool.false_eq_true, if_false]
  rw [M.run'_bind_ok hnode]
  rfl

theorem run'_node_array {items : List (Option Value)} (h : w.cell id = .array items []) :
    M.run' env w (node? (.object id)) = (.ok none, w) := by
  refine run'_node_object (b := false) (by decide) (Property.run'_family_array h) ?_
  have hkind : M.run' env w (Tree.kind? (.object id)) = (.ok none, w) :=
    Tree.run'_kind_none (Property.run'_search_array h rfl rfl)
  rw [Tree.isNode]
  simp only [Value.isObject, Bool.not_true, Bool.false_eq_true, if_false]
  rw [M.run'_bind_ok hkind, Property.has, bind_assoc,
    M.run'_bind_ok (Property.run'_search_array h rfl rfl)]
  rfl

theorem run'_node_record {properties : Properties} (h : w.cell id = .record .object properties) :
    M.run' env w (node? (.object id)) =
      (.ok (if properties.isNodeShaped then some (.object id) else none), w) := by
  refine run'_node_object (by decide) (Property.run'_family_record h) ?_
  rw [Tree.isNode]
  simp only [Value.isObject, Bool.not_true, Bool.false_eq_true, if_false]
  have hmember : properties.member? .object (Text.ofString "parentNode") =
      Assoc.find? (Text.ofString "parentNode") properties := Option.or_none
  rw [M.run'_bind_ok (Tree.run'_kind_record h),
    M.run'_bind_ok (Property.run'_has_plain .object h _), hmember]
  rfl

theorem run'_node_plain {properties : Properties} (h : w.cell id = .record .object properties)
    (hp : properties.isNodeShaped = false) :
    M.run' env w (node? (.object id)) = (.ok none, w) := by
  rw [run'_node_record h, hp]
  rfl

/-- **What passes for a node** among the values of JSON documents. -/
theorem run'_node_plantJson (h : M.run' env w (Library.plantJson document) = (.ok v, w')) :
    M.run' env w' (node? v) = (.ok (if document.isNodeShaped then some v else none), w') := by
  rcases Library.plantJson_cases h with ⟨hv, hd⟩ | ⟨id, items, rfl, hcell, hd⟩ |
    ⟨id, properties, rfl, hcell, hd⟩
  · rw [hd, node?, hv]
    rfl
  · rw [hd, run'_node_array hcell]
    rfl
  · rw [hd, run'_node_record hcell]

theorem shown_simple (hv : v.isObject = false) {s : Value}
    (h : M.run' env w (shown v) = (.ok s, w')) : ∃ t, s = .text t := by
  cases v with
  | object id => cases hv
  | text | undefined | null =>
    cases h
    exact ⟨_, rfl⟩
  | number | bool | bigint | symbol | function =>
    obtain ⟨t, w1, _, h⟩ := M.run'_bind_eq_ok.1 h
    cases h
    exact ⟨t, rfl⟩

/-- An object that is neither a date nor a node is shown as JSON. -/
theorem shown_object {f : Family} (hf : f ≠ .date)
    (hfamily : M.run' env w (Property.family? (.object id)) = (.ok (some f), w))
    (hnode : M.run' env w (node? (.object id)) = (.ok none, w)) {s : Value}
    (h : M.run' env w (shown (.object id)) = (.ok s, w')) : ∃ t, s = .text t := by
  have hdate : (some f == some Family.date) = false := by simpa using hf
  rw [shown, isOf, bind_assoc, M.run'_bind_ok hfamily] at h
  simp only [hdate, Bool.and_false, pure_bind, Bool.false_eq_true, if_false] at h
  rw [M.run'_bind_ok hnode] at h
  obtain ⟨t, w1, _, h⟩ := M.run'_bind_eq_ok.1 h
  cases h
  exact ⟨_, rfl⟩

/-- Data without the shape of a node is shown as text. -/
theorem shown_plantJson (h : M.run' env w (Library.plantJson document) = (.ok v, w'))
    (hd : document.isNodeShaped = false) {s : Value} {w'' : World}
    (hs : M.run' env w' (shown v) = (.ok s, w'')) : ∃ t, s = .text t := by
  have hnode := run'_node_plantJson h
  simp only [hd, Bool.false_eq_true, if_false] at hnode
  rcases Library.plantJson_cases h with ⟨hv, _⟩ | ⟨id, items, rfl, hcell, _⟩ |
    ⟨id, properties, rfl, hcell, _⟩
  · exact shown_simple hv hs
  · exact shown_object (by decide) (Property.run'_family_array hcell) hnode hs
  · exact shown_object (by decide) (Property.run'_family_record hcell) hnode hs

end Present

namespace Expander

variable {x : Expander} {v place : Value} {document : Json} {code : Text}

/-- **Data is sanitized.** When data without the shape of a node is inserted as markup, the markup
is what is read from the sanitized text of the data. -/
theorem insertable_plantJson (h : M.run' env w (Library.plantJson document) = (.ok v, w'))
    (hd : document.isNodeShaped = false) {u : Value} {w'' : World}
    (hr : M.run' env w' (x.insertable v place code) = (.ok u, w'')) :
    ∃ t w1 fragment, M.run' env w' (Present.shown v) = (.ok (.text t), w1) ∧
      M.run' env w1 (Tree.readFragment (x.readOptions false) (x.sanitize.elim t fun f => f t)) =
        (.ok fragment, w'') ∧ u = .object fragment := by
  have hnode := Present.run'_node_plantJson h
  simp only [hd, Bool.false_eq_true, if_false] at hnode
  rw [insertable, M.run'_bind_ok hnode] at hr
  obtain ⟨fragment, w2, hread, hr⟩ := M.run'_bind_eq_ok.1 hr
  cases hr
  obtain ⟨s, w1, hs, hread⟩ := M.run'_bind_eq_ok.1 hread
  obtain ⟨t, rfl⟩ := Present.shown_plantJson h hd hs
  exact ⟨t, w1, fragment, hs, hread, rfl⟩

end Expander

end PageTemplate
