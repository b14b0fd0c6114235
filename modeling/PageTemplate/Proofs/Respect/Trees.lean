import PageTemplate.Proofs.Respect.Values
import PageTemplate.Tree.Query
import PageTemplate.Tree.Read
import PageTemplate.Tree.Serialize

/-!
# PageTemplate.Proofs.Respect.Trees

Looking at trees and changing them respects what the steps on the store respect.
-/

namespace PageTemplate

variable {env : Env} {S : World → World → Prop}

section Reads

variable [KeptByReads env S]

namespace Tree

@[grind ←] theorem respects_allocNode (core : NodeCore) (attributes : Entries) :
    Respects env S (allocNode core attributes) := by
  unfold allocNode
  exact Store.respects_allocAll _

end Tree

end Reads

section Reads

variable [KeptByReads env S]

namespace Tree

omit [KeptByReads env S] in
@[grind ←] theorem respects_expectText (v : Value) : Respects env S (expectText v) := by
  unfold expectText
  cases v with
  | text => exact .pure _
  | _ => exact .typeError

omit [KeptByReads env S] in
@[grind ←] theorem respects_expectObject (v : Value) : Respects env S (expectObject v) := by
  unfold expectObject
  cases v with
  | object => exact .pure _
  | _ => exact .typeError

@[grind ←] theorem respects_kind? (v : Value) : Respects env S (kind? v) := by
  unfold kind?
  refine (Property.respects_get _ _).bind fun v => ?_
  cases v <;> exact .pure _

@[grind ←] theorem respects_isNode (v : Value) : Respects env S (isNode v) := by
  unfold isNode
  refine .ite (.pure _) ?_
  refine (respects_kind? _).bind fun found => ?_
  exact (Property.respects_has _ _).bind fun b => .pure _

@[grind ←] theorem respects_isElement (v : Value) : Respects env S (isElement v) := by
  unfold isElement
  refine .ite (.pure _) ?_
  exact (respects_kind? _).bind fun found => .pure _

@[grind ←] theorem respects_tag (v : Value) : Respects env S (tag v) := by
  unfold tag
  exact Property.respects_get _ _

@[grind ←] theorem respects_nodeValue (v : Value) : Respects env S (nodeValue v) := by
  unfold nodeValue
  exact Property.respects_get _ _

@[grind ←] theorem respects_rawMark (v : Value) : Respects env S (rawMark v) := by
  unfold rawMark
  exact Property.respects_get _ _

@[grind ←] theorem respects_source (v : Value) : Respects env S (source v) := by
  unfold source
  exact Property.respects_get _ _

@[grind ←] theorem respects_parent (v : Value) : Respects env S (parent v) := by
  unfold parent
  exact Property.respects_get _ _

@[grind ←] theorem respects_childList (v : Value) : Respects env S (childList v) := by
  unfold childList
  exact (Property.respects_get _ _).bind fun list => .ite .typeError (.pure _)

@[grind ←] theorem respects_objectList? (v : Value) : Respects env S (objectList? v) := by
  unfold objectList?
  cases v with
  | object =>
    refine Store.respects_cell.bind fun cell => ?_
    cases cell with
    | array => split <;> exact .pure _
    | _ => exact .pure _
  | _ => exact .pure _

end Tree

namespace Tree.ChildList

@[grind ←] theorem respects_toList (l : Value) : Respects env S (toList l) := by
  unfold toList
  refine (respects_objectList? _).bind fun found => ?_
  cases found with
  | none => exact Sequence.respects_iterate _
  | some => exact .pure _

@[grind ←] theorem respects_elements (l : Value) : Respects env S (elements l) := by
  unfold elements
  refine (respects_objectList? _).bind fun found => ?_
  cases found with
  | none => exact (Convert.respects_invoke _ _ _).bind fun v => Sequence.respects_iterate _
  | some => exact .filterM (fun a => (respects_isElement _)) _

@[grind ←] theorem respects_firstElement (l : Value) : Respects env S (firstElement l) := by
  unfold firstElement
  refine (respects_objectList? _).bind fun found => ?_
  cases found with
  | none => exact Convert.respects_invoke _ _ _
  | some =>
    refine .bind ?_ fun items => ?_
    · exact .filterM (fun a => (respects_isElement _)) _
    · exact .pure _

@[grind ←] theorem respects_textBy (l : Value) (f : NodeFunction) {each : Value → M Value}
    (h : ∀ v, Respects env S (each v)) : Respects env S (textBy l f each) := by
  unfold textBy
  refine (respects_objectList? _).bind fun found => ?_
  cases found with
  | none => exact (Convert.respects_invoke _ _ _).bind fun v => Convert.respects_invoke _ _ _
  | some =>
    refine .bind ?_ fun values => ?_
    · exact .mapM (fun a => (h _)) _
    · refine .bind ?_ fun items => ?_
      · exact .mapM (fun a => (Convert.respects_toJoined _)) _
      · exact .pure _

end Tree.ChildList

namespace Tree

@[grind ←] theorem respects_children (v : Value) : Respects env S (children v) := by
  unfold children
  exact (respects_childList _).bind fun v => ChildList.respects_toList _

@[grind ←] theorem respects_entryOf (entry : Value) : Respects env S (entryOf entry) := by
  unfold entryOf
  exact (Sequence.respects_iterate _).bind fun parts => .pure _

@[grind ←] theorem respects_attributeMap (v : Value) : Respects env S (attributeMap v) := by
  unfold attributeMap
  exact (Property.respects_get _ _).bind fun list => .ite .typeError (.pure _)

@[grind ←] theorem respects_mapEntries? (v : Value) : Respects env S (mapEntries? v) := by
  unfold mapEntries?
  cases v with
  | object =>
    refine Store.respects_cell.bind fun cell => ?_
    cases cell <;> exact .pure _
  | _ => exact .pure _

@[grind ←] theorem respects_forAttributes {α : Type} (v : Value) {action : Value → Value → M α}
    (h : ∀ name value, Respects env S (action name value)) :
    Respects env S (forAttributes v action) := by
  unfold forAttributes
  refine (respects_attributeMap _).bind fun list => ?_
  refine (respects_mapEntries? _).bind fun found => ?_
  cases found with
  | none =>
    refine (Sequence.respects_iterate _).bind fun items => ?_
    refine .mapM (fun a => ?_) _
    exact (respects_entryOf _).bind fun a => h _ _
  | some => exact .mapM (fun a => (h _ _)) _

@[grind ←] theorem respects_attributes (v : Value) : Respects env S (attributes v) := by
  unfold attributes
  exact respects_forAttributes _ (fun _ _ => (.pure _))

@[grind ←] theorem respects_getAttribute (v name : Value) :
    Respects env S (getAttribute v name) := by
  unfold getAttribute
  refine (respects_attributeMap _).bind fun list => ?_
  refine (respects_mapEntries? _).bind fun found => ?_
  cases found with
  | none => exact Convert.respects_invoke _ _ _
  | some => exact .pure _

@[grind ←] theorem respects_hasAttribute (v name : Value) :
    Respects env S (hasAttribute v name) := by
  unfold hasAttribute
  refine (respects_attributeMap _).bind fun list => ?_
  refine (respects_mapEntries? _).bind fun found => ?_
  cases found with
  | none => exact Convert.respects_invoke _ _ _
  | some => exact .pure _

@[grind ←] theorem respects_attributeEntries (v : Value) :
    Respects env S (attributeEntries v) := by
  unfold attributeEntries
  refine (respects_attributeMap v).bind fun list => (respects_mapEntries? list).bind fun found => ?_
  cases found with
  | some found => exact .pure _
  | none => grind

end Tree

end Reads

section Writes

variable [KeptByWrites env S]

namespace Tree

@[grind ←] theorem respects_setPart (id : ObjectId) (name : Text) (value : Value) :
    Respects env S (setPart id name value) := by
  unfold setPart
  exact (Property.respects_set _ _ _).bind fun b => .ite (.pure _) .typeError

@[grind ←] theorem respects_setNodeValue (v value : Value) :
    Respects env S (setNodeValue v value) := by
  unfold setNodeValue
  exact (respects_expectObject _).bind fun a => respects_setPart _ _ _

@[grind ←] theorem respects_setParent (child : Value) (p : Option ObjectId) :
    Respects env S (setParent child p) := by
  unfold setParent
  cases child with
  | object =>
    refine Store.respects_cell.bind fun cell => ?_
    cases cell with
    | map => exact .pure _
    | _ => exact respects_setPart _ _ _
  | function => exact .pure _
  | _ => exact .typeError

end Tree

namespace Tree.ChildList

@[grind ←] theorem respects_write (id : ObjectId) (values : List Value) :
    Respects env S (write id values) := by
  unfold write
  exact Store.respects_setCell

@[grind ←] theorem respects_takeAll (l : Value) : Respects env S (takeAll l) := by
  unfold takeAll
  refine (respects_objectList? _).bind fun found => ?_
  cases found with
  | none => exact (Convert.respects_invoke _ _ _).bind fun v => Sequence.respects_iterate _
  | some => exact (respects_write _ _).bind fun _ => .pure _

@[grind ←] theorem respects_push (l : Value) (values : List Value) :
    Respects env S (push l values) := by
  unfold push
  refine (respects_objectList? _).bind fun found => ?_
  cases found with
  | none => exact .discard (Convert.respects_invoke _ _ _)
  | some => exact respects_write _ _

@[grind ←] theorem respects_unshift (l : Value) (values : List Value) :
    Respects env S (unshift l values) := by
  unfold unshift
  refine (respects_objectList? _).bind fun found => ?_
  cases found with
  | none => exact .discard (Convert.respects_invoke _ _ _)
  | some => exact respects_write _ _

@[grind ←] theorem respects_remove (l child : Value) : Respects env S (remove l child) := by
  unfold remove
  refine (respects_objectList? _).bind fun found => ?_
  cases found with
  | none =>
    refine (Convert.respects_invoke _ _ _).bind fun i => ?_
    refine .ite ?_ (.pure _)
    exact .discard (Convert.respects_invoke _ _ _)
  | some =>
    split
    · split
      · exact respects_write _ _
      · exact .pure _
    · refine (Convert.respects_invoke _ _ _).bind fun i => ?_
      refine .ite ?_ (.pure _)
      exact .discard (Convert.respects_invoke _ _ _)

@[grind ←] theorem respects_substitute (l child : Value) (inserted : List Value) :
    Respects env S (substitute l child inserted) := by
  unfold substitute
  refine (respects_objectList? _).bind fun found => ?_
  cases found with
  | none =>
    refine (Convert.respects_invoke _ _ _).bind fun i => ?_
    exact .discard (Convert.respects_invoke _ _ _)
  | some => exact respects_write _ _

end Tree.ChildList

namespace Tree

@[grind ←] theorem respects_putEntry (list name value : Value) :
    Respects env S (putEntry list name value) := by
  unfold putEntry
  refine (respects_mapEntries? _).bind fun found => ?_
  cases found with
  | none => exact .discard (Convert.respects_invoke _ _ _)
  | some => exact Store.respects_setCell

@[grind ←] theorem respects_setAttribute (v name value : Value) :
    Respects env S (setAttribute v name value) := by
  unfold setAttribute
  exact (respects_attributeMap _).bind fun v => respects_putEntry _ _ _

@[grind ←] theorem respects_removeAttribute (v name : Value) :
    Respects env S (removeAttribute v name) := by
  unfold removeAttribute
  refine (respects_attributeMap _).bind fun list => ?_
  refine (respects_mapEntries? _).bind fun found => ?_
  cases found with
  | none => exact .discard (Convert.respects_invoke _ _ _)
  | some => exact Store.respects_setCell

end Tree

end Writes

section Reads

variable [KeptByReads env S]

namespace Tree

@[grind ←] theorem respects_describe (v : Value) : Respects env S (describe v) := by
  unfold describe
  refine (respects_kind? _).bind fun found => ?_
  cases found with
  | none => exact .pure _
  | some =>
    split
    · refine (respects_tag _).bind fun v => ?_
      exact (Convert.respects_toText _).bind fun t => .pure _
    · exact .pure _
    · exact .pure _
    · exact .pure _
    · exact .pure _
    · exact .pure _
    · exact .pure _
    · exact .pure _

@[grind ←] theorem respects_lowerTag (v : Value) : Respects env S (lowerTag v) := by
  unfold lowerTag
  refine (respects_tag _).bind fun v => ?_
  cases v with
  | text => exact .pure _
  | _ => exact Convert.respects_invoke _ _ _

@[grind ←] theorem respects_ownAttributes (v : Value) : Respects env S (ownAttributes v) := by
  unfold ownAttributes
  exact (Property.respects_get _ _).bind fun v => .ite (.pure _) (respects_attributeEntries _)

@[grind ←] theorem respects_classList (v : Value) : Respects env S (classList v) := by
  unfold classList
  refine (respects_getAttribute _ _).bind fun v => ?_
  cases v with
  | undefined => exact .pure _
  | null => exact .pure _
  | _ => exact (respects_expectText _).bind fun t => .pure _

@[grind ←] theorem respects_textWithin (n : Nat) (v : Value) :
    Respects env S (textWithin n v) := by
  induction n generalizing v with
  | zero => exact .failLibrary .rangeError
  | succ n ih =>
    unfold textWithin
    refine (respects_kind? _).bind fun found => ?_
    cases found with
    | none => exact .pure _
    | some =>
      split
      · exact respects_nodeValue _
      · refine (respects_childList _).bind fun v => ?_
        exact ChildList.respects_textBy _ _ (fun _ => (ih _))
      · refine (respects_childList _).bind fun v => ?_
        exact ChildList.respects_textBy _ _ (fun _ => (ih _))
      · refine (respects_childList _).bind fun v => ?_
        exact ChildList.respects_textBy _ _ (fun _ => (ih _))
      · exact .pure _
      · exact .pure _
      · exact .pure _
      · exact .pure _

@[grind ←] theorem respects_textContent (v : Value) : Respects env S (textContent v) := by
  unfold textContent
  exact Store.respects_depth.bind fun n => respects_textWithin _ _

@[grind ←] theorem respects_elementChildren (v : Value) : Respects env S (elementChildren v) := by
  unfold elementChildren
  exact (respects_childList _).bind fun v => ChildList.respects_elements _

@[grind ←] theorem respects_documentElement? (document : Value) :
    Respects env S (documentElement? document) := by
  unfold documentElement?
  refine (respects_childList _).bind fun v => ?_
  refine (ChildList.respects_firstElement _).bind fun v => ?_
  cases v <;> exact .pure _

@[grind ←] theorem respects_containsWithin (ancestor : Value) (n : Nat) (v : Value) :
    Respects env S (containsWithin ancestor n v) := by
  induction n generalizing v with
  | zero => exact .failLibrary _
  | succ n ih =>
    unfold containsWithin
    refine .ite (.pure _) ?_
    refine .ite (.pure _) ?_
    exact (respects_parent _).bind fun v => ih _

@[grind ←] theorem respects_contains (ancestor v : Value) :
    Respects env S (contains ancestor v) := by
  unfold contains
  exact Store.respects_depth.bind fun n => respects_containsWithin _ _ _

end Tree

end Reads

section Writes

variable [KeptByWrites env S]

namespace Tree

@[grind ←] theorem respects_setParents (p : Option ObjectId) (vs : List Value) :
    Respects env S (setParents p vs) := by
  induction vs with
  | nil => exact .pure ()
  | cons v vs ih =>
    unfold setParents
    exact (respects_setParent _ _).bind fun _ => ih

@[grind ←] theorem respects_fill (id : ObjectId) (ids : List ObjectId) :
    Respects env S (fill id ids) := by
  unfold fill
  exact (respects_setParents _ _).bind fun _ => Store.respects_setCell

set_option linter.unusedSectionVars false in
mutual

@[grind ←] theorem respects_plant (n : Markup.Node) : Respects env S (plant n) := by
  cases n with
  | element tag attributes children =>
    have ih := respects_plantAll children
    unfold plant
    grind
  | _ =>
    unfold plant
    exact respects_allocNode _ _

@[grind ←] theorem respects_plantAll (ns : List Markup.Node) : Respects env S (plantAll ns) := by
  cases ns with
  | nil =>
    unfold plantAll
    exact .pure []
  | cons n ns =>
    have ih := respects_plantAll ns
    have hn := respects_plant n
    unfold plantAll
    grind

end

@[grind ←] theorem respects_plantWithin (core : NodeCore) (nodes : List Markup.Node) :
    Respects env S (plantWithin core nodes) := by
  unfold plantWithin
  refine (respects_allocNode _ _).bind fun id => ?_
  refine (respects_plantAll _).bind fun items => ?_
  exact (respects_fill _ _).bind fun _ => .pure _

@[grind ←] theorem respects_create (content : Content) : Respects env S (create content) := by
  unfold create
  cases content with
  | fragment => exact respects_plantWithin _ _
  | document => exact respects_plantWithin _ _
  | _ => exact respects_allocNode _ _

@[grind ←] theorem respects_createElement (tag : Text) (attributes : Markup.Attributes) :
    Respects env S (createElement tag attributes) := by
  unfold createElement
  exact respects_create _

@[grind ←] theorem respects_createText (value : Text) (raw : Bool) :
    Respects env S (createText value raw) := by
  unfold createText
  exact respects_create _

@[grind ←] theorem respects_remove (v : Value) : Respects env S (remove v) := by
  unfold remove
  refine (respects_parent _).bind fun p => ?_
  refine .ite ?_ (.pure _)
  refine (respects_childList _).bind fun v => ?_
  exact (ChildList.respects_remove _ _).bind fun _ => respects_setParent _ _

@[grind ←] theorem respects_adopt (p : ObjectId) (v : Value) : Respects env S (adopt p v) := by
  unfold adopt
  refine (respects_kind? _).bind fun found => ?_
  refine .ite ?_ ?_
  · refine (respects_childList _).bind fun v => ?_
    refine (ChildList.respects_takeAll _).bind fun moved => ?_
    exact (respects_setParents _ _).bind fun _ => .pure _
  · refine (respects_remove _).bind fun _ => ?_
    exact (respects_setParent _ _).bind fun _ => .pure _

@[grind ←] theorem respects_append (p v : Value) : Respects env S (append p v) := by
  unfold append
  refine .check (.throw _) ?_
  refine (respects_childList _).bind fun list => ?_
  refine (respects_expectObject _).bind fun a => ?_
  exact (respects_adopt _ _).bind fun items => ChildList.respects_push _ _

@[grind ←] theorem respects_prepend (p v : Value) : Respects env S (prepend p v) := by
  unfold prepend
  refine (respects_childList _).bind fun list => ?_
  refine (respects_expectObject _).bind fun a => ?_
  exact (respects_adopt _ _).bind fun items => ChildList.respects_unshift _ _

@[grind ←] theorem respects_createFragment (nodes : List Value) :
    Respects env S (createFragment nodes) := by
  unfold createFragment
  refine (respects_create _).bind fun id => ?_
  refine .bind ?_ fun _ => ?_
  · exact .forM (fun a => (respects_append _ _)) _
  · exact .pure _

@[grind ←] theorem respects_createDocument (nodes : List Value) :
    Respects env S (createDocument nodes) := by
  unfold createDocument
  refine (respects_create _).bind fun id => ?_
  refine .bind ?_ fun _ => ?_
  · exact .forM (fun a => (respects_append _ _)) _
  · exact .pure _

@[grind ←] theorem respects_replaceWith (old replacement : Value) :
    Respects env S (replaceWith old replacement) := by
  unfold replaceWith
  refine (respects_parent _).bind fun p => ?_
  refine .ite ?_ ?_
  · refine (respects_describe _).bind fun t => ?_
    refine .bind (.throw _) fun _ => ?_
    refine .ite (.pure _) ?_
    refine (respects_expectObject _).bind fun a => ?_
    refine (respects_adopt _ _).bind fun nodes => ?_
    refine (respects_childList _).bind fun v => ?_
    exact (ChildList.respects_substitute _ _ _).bind fun _ => respects_setParent _ _
  · refine .ite (.pure _) ?_
    refine (respects_expectObject _).bind fun a => ?_
    refine (respects_adopt _ _).bind fun nodes => ?_
    refine (respects_childList _).bind fun v => ?_
    exact (ChildList.respects_substitute _ _ _).bind fun _ => respects_setParent _ _

@[grind ←] theorem respects_stealChildren (target source : Value) :
    Respects env S (stealChildren target source) := by
  unfold stealChildren
  refine (respects_childList _).bind fun v => ?_
  refine (ChildList.respects_takeAll _).bind fun moved => ?_
  refine (respects_expectObject _).bind fun a => ?_
  refine (respects_setParents _ _).bind fun _ => ?_
  exact (respects_childList _).bind fun v => ChildList.respects_push _ _

@[grind ←] theorem respects_stripOut (element : Value) : Respects env S (stripOut element) := by
  unfold stripOut
  refine (respects_createFragment _).bind fun a => ?_
  exact (respects_stealChildren _ _).bind fun _ => respects_replaceWith _ _

@[grind ←] theorem respects_removeChildren (p : Value) : Respects env S (removeChildren p) := by
  unfold removeChildren
  refine (respects_childList _).bind fun v => ?_
  exact (ChildList.respects_takeAll _).bind fun items => respects_setParents _ _

@[grind ←] theorem respects_cloneElement (v : Value) : Respects env S (cloneElement v) := by
  unfold cloneElement
  refine (respects_lowerTag _).bind fun t => ?_
  exact (respects_ownAttributes _).bind fun items => respects_create _

@[grind ←] theorem respects_cloneWithin (n : Nat) (v : Value) :
    Respects env S (cloneWithin n v) := by
  induction n generalizing v with
  | zero => exact .failLibrary .rangeError
  | succ n ih =>
    unfold cloneWithin
    refine (respects_kind? v).bind fun kind => ?_
    cases kind with
    | none => exact .typeError
    | some kind => cases kind <;> grind

@[grind ←] theorem respects_clone (v : Value) : Respects env S (clone v) := by
  unfold clone
  exact Store.respects_depth.bind fun n => respects_cloneWithin _ _

@[grind ←] theorem respects_addClass (v classes : Value) : Respects env S (addClass v classes) := by
  unfold addClass
  refine (respects_classList _).bind fun current => ?_
  exact (respects_expectText _).bind fun t => respects_setAttribute _ _ _

@[grind ←] theorem respects_setTextContent (v value : Value) :
    Respects env S (setTextContent v value) := by
  unfold setTextContent
  refine (respects_removeChildren _).bind fun _ => ?_
  exact (respects_create _).bind fun a => respects_append _ _

end Tree

end Writes

section Reads

variable [KeptByReads env S]

namespace Tree

@[grind ←] theorem respects_namedAttributes? (v : Value) : Respects env S (namedAttributes? v) := by
  unfold namedAttributes?
  refine (Property.respects_find? _ _).bind fun found => ?_
  cases found with
  | none => exact .pure _
  | some => exact (respects_mapEntries? _).bind fun found => .pure _

@[grind ←] theorem respects_facts (v : Value) : Respects env S (facts v) := by
  unfold facts
  refine (respects_namedAttributes? _).bind fun entries => ?_
  exact (respects_tag _).bind fun v => .pure _

omit [KeptByReads env S] in
@[grind ←] theorem respects_answer? {action : M Bool} (h : Respects env S action) :
    Respects env S (answer? action) := by
  unfold answer?
  refine .tryCatch ?_ fun _ => ?_
  · exact h.bind fun b => .pure _
  · exact .pure _

@[grind ←] theorem respects_seat (v : Value) : Respects env S (seat v) := by
  unfold seat
  refine (respects_facts v).bind fun facts => (respects_parent v).bind fun p => ?_
  cases p with
  | null => exact .pure _
  | _ => grind

@[grind ←] theorem respects_lineageWithin (n : Nat) (v : Value) :
    Respects env S (lineageWithin n v) := by
  induction n generalizing v with
  | zero => exact .pure []
  | succ n ih =>
    unfold lineageWithin
    refine (respects_isElement _).bind fun b => ?_
    refine .ite ?_ (.pure _)
    refine (respects_seat _).bind fun s => ?_
    refine (respects_parent _).bind fun v => ?_
    exact (ih _).bind fun above => .pure _

@[grind ←] theorem respects_lineage (v : Value) : Respects env S (lineage v) := by
  unfold lineage
  exact Store.respects_depth.bind fun n => respects_lineageWithin _ _

@[grind ←] theorem respects_isOrdered (container : Value) :
    Respects env S (isOrdered container) := by
  unfold isOrdered
  exact (Property.respects_get _ _).bind fun v => Store.respects_isArray

@[grind ←] theorem respects_isSettled (container : Value) (siblings : List Value) (v : Value) :
    Respects env S (isSettled container siblings v) := by
  unfold isSettled
  exact (respects_parent _).bind fun v => .ite (.pure _) (.pure _)

@[grind ←] theorem respects_outlinesWithin (n : Nat) (v : Value) :
    Respects env S (outlinesWithin n v) := by
  induction n generalizing v with
  | zero => exact .failLibrary .rangeError
  | succ n ih =>
    unfold outlinesWithin
    refine (respects_children _).bind fun items => ?_
    refine .bind ?_ fun siblings => ?_
    · exact .filterM (fun a => (respects_isElement _)) _
    · refine (respects_isOrdered _).bind fun ordered => ?_
      refine .mapM (fun a => ?_) _
      refine (respects_isSettled _ _ _).bind fun b => ?_
      refine .ite ?_ ?_
      · refine (respects_facts _).bind fun a => ?_
        exact (ih _).bind fun items => .pure _
      · refine (respects_lineage _).bind fun a => ?_
        exact (ih _).bind fun items => .pure _

@[grind ←] theorem respects_scope (root : Value) : Respects env S (scope root) := by
  unfold scope
  refine Store.respects_depth.bind fun n => ?_
  refine (respects_outlinesWithin _ _).bind fun inner => ?_
  refine (respects_lineage _).bind fun a => ?_
  exact (respects_kind? _).bind fun found => .pure _

@[grind ←] theorem respects_selectAll (root : Value) (selector : Text) :
    Respects env S (selectAll root selector) := by
  unfold selectAll
  refine .bind (.liftExcept _) fun selector => ?_
  exact (respects_scope _).bind fun a => .liftExcept _

@[grind ←] theorem respects_select? (root : Value) (selector : Text) :
    Respects env S (select? root selector) := by
  unfold select?
  exact (respects_selectAll _ _).bind fun items => .pure _

@[grind ←] theorem respects_matchesSelector (v : Value) (selector : Text) :
    Respects env S (matchesSelector v selector) := by
  unfold matchesSelector
  refine .bind (.liftExcept _) fun selector => ?_
  exact (respects_lineage _).bind fun a => .liftExcept _

omit [KeptByReads env S] in
@[grind ←] theorem respects_firstAnswer {action : Value → M (Option Value)}
    (h : ∀ v, Respects env S (action v)) (vs : List Value) :
    Respects env S (firstAnswer action vs) := by
  induction vs with
  | nil => exact .pure none
  | cons v vs ih =>
    unfold firstAnswer
    refine (h _).bind fun found => ?_
    cases found with
    | none => exact ih
    | some => exact .pure _

@[grind ←] theorem respects_findByIdWithin? (id : Value) (n : Nat) (v : Value) :
    Respects env S (findByIdWithin? id n v) := by
  induction n generalizing v with
  | zero => exact .failLibrary .rangeError
  | succ n ih =>
    unfold findByIdWithin?
    refine (respects_children _).bind fun items => ?_
    refine respects_firstAnswer (fun _ => ?_) _
    refine (respects_isElement _).bind fun b => ?_
    refine .ite (.pure _) ?_
    exact (respects_getAttribute _ _).bind fun v => .ite (.pure _) (ih _)

@[grind ←] theorem respects_findById? (root id : Value) : Respects env S (findById? root id) := by
  unfold findById?
  exact Store.respects_depth.bind fun n => respects_findByIdWithin? _ _ _

end Tree

end Reads

section Reads

variable [KeptByReads env S]

namespace Tree

@[grind ←] theorem respects_patternOf (t : Text) : Respects env S (patternOf t) := by
  unfold patternOf
  exact Store.respects_newArray

@[grind ←] theorem respects_escapeOne (v : Value) (pair : Text × Text) :
    Respects env S (escape.escapeOne v pair) := by
  unfold escape.escapeOne
  cases v with
  | text => exact .pure _
  | _ => exact (respects_patternOf _).bind fun v => Convert.respects_invoke _ _ _

@[grind ←] theorem respects_escape (v : Value) : Respects env S (escape v) := by
  unfold escape
  grind

@[grind ←] theorem respects_writeAttribute (name value : Value) :
    Respects env S (writeAttribute name value) := by
  unfold writeAttribute
  cases name with
  | text =>
    cases value with
    | text => exact .pure _
    | _ =>
      refine (Convert.respects_toText _).bind fun name => ?_
      refine (respects_escape _).bind fun v => ?_
      exact (Convert.respects_toText _).bind fun t => .pure _
  | _ =>
    refine (Convert.respects_toText _).bind fun name => ?_
    refine (respects_escape _).bind fun v => ?_
    exact (Convert.respects_toText _).bind fun t => .pure _

@[grind ←] theorem respects_serializeWithin (n : Nat) (v : Value) :
    Respects env S (serializeWithin n v) := by
  induction n generalizing v with
  | zero => exact .failLibrary .rangeError
  | succ n ih =>
    unfold serializeWithin
    refine (respects_kind? v).bind fun kind => ?_
    cases kind with
    | none => exact .pure _
    | some kind => cases kind <;> grind

@[grind ←] theorem respects_serialize (v : Value) : Respects env S (serialize v) := by
  unfold serialize
  exact Store.respects_depth.bind fun n => respects_serializeWithin _ _

@[grind ←] theorem respects_innerMarkup (v : Value) : Respects env S (innerMarkup v) := by
  unfold innerMarkup
  refine Store.respects_depth.bind fun depth => ?_
  refine (respects_childList _).bind fun v => ?_
  exact ChildList.respects_textBy _ _ (fun _ => (respects_serializeWithin _ _))

end Tree

end Reads

section Reads

variable [KeptByReads env S]

namespace Tree

omit [KeptByReads env S] in
@[grind ←] theorem respects_readNodes (options : Markup.ReadOptions) (t : Text) :
    Respects env S (readNodes options t) := by
  unfold readNodes
  split
  · exact .pure _
  · exact .throw _

end Tree

end Reads

section Writes

variable [KeptByWrites env S]

namespace Tree

@[grind ←] theorem respects_readAll (options : Markup.ReadOptions) (t : Text) :
    Respects env S (readAll options t) := by
  unfold readAll
  exact (respects_readNodes _ _).bind fun items => respects_plantAll _

@[grind ←] theorem respects_readFragment (options : Markup.ReadOptions) (t : Text) :
    Respects env S (readFragment options t) := by
  unfold readFragment
  exact (respects_readNodes _ _).bind fun items => respects_create _

@[grind ←] theorem respects_readDocument (options : Markup.ReadOptions) (t : Text) :
    Respects env S (readDocument options t) := by
  unfold readDocument
  exact (respects_readNodes _ _).bind fun items => respects_create _

end Tree

end Writes

end PageTemplate
