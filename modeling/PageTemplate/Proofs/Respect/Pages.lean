import PageTemplate.Form.Handle
import PageTemplate.Proofs.Respect.Trees
import PageTemplate.Template.Marker

/-!
# PageTemplate.Proofs.Respect.Pages

Showing values in pages, filling forms and replacing markers respect what the steps on the store
respect.
-/

namespace PageTemplate

variable {env : Env} {S : World → World → Prop}

section Reads

variable [KeptByReads env S]

namespace Stringify

@[grind ←] theorem respects_standIn {style : Style}
    (h : ∀ holder key v, Respects env S (style.replace holder key v)) (holder : Value) (key : Text)
    (v : Value) : Respects env S (standIn style holder key v) := by
  unfold standIn
  cases v with
  | object | bigint | function =>
    refine (Property.respects_get _ _).bind fun toJson => ?_
    cases toJson with
    | function => exact .bind (.call _ _ _) fun own => h _ _ _
    | _ => exact h _ _ _
  | _ => grind

@[grind ←] theorem respects_writeWithin {style : Style}
    (h : ∀ holder key v, Respects env S (style.replace holder key v)) (n : Nat)
    (path : List ObjectId) (indent : Text) (holder : Value) (key : Text) (v : Value) :
    Respects env S (writeWithin style n path indent holder key v) := by
  induction n generalizing path indent holder key v with
  | zero => exact .failLibrary .rangeError
  | succ n ih =>
    unfold writeWithin
    refine (respects_standIn h holder key v).bind fun v => ?_
    cases v with
    | object id =>
      dsimp only
      have hpart (key : Text) : Respects env S (do
          let part ← Property.get (.object id) key
          writeWithin style n (id :: path) (indent ++ style.gap) (.object id) key part) :=
        (Property.respects_get _ _).bind fun part => ih _ _ _ _ _
      split
      · exact .typeError_bind _
      · refine Store.respects_listedItems?.bind fun items => ?_
        cases items with
        | some items => grind
        | none =>
          cases hk : style.keys with
          | some keys => grind
          | none => grind
    | _ => grind

@[grind ←] theorem respects_write {style : Style}
    (h : ∀ holder key v, Respects env S (style.replace holder key v)) (v : Value) :
    Respects env S (write style v) := by
  unfold write
  refine Store.respects_depth.bind fun depth => ?_
  refine Store.respects_newRecord.bind fun holder => ?_
  exact respects_writeWithin (fun _ _ _ => (h _ _ _)) _ _ _ _ _ _

end Stringify

namespace Present

@[grind ←] theorem respects_isNode (v : Value) : Respects env S (isNode v) := by
  unfold isNode
  exact Tree.respects_isNode _

@[grind ←] theorem respects_node? (v : Value) : Respects env S (node? v) := by
  unfold node?
  refine .ite (.pure _) ?_
  refine (Property.respects_family? _).bind fun found => ?_
  refine .ite ?_ ?_
  · exact (Convert.respects_invoke _ _ _).bind fun node => .pure _
  · exact (Tree.respects_isNode _).bind fun b => .pure _

@[grind ←] theorem respects_isOf (f : Family) (v : Value) : Respects env S (isOf f v) := by
  unfold isOf
  exact (Property.respects_family? _).bind fun found => .pure _

@[grind ←] theorem respects_isPlainObject (v : Value) : Respects env S (isPlainObject v) := by
  unfold isPlainObject
  cases v with
  | object =>
    refine Store.respects_cell.bind fun cell => ?_
    cases cell with
    | record => split <;> exact .pure _
    | _ => exact .pure _
  | _ => exact .pure _

@[grind ←] theorem respects_isObjectShaped (v : Value) : Respects env S (isObjectShaped v) := by
  unfold isObjectShaped
  refine (respects_node? _).bind fun found => ?_
  refine .ite (.pure _) ?_
  refine Store.respects_isArray.bind fun b => ?_
  refine (respects_isOf _ _).bind fun b => ?_
  exact (respects_isPlainObject _).bind fun b => .pure _

@[grind ←] theorem respects_recordOf (entries : List (Value × Value)) :
    Respects env S (recordOf entries) := by
  unfold recordOf
  refine .bind ?_ fun pairs => ?_
  · refine .mapM (fun a => ?_) _
    split
    · split
      · exact .pure _
      · exact (Convert.respects_toText _).bind fun t => .pure _
  · exact Store.respects_newRecord

@[grind ←] theorem respects_mapEntries (v : Value) : Respects env S (mapEntries v) := by
  unfold mapEntries
  cases v with
  | object =>
    refine Store.respects_cell.bind fun cell => ?_
    cases cell with
    | map => exact .pure _
    | _ => exact .typeError
  | _ => exact .typeError

@[grind ←] theorem respects_jsonForm (v : Value) : Respects env S (jsonForm v) := by
  unfold jsonForm
  refine (respects_node? _).bind fun found => ?_
  cases found with
  | none =>
    refine (respects_isOf _ _).bind fun b => ?_
    refine .ite ?_ ?_
    · exact (respects_mapEntries _).bind fun items => respects_recordOf _
    · refine (respects_isOf _ _).bind fun b => ?_
      refine .ite ?_ ?_
      · exact (Sequence.respects_iterate _).bind fun items => Store.respects_newArray
      · cases v <;> exact .pure _
  | some => exact Tree.respects_serialize _

theorem respects_jsonStyle (holder : Value) (key : Text) (v : Value) :
    Respects env S (jsonStyle.replace holder key v) := respects_jsonForm v

@[grind ←] theorem respects_shown (v : Value) : Respects env S (shown v) := by
  have hstyle (v : Value) : Respects env S (Stringify.write jsonStyle v) :=
    Stringify.respects_write respects_jsonStyle v
  unfold shown
  cases v <;> grind

@[grind ←] theorem respects_toText (v : Value) : Respects env S (toText v) := by
  unfold toText
  exact (respects_shown _).bind fun v => Tree.respects_expectText _

@[grind ←] theorem respects_toBool (v : Value) : Respects env S (toBool v) := by
  unfold toBool
  refine Store.respects_arrayLength?.bind fun found => ?_
  cases found with
  | none =>
    refine (respects_isOf _ _).bind fun b => ?_
    refine (respects_isOf _ _).bind fun b => ?_
    refine .ite ?_ (.pure _)
    refine (Property.respects_get _ _).bind fun v => ?_
    exact (Convert.respects_numberOf _).bind fun x => .pure _
  | some => exact .pure _

@[grind ←] theorem respects_notIterable (v : Value) (expression : Text) :
    Respects env S (notIterable v expression) := by
  unfold notIterable
  refine .ite ?_ ?_
  · exact (respects_toText _).bind fun name => .throw _
  · exact .bind (.pure _) fun name => .throw _

@[grind ←] theorem respects_entriesOf (v : Value) (expression : Text) :
    Respects env S (entriesOf v expression) := by
  unfold entriesOf
  split
  · exact .pure []
  · refine Store.respects_listedItems?.bind fun items => ?_
    cases items with
    | some items => exact .pure _
    | none =>
      refine (respects_isOf .map v).bind fun isMap => ?_
      refine .ite ?_ ?_
      · exact (respects_mapEntries _).bind fun items => .pure _
      · refine (respects_isOf _ _).bind fun b => ?_
        refine .ite ?_ ?_
        · exact (Sequence.respects_iterate _).bind fun items => .pure _
        · refine (respects_node? _).bind fun found => ?_
          refine .ite (respects_notIterable _ _) ?_
          refine (Property.respects_ownEntries _).bind fun items => ?_
          refine .mapM (fun a => ?_) _
          exact (Property.respects_get _ _).bind fun v => .pure _

omit [KeptByReads env S] in
@[grind ←] theorem respects_expectEntry (entry : Option (Value × Value)) :
    Respects env S (expectEntry entry) := by
  unfold expectEntry
  cases entry with
  | none => exact .typeError
  | some => exact .pure _

@[grind ←] theorem respects_toJson (v : Value) : Respects env S (toJson v) := by
  have hstyle (v : Value) : Respects env S (Stringify.write jsonStyle v) :=
    Stringify.respects_write respects_jsonStyle v
  unfold toJson
  grind

end Present

namespace Form

@[grind ←] theorem respects_controls (form name : Value) : Respects env S (controls form name) := by
  unfold controls
  refine (Tree.respects_selectAll _ _).bind fun items => ?_
  refine .filterM (fun a => ?_) _
  exact (Tree.respects_getAttribute _ _).bind fun v => .pure _

@[grind ←] theorem respects_attributeOr (v : Value) (name : Text) {default : M Value}
    (h : Respects env S default) : Respects env S (attributeOr v name default) := by
  unfold attributeOr
  refine (Tree.respects_getAttribute v _).bind fun a => ?_
  split
  · exact h
  · exact h
  · exact .pure _

@[grind ←] theorem respects_inputKind (input : Value) : Respects env S (inputKind input) := by
  unfold inputKind
  refine .bind ?_ fun v => ?_
  · exact respects_attributeOr _ _ (.pure _)
  · cases v with
    | text => exact .pure _
    | _ => exact Convert.respects_invoke _ _ _

@[grind ←] theorem respects_childNameOf (name key : Value) :
    Respects env S (childNameOf name key) := by
  unfold childNameOf
  cases name with
  | text =>
    cases key with
    | text => exact .pure _
    | _ =>
      refine (Convert.respects_invoke _ _ _).bind fun v => ?_
      refine .ite ?_ ?_
      · exact (Convert.respects_invoke _ _ _).bind fun v => Convert.respects_invoke _ _ _
      · refine (Convert.respects_toText _).bind fun name => ?_
        exact (Convert.respects_toText _).bind fun t => .pure _
  | _ =>
    refine (Convert.respects_invoke _ _ _).bind fun v => ?_
    refine .ite ?_ ?_
    · exact (Convert.respects_invoke _ _ _).bind fun v => Convert.respects_invoke _ _ _
    · refine (Convert.respects_toText _).bind fun name => ?_
      exact (Convert.respects_toText _).bind fun t => .pure _

end Form

end Reads

section Writes

variable [KeptByWrites env S]

namespace Form

@[grind ←] theorem respects_setFlag (v : Value) (name : Text) (on : Bool) :
    Respects env S (setFlag v name on) := by
  unfold setFlag
  exact .ite (Tree.respects_setAttribute _ _ _) (Tree.respects_removeAttribute _ _)

@[grind ←] theorem respects_choose (menu value : Value) : Respects env S (choose menu value) := by
  unfold choose
  refine (Tree.respects_selectAll _ _).bind fun items => ?_
  refine .forM (fun a => ?_) _
  refine .bind ?_ fun own => ?_
  · exact respects_attributeOr _ _ (Tree.respects_textContent _)
  · exact respects_setFlag _ _ _

@[grind ←] theorem respects_enter (input value : Value) : Respects env S (enter input value) := by
  unfold enter
  refine (respects_inputKind _).bind fun kind => ?_
  refine .ite ?_ (Tree.respects_setAttribute _ _ _)
  refine .bind ?_ fun own => ?_
  · exact respects_attributeOr _ _ (.pure _)
  · exact respects_setFlag _ _ _

@[grind ←] theorem respects_setControl (value field : Value) :
    Respects env S (setControl value field) := by
  unfold setControl
  refine (Tree.respects_tag _).bind fun tag => ?_
  refine .ite ?_ ?_
  · exact Tree.respects_setTextContent _ _
  · exact .ite (respects_choose _ _) (respects_enter _ _)

@[grind ←] theorem respects_setField (form name value : Value) :
    Respects env S (setField form name value) := by
  unfold setField
  refine (respects_controls _ _).bind fun fields => ?_
  refine .ite ?_ ?_
  · exact (Tree.respects_create _).bind fun input => Tree.respects_append _ _
  · exact .forM (fun a => (respects_setControl _ _)) _

@[grind ←] theorem respects_populateWithin (form : Value) (n : Nat) (v name : Value) :
    Respects env S (populateWithin form n v name) := by
  induction n generalizing v name with
  | zero => exact .failLibrary .rangeError
  | succ n ih =>
    unfold populateWithin
    refine (Present.respects_isObjectShaped _).bind fun b => ?_
    refine .ite ?_ ?_
    · refine (respects_setField _ _ _).bind fun _ => ?_
      refine (Present.respects_entriesOf _ _).bind fun items => ?_
      refine .forM (fun a => ?_) _
      refine (Present.respects_expectEntry _).bind fun a => ?_
      refine (Present.respects_shown _).bind fun v => ?_
      exact (respects_childNameOf _ _).bind fun v => ih _ _
    · exact (Present.respects_shown _).bind fun v => respects_setField _ _ _

@[grind ←] theorem respects_populate (form v name : Value) :
    Respects env S (populate form v name) := by
  unfold populate
  exact Store.respects_depth.bind fun n => respects_populateWithin _ _ _ _

end Form

end Writes

section Reads

variable [KeptByReads env S]

namespace Handle

@[grind ←] theorem respects_node (this : Value) : Respects env S (node this) := by
  unfold node
  exact Property.respects_get _ _

@[grind ←] theorem respects_readAttribute (v name : Value) :
    Respects env S (readAttribute v name) := by
  unfold readAttribute
  refine (Tree.respects_getAttribute _ _).bind fun v => ?_
  cases v <;> exact .pure _

end Handle

end Reads

section Writes

variable [KeptByWrites env S]

namespace Handle

@[grind ←] theorem respects_writeAttribute (v name value : Value) :
    Respects env S (writeAttribute v name value) := by
  unfold writeAttribute
  refine (Tree.respects_attributeMap _).bind fun attributes => ?_
  refine (Convert.respects_display _).bind fun t => ?_
  refine (Present.respects_shown _).bind fun v => ?_
  exact .discard (Convert.respects_invoke _ _ _)

@[grind ←] theorem respects_populateFrom (v data : Value) :
    Respects env S (populateFrom v data) := by
  unfold populateFrom
  refine (Property.respects_get _ _).bind fun v => ?_
  refine .ite ?_ (.pure _)
  refine (Present.respects_entriesOf _ _).bind fun items => ?_
  refine .forM (fun a => ?_) _
  refine (Present.respects_expectEntry _).bind fun a => ?_
  exact (Present.respects_shown _).bind fun v => Form.respects_populate _ _ _

@[grind ←] theorem respects_call (m : HandleMethod) (this : Value) (arguments : List Value) :
    Respects env S (call m this arguments) := by
  unfold call
  refine (respects_node _).bind fun v => ?_
  cases m with
  | addClass =>
    refine (Present.respects_shown _).bind fun v => ?_
    exact (Tree.respects_addClass _ _).bind fun _ => .pure _
  | getAttribute => exact respects_readAttribute _ _
  | hasAttribute => exact Tree.respects_hasAttribute _ _
  | populateFrom => exact (respects_populateFrom _ _).bind fun _ => .pure _
  | removeAttribute => exact (Tree.respects_removeAttribute _ _).bind fun _ => .pure _
  | setAttribute => exact (respects_writeAttribute _ _ _).bind fun _ => .pure _
  | unwrap => exact .pure _
  | readTag => exact Property.respects_get _ _
  | readText => exact Tree.respects_textContent _
  | writeText => exact (Tree.respects_setTextContent _ _).bind fun _ => .pure _

end Handle

end Writes

section Reads

variable [KeptByReads env S]

namespace Marker

@[grind ←] theorem respects_keepUnmarked (place : Text) (v : Value) :
    Respects env S (keepUnmarked place v) := by
  unfold keepUnmarked
  refine (Convert.respects_invoke _ _ _).bind fun start => ?_
  refine .ite (.pure _) ?_
  refine (Convert.respects_add _ _).bind fun behind => ?_
  exact (Convert.respects_invoke _ _ _).bind fun stop => .ite (.throw _) .typeError

end Marker

end Reads

section Writes

variable [KeptByWrites env S]

namespace Marker

@[grind ←] theorem respects_substitute {evaluate : Text → M Value} {encode : Value → M Value}
    (he : ∀ code, Respects env S (evaluate code)) (hc : ∀ v, Respects env S (encode v))
    (place t : Text) : Respects env S (substitute evaluate encode place t) := by
  unfold substitute
  refine .bind ?_ fun parts => ?_
  · refine .mapM (fun a => ?_) _
    refine (he _).bind fun v => ?_
    refine (hc _).bind fun v => ?_
    exact (Convert.respects_toSuffix _).bind fun t => .pure _
  · exact .check (.throw _) (.pure _)

end Marker

end Writes

end PageTemplate
