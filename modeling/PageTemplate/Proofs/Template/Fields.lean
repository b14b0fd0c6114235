import PageTemplate.Proofs.Template.Blocks
import PageTemplate.Proofs.Tree.Query

/-!
# PageTemplate.Proofs.Template.Fields

The hidden fields of a form that is filled from nothing. A field is found by its name, and a name
without a field gets a new one.

Expansion in place is rendering. Going through the siblings that there were at the beginning, while
they are replaced in the list of their parent, yields the rendered nodes of each of them, one behind
another; and this holds at every depth.
-/

namespace PageTemplate

namespace View

/-- Whether two views differ in nothing but the attributes of some nodes. -/
structure SameLinks (V : View) (ids : List ObjectId) (V' : View) : Prop where
  core : V'.core = V.core
  parent : V'.parent = V.parent
  children : V'.children = V.children
  attributes : ∀ x ∉ ids, V'.attributes x = V.attributes x

theorem SameLinks.refl (V : View) (ids : List ObjectId) : V.SameLinks ids V :=
  ⟨rfl, rfl, rfl, fun _ _ => rfl⟩

theorem SameLinks.agree {V V' : View} {ids : List ObjectId} (h : V.SameLinks ids V') {x : ObjectId}
    (hx : x ∉ ids) : Agree V V' x :=
  ⟨congrFun h.core x, congrFun h.children x, h.attributes x hx⟩

theorem SameLinks.mono {V V' : View} {ids more : List ObjectId} (h : V.SameLinks ids V')
    (hsub : ids ⊆ more) : V.SameLinks more V' :=
  ⟨h.core, h.parent, h.children, fun x hx => h.attributes x fun hm => hx (hsub hm)⟩

end View

namespace Form

open Expander (Fields fieldTree)

variable {x : Expander} {env : Env} {w : World} {V V1 : View} {form : ObjectId} {fields : Fields}

/-! Fields. -/

/-- Whether an element has a certain name. -/
def isNamed (V : View) (name : Value) (id : ObjectId) : Bool :=
  (Value.ofOption ((V.attributes id).find? (.text "name"))).strictlyEqual name

theorem isNamed_field {id : ObjectId} {field : Value × Value} (h : V.Represents id (fieldTree field))
    (name : Value) : isNamed V name id = field.1.strictlyEqual name := by
  rw [isNamed, Entries.find?, h.2.1]
  rfl

theorem representsAll_cons_fields {ids : List ObjectId} {field : Value × Value} :
    V.RepresentsAll ids ((field :: fields).map fieldTree) ↔
      ∃ id rest, ids = id :: rest ∧ V.Represents id (fieldTree field) ∧
        V.RepresentsAll rest (fields.map fieldTree) :=
  Iff.rfl

/-- What all fields have in common. -/
theorem field_of_mem {ids : List ObjectId} (h : V.RepresentsAll ids (fields.map fieldTree)) :
    ∀ c ∈ ids, V.core c = some (.element (.text "input")) ∧ V.children c = [] := by
  induction fields generalizing ids with
  | nil =>
    rw [View.representsAll_nil.1 h]
    simp
  | cons field fields ih =>
    obtain ⟨id, rest, rfl, hfield, hrest⟩ := representsAll_cons_fields.1 h
    refine List.forall_mem_cons.2 ⟨⟨hfield.1, View.representsAll_nil.1 hfield.2.2⟩, ih hrest⟩

/-- Fields stay as they are when nothing about their places changes. -/
theorem field_frame {V' : View} {id : ObjectId} {field : Value × Value}
    (h : V.Represents id (fieldTree field)) (hag : View.Agree V V' id) :
    V'.Represents id (fieldTree field) := by
  refine ⟨hag.core.trans h.1, ?_, ?_⟩
  · rw [hag.attributes]
    exact h.2.1
  · rw [hag.children]
    exact h.2.2

theorem fields_frame {V' : View} {ids : List ObjectId}
    (h : V.RepresentsAll ids (fields.map fieldTree)) (hag : ∀ c ∈ ids, View.Agree V V' c) :
    V'.RepresentsAll ids (fields.map fieldTree) := by
  induction fields generalizing ids with
  | nil =>
    rw [View.representsAll_nil.1 h]
    exact View.representsAll_nil.2 rfl
  | cons field fields ih =>
    obtain ⟨id, rest, rfl, hfield, hrest⟩ := representsAll_cons_fields.1 h
    exact representsAll_cons_fields.2 ⟨id, rest, rfl, field_frame hfield (hag id List.mem_cons_self),
      ih hrest fun c hc => hag c (List.mem_cons_of_mem id hc)⟩

/-- The fields with a name are found. -/
theorem run'_controls (hs : Shows w V) (hf : V.IsForest) {tag : Text}
    (he : V.core form = some (.element (.text tag))) (hroot : V.parent form = none)
    (h : V.RepresentsAll (V.children form) (fields.map fieldTree)) (name : Value) :
    M.run' env w (controls (.object form) name) =
      (.ok (((V.children form).filter (isNamed V name)).map .object), w) := by
  have hall := field_of_mem h
  rw [controls, M.run'_bind_ok (Tree.run'_selectControls hs hf he hroot hall)]
  refine M.run'_filterM fun c hc => ?_
  rw [M.run'_bind_ok (Tree.run'_getAttribute hs (hall c hc).1 _)]
  rfl

/-! Setting a field. -/

/-- Setting a field that there is. -/
theorem leads_setControl (hs : Shows w V) (hg : V.IsRegular) {id : ObjectId}
    {field : Value × Value} (h : V.Represents id (fieldTree field)) (value : Value) :
    Leads env w V (setControl value (.object id)) fun _ V' =>
      ∃ es : Entries, V' = V.setAttributes id es ∧ V'.Represents id (fieldTree (field.1, value)) := by
  obtain ⟨hcore, ha, hch⟩ := h
  have hrec := hs.record id _ hcore
  have htype : M.run' env w (Tree.getAttribute (.object id) (.text "type")) =
      (.ok (.text "hidden"), w) := by
    rw [Tree.run'_getAttribute hs hcore, Entries.find?, ha]
    rfl
  have hkind : M.run' env w (inputKind (.object id)) = (.ok (.text "hidden"), w) := by
    have hattr : M.run' env w (attributeOr (.object id) "type" (return .text "text")) =
        (.ok (.text "hidden"), w) := by
      rw [attributeOr, M.run'_bind_ok htype]
      rfl
    rw [inputKind, M.run'_bind_ok hattr]
    rfl
  have hput : Leads env w V
      (Tree.putEntry (.object (Tree.attributesOf id)) (.text "value") value) _ :=
    Tree.leads_putEntry hs hg hcore (.text "value") value
  have hset : setControl value (.object id) =
      (do let tag ← Tree.tag (.object id)
          if tag.strictlyEqual (.text "textarea") then Tree.setTextContent (.object id) value
          else if tag.strictlyEqual (.text "select") then choose (.object id) value
          else enter (.object id) value) := rfl
  rw [hset]
  refine .bind_of_run (Tree.run'_tag hrec) ?_
  rw [if_neg (by decide), if_neg (by decide), enter]
  refine .bind_of_run hkind ?_
  rw [if_neg (by decide), Tree.setAttribute]
  refine .bind_of_run (Tree.run'_attributeMap hrec rfl) (hput.imp ?_)
  rintro _ V' rfl
  refine ⟨_, rfl, hcore, ?_, hch⟩
  have hhas : (V.attributes id).has (.text "value") = true := by
    rw [Entries.has, Entries.find?, ha]
    rfl
  rw [View.setAttributes_attributes, Entries.put, if_pos hhas, Entries.live_map, ha]
  rfl

/-- The value of a field with a certain name. -/
def update (name value : Value) (field : Value × Value) : Value × Value :=
  if field.1.strictlyEqual name then (field.1, value) else field

/-- Setting all fields with a name. -/
theorem leads_setControls (name value : Value) (fields : Fields) :
    ∀ {w : World} {V : View} {ids : List ObjectId}, Shows w V → V.IsRegular → ids.Nodup →
      V.RepresentsAll ids (fields.map fieldTree) →
      Leads env w V (((ids.filter (isNamed V name)).map .object).forM (setControl value))
        fun _ V' => V.SameLinks ids V' ∧
          V'.RepresentsAll ids ((fields.map (update name value)).map fieldTree) := by
  induction fields with
  | nil =>
    intro w V ids hs hg _ h
    rw [View.representsAll_nil.1 h]
    exact .of_does (.pure hs ()) hg ⟨.refl V [], View.representsAll_nil.2 rfl⟩
  | cons field fields ih =>
    intro w V ids hs hg hn h
    obtain ⟨id, rest, rfl, hfield, hrest⟩ := representsAll_cons_fields.1 h
    obtain ⟨hid, hn'⟩ := List.nodup_cons.1 hn
    rw [List.map_cons]
    cases hname : field.1.strictlyEqual name with
    | false =>
      have hnamed : isNamed V name id = false := (isNamed_field hfield name).trans hname
      have hkeep : update name value field = field := by simp [update, hname]
      rw [List.filter_cons_of_neg (by simp [hnamed]), hkeep]
      refine (ih hs hg hn' hrest).imp ?_
      rintro _ V' ⟨hsame, hrep⟩
      exact ⟨hsame.mono (List.subset_cons_self id rest), representsAll_cons_fields.2
        ⟨id, rest, rfl, field_frame hfield (hsame.agree hid), hrep⟩⟩
    | true =>
      have hnamed : isNamed V name id = true := (isNamed_field hfield name).trans hname
      have hchange : update name value field = (field.1, value) := by simp [update, hname]
      rw [List.filter_cons_of_pos hnamed, hchange]
      refine Leads.bind (leads_setControl hs hg hfield value) ?_
      rintro _ w2 _ hs2 hg2 ⟨es, rfl, hfield2⟩
      have hattr : ∀ c ∈ rest, (V.setAttributes id es).attributes c = V.attributes c := by
        intro c hc
        have hne : c ≠ id := fun he => hid (he ▸ hc)
        simp [View.setAttributes, hne]
      have hfilter : rest.filter (isNamed V name) =
          rest.filter (isNamed (V.setAttributes id es) name) :=
        List.filter_congr fun c hc => by rw [isNamed, isNamed, hattr c hc]
      rw [hfilter]
      have hrest2 : (V.setAttributes id es).RepresentsAll rest (fields.map fieldTree) :=
        fields_frame hrest fun c hc => ⟨rfl, rfl, hattr c hc⟩
      refine (ih hs2.shows hg2 hn' hrest2).imp ?_
      rintro _ V' ⟨hsame, hrep⟩
      refine ⟨⟨hsame.core, hsame.parent, hsame.children, fun x hx => ?_⟩,
        representsAll_cons_fields.2 ⟨id, rest, rfl, field_frame hfield2 (hsame.agree hid), hrep⟩⟩
      have hxid : x ≠ id := fun he => hx (by simp [he])
      rw [hsame.attributes x fun hm => hx (List.mem_cons_of_mem id hm)]
      simp [View.setAttributes, hxid]

/-- The form that the fields are made in. -/
abbrev formCore : NodeCore := .element (.text "form")

/-- A form all of whose fields were set. -/
theorem built_sameLinks {V' : View} (hf : V.IsForest) {trees : List NodeTree}
    (hb : V.Built form formCore trees V1) (hf1 : V1.IsForest)
    (hsame : V1.SameLinks (V1.children form) V') {us : List NodeTree}
    (hrep : V'.RepresentsAll (V1.children form) us) : V.Built form formCore us V' := by
  refine ⟨⟨fun x core hx => ?_, fun x core hx => ?_⟩, hb.fresh, ?_, ?_, ?_⟩
  · refine (hb.extend.agree x core hx).trans (hsame.agree fun hm => ?_)
    -- An old node is no child of the new form.
    have hpar := (hf1.mem_children form x).1 hm
    rw [hb.extend.parent x core hx] at hpar
    obtain ⟨_, hform, _⟩ := hf.container x form hpar
    rw [hb.fresh] at hform
    cases hform
  · rw [hsame.parent, hb.extend.parent x core hx]
  · rw [hsame.core, hb.core]
  · rw [hsame.parent, hb.root]
  · rw [hsame.children]
    exact hrep

/-- There is a field with a name when an element has it. -/
theorem isEmpty_named {ids : List ObjectId} (h : V.RepresentsAll ids (fields.map fieldTree))
    (name : Value) : (ids.filter (isNamed V name)).isEmpty =
      !(fields.any fun f => f.1.strictlyEqual name) := by
  induction fields generalizing ids with
  | nil =>
    rw [View.representsAll_nil.1 h]
    rfl
  | cons field fields ih =>
    obtain ⟨id, rest, rfl, hfield, hrest⟩ := representsAll_cons_fields.1 h
    rw [List.filter_cons, isNamed_field hfield, List.any_cons]
    cases field.1.strictlyEqual name with
    | true => simp
    | false => simpa using ih hrest

/-- Setting a field that there is not. -/
theorem does_setField_new (env : Env) (hs : Shows w V1) (hg : V1.IsRegular)
    (hb : V.Built form formCore (fields.map fieldTree) V1) (name value : Value)
    (hnone : (fields.any fun f => f.1.strictlyEqual name) = false) :
    ∃ V', Does env w V1 (setField (.object form) name value) () V' ∧ V'.IsRegular ∧
      V.Built form formCore ((fields ++ [(name, value)]).map fieldTree) V' := by
  have hcontrols : M.run' env w (controls (.object form) name) =
      (.ok (((V1.children form).filter (isNamed V1 name)).map .object), w) :=
    run'_controls hs hg.toIsForest hb.core hb.root hb.represents name
  let attributes : List (Value × Value) :=
    [(.text "type", .text "hidden"), (.text "name", name), (.text "value", value)]
  have hlive : (Entries.ofList attributes).live = attributes := rfl
  have hinner : (NodeCore.element (.text "input")).isInner := rfl
  obtain ⟨l, hnew, hg', hdoes⟩ := Tree.does_appendNew env hs hg hb.core rfl hinner
    (fun _ ht => ⟨_, (NodeCore.element.inj ht).symm⟩) (.ofList attributes)
  refine ⟨_, .bind_of_run hcontrols ?_, hg', ?_⟩
  · rw [List.isEmpty_map, isEmpty_named hb.represents, hnone]
    exact hdoes
  · rw [List.map_append]
    refine hb.append hg.toIsForest hnew rfl ⟨by simp [View.add], ?_, ?_⟩
    · simpa [View.add] using hlive
    · simp [View.add]

/-- Setting a field of a form, or adding it. -/
theorem leads_setField (hf : V.IsForest) (hs : Shows w V1) (hg : V1.IsRegular)
    (hb : V.Built form formCore (fields.map fieldTree) V1) (name value : Value) :
    Leads env w V1 (setField (.object form) name value) fun _ V' =>
      V.Built form formCore ((Expander.setField name value fields).map fieldTree) V' := by
  rw [Expander.setField]
  cases hany : fields.any fun f => f.1.strictlyEqual name with
  | true =>
    have hcontrols : M.run' env w (controls (.object form) name) =
        (.ok (((V1.children form).filter (isNamed V1 name)).map .object), w) :=
      run'_controls hs hg.toIsForest hb.core hb.root hb.represents name
    refine .bind_of_run hcontrols ?_
    rw [List.isEmpty_map, isEmpty_named hb.represents, hany]
    simp only [Bool.not_true, Bool.false_eq_true, if_false, if_true]
    refine (leads_setControls name value fields hs hg (hg.nodup form) hb.represents).imp ?_
    rintro _ V' ⟨hsame, hrep⟩
    exact built_sameLinks hf hb hg.toIsForest hsame hrep
  | false =>
    obtain ⟨V', hdoes, hg', hb'⟩ := does_setField_new env hs hg hb name value hany
    exact .of_does hdoes hg' hb'

/-! Fields for values. -/

/-- Whether filling a form with a value amounts to rendering its fields. -/
def Fills (x : Expander) (env : Env) (V : View) (form : ObjectId) (n : Nat) : Prop :=
  ∀ {w : World} {V1 : View} {fields : Fields} (v name : Value),
    V.Built form formCore (fields.map fieldTree) V1 →
    Simulates x env w V1 (populateWithin (.object form) n v name)
      (Expander.renderFields n v name fields)
      fun _ fields' V' => V.Built form formCore (fields'.map fieldTree) V'

theorem simulates_entry {n : Nat} (ih : Fills x env V form n) (name key child : Value)
    (hb : V.Built form formCore (fields.map fieldTree) V1) :
    Simulates x env w V1
      (do let (key, child) ← Present.expectEntry (some (key, child))
          populateWithin (.object form) n child (← childNameOf name (← Present.shown key)))
      (do let childName ← Script.query (.childName name key)
          Expander.renderFields n child childName fields)
      fun _ fields' V' => V.Built form formCore (fields'.map fieldTree) V' := by
  refine Simulates.run (a := (key, child)) (fun _ => rfl) ?_
  dsimp only
  rw [← bind_assoc]
  exact Simulates.ask (.childName name key) rfl fun childName w2 => ih child childName hb

theorem simulates_entries {n : Nat} (ih : Fills x env V form n) (name : Value)
    (entries : List (Option (Value × Value))) : ∀ {w : World} {V1 : View} {fields : Fields},
      V.Built form formCore (fields.map fieldTree) V1 →
      Simulates x env w V1
        (entries.forM fun entry => do
          let (key, child) ← Present.expectEntry entry
          populateWithin (.object form) n child (← childNameOf name (← Present.shown key)))
        (Expander.renderFields.go n name entries fields)
        fun _ fields' V' => V.Built form formCore (fields'.map fieldTree) V' := by
  induction entries with
  | nil =>
    intro w V1 fields hb
    rw [Expander.renderFields.go]
    exact .pure hb
  | cons entry entries hrest =>
    intro w V1 fields hb
    cases entry with
    | none => exact .of_error rfl
    | some entry =>
      obtain ⟨key, child⟩ := entry
      rw [Expander.renderFields.go, ← bind_assoc]
      exact Simulates.bind (simulates_entry ih name key child hb) fun _ _ _ _ hb2 _ => hrest hb2

/-- Filling a form with a value. -/
theorem simulates_populateWithin (hf : V.IsForest) (n : Nat) : Fills x env V form n := by
  induction n with
  | zero => exact fun v name _ => .of_error rfl
  | succ n ih =>
    intro w V1 fields v name hb
    rw [populateWithin, Expander.renderFields]
    refine Simulates.ask (.isObjectShaped v) rfl fun shaped w2 => ?_
    cases shaped with
    | true =>
      simp only [if_true]
      refine Simulates.tree (fun hs hg => leads_setField hf hs hg hb name (.text [])) ?_
      intro _ w3 V3 hb3 _
      refine Simulates.ask (.entries v []) rfl fun entries w4 => ?_
      exact simulates_entries ih name entries hb3
    | false =>
      simp only [Bool.false_eq_true, if_false]
      refine Simulates.ask (.shown v) rfl fun shown w3 => ?_
      exact Simulates.last (fun hs hg => leads_setField hf hs hg hb name shown) fun _ _ h _ => h

end Form

namespace Expander

open Markup (Node)

variable {x : Expander} {env : Env} {w : World} {V : View} {scope : ScopeId} {p c : ObjectId}
  {pcore : NodeCore} {tag : Text} {attributes : Markup.Attributes} {children : List Node}

/-- The hidden fields for a value. -/
theorem simulates_expandFormData (hp : V.core p = some pcore) (hc : V.parent c = some p)
    (h : V.Represents c (Node.element tag attributes children).tree) :
    Simulates x env w V (x.expandFormData (.object c) scope)
      (renderFormData attributes scope) fun _ ts V' => V.Yields p c ts V' := by
  refine .regular fun _ hg => ?_
  refine Simulates.bind (simulates_requireAttribute h.1 h.2.1 _) ?_
  rintro _ source w1 V ⟨rfl, rfl⟩ _
  refine Simulates.bind (simulates_requireAttribute h.1 h.2.1 _) ?_
  rintro _ name w2 V ⟨rfl, rfl⟩ _
  refine Simulates.tree (fun hs hg => Tree.leads_add hs hg fun _ ht =>
    ⟨_, (NodeCore.element.inj ht).symm⟩) ?_
  rintro form w3 _ ⟨hnew, rfl⟩ _
  have hb : V.Built form Form.formCore (([] : Fields).map fieldTree)
      (V.add form Form.formCore (.ofList [])) := .start hnew _ _
  refine Simulates.run (a := source) (fun _ => rfl) ?_
  refine Simulates.ask (.evaluate scope source) rfl fun v w4 => ?_
  rw [Form.populate, bind_assoc]
  refine Simulates.ask .depth rfl fun depth w5 => ?_
  refine Simulates.bind (Form.simulates_populateWithin hg.toIsForest depth v (.text name) hb) ?_
  intro _ fields w6 V6 hb6 hg6
  refine Simulates.tree (fun hs hg6 => leads_fragmentOf hg.toIsForest hs hg6 hb6.extend hnew
    ⟨_, hb6.core, rfl⟩ hb6.represents [] []) ?_
  rintro _ w7 V7 ⟨f, rfl, hb7⟩ _
  rw [List.map_nil, List.nil_append, List.append_nil] at hb7
  refine Simulates.last (fun hs hg7 => Tree.leads_putBuilt hg.toIsForest hc hp hb7 hs hg7) ?_
  exact fun _ _ hy _ => hy

end Expander

/-! Expansion in place. -/

namespace Expander

open Markup (Node)

variable {x : Expander} {env : Env} {w : World} {V : View} {scope : ScopeId} {p c : ObjectId}
  {pcore : NodeCore} {tag : Text} {attributes : Markup.Attributes} {children : List Node}
  {siblings : Siblings} {renderer : Renderer}

/-- Whether no template that can be loaded has inline code that yields markup. -/
def LoadsPlain (x : Expander) : Prop :=
  ∀ name markup nodes, x.loader name = .ok markup →
    Markup.parse (x.readOptions true) markup = .ok nodes → Markup.anyInsertsMarkup nodes = false

/-- What leaves the outcome of the condition before it as it is. -/
theorem simulates_passing {action : M Unit} {s : Script (List NodeTree)}
    (h : Simulates x env w V action s fun _ ts V' => V.Yields p c ts V') (prior : Bool) :
    Simulates x env w V (do action; return prior) (do return (prior, ← s)) (Passes V p c) :=
  Simulates.bind h fun _ _ _ _ hy _ => .pure ⟨rfl, hy⟩

/-- An element that keeps its place. -/
theorem simulates_staying (hp : V.core p = some pcore) (hc : V.parent c = some p)
    {action : M Unit} {s : Script NodeTree}
    (h : Simulates x env w V action s fun _ t V' => V.Rebuilt c V' ∧ V'.Represents c t)
    (prior : Bool) :
    Simulates x env w V (do action; return prior) (do return (prior, [← s])) (Passes V p c) := by
  refine .regular fun _ hg => ?_
  exact Simulates.bind h fun _ _ _ _ hq _ =>
    .pure ⟨rfl, .of_rebuilt hg.toIsForest hp hc hq.1 hq.2⟩

/-- An element among its siblings, by its tag. -/
theorem simulates_expandTagged (hx : x.customTags = []) (hl : x.LoadsPlain)
    (hr : Refines x env siblings renderer) (hp : V.core p = some pcore) (hc : V.parent c = some p)
    (ht : (Node.element tag attributes children).IsTemplate)
    (h : V.Represents c (Node.element tag attributes children).tree) (prior : Bool) :
    Simulates x env w V (x.expandTagged siblings (.object c) tag scope prior)
      (x.renderTagged renderer tag attributes children scope prior) (Passes V p c) := by
  rw [expandTagged, renderTagged]
  cases Assoc.find? tag controlTags with
  | none =>
    rw [hx]
    exact simulates_staying hp hc (simulates_expandElement hr ht h) prior
  | some control =>
    cases control with
    | condition => exact simulates_expandCondition hr hp hc ht.inside h
    | alternative =>
      exact simulates_passing (simulates_expandAlternative hr hp hc ht.inside h prior) prior
    | loop => exact simulates_expandLoop hr hp hc ht h
    | partialTemplate => exact simulates_passing (simulates_expandPartial hl hr hp hc h) prior
    | formData => exact simulates_passing (simulates_expandFormData hp hc h) prior
    | script => exact simulates_staying hp hc (simulates_expandScript h) prior

/-- A leaf that is no inline code stays. -/
theorem simulates_leaf (hp : V.core p = some pcore) (hc : V.parent c = some p) {core : NodeCore}
    (h : V.Represents c (.leaf core)) (hcode : core.kind ≠ .code) (prior : Bool) :
    Simulates x env w V (x.expandSibling siblings scope prior (.object c))
      (pure (prior, [.leaf core])) (Passes V p c) := by
  refine .regular fun _ hg => ?_
  refine Simulates.run (fun hs => Tree.run'_kind (hs.record c _ h.1)) ?_
  have hy := View.yields_self hg.toIsForest hp hc h
  cases core with
  | text | comment | doctype => exact .pure ⟨rfl, hy⟩
  | code => exact absurd rfl hcode
  | element | fragment | document => exact absurd h.2 (by simp [NodeCore.hasChildren])

/-- One of several siblings. -/
theorem simulates_expandSibling (hx : x.customTags = []) (hl : x.LoadsPlain)
    (hr : Refines x env siblings renderer) (hp : V.core p = some pcore) (hc : V.parent c = some p)
    {n : Node} (ht : n.IsTemplate) (h : V.Represents c n.tree) (prior : Bool) :
    Simulates x env w V (x.expandSibling siblings scope prior (.object c))
      (x.renderSibling renderer scope prior n) (Passes V p c) := by
  cases n with
  | element tag attributes children =>
    refine Simulates.run (fun hs => Tree.run'_kind (hs.record c _ h.1)) ?_
    refine Simulates.run (fun hs => Tree.run'_tag (hs.record c _ h.1)) ?_
    exact simulates_expandTagged hx hl hr hp hc ht h prior
  | code source =>
    refine Simulates.run (fun hs => Tree.run'_kind (hs.record c _ h.1)) ?_
    exact simulates_passing (simulates_expandCode hp hc ht.source h.1) prior
  | text value raw => exact simulates_leaf hp hc h nofun prior
  | comment value => exact simulates_leaf hp hc h nofun prior
  | doctype value => exact simulates_leaf hp hc h nofun prior

/-- Siblings from left to right: `done` have been expanded, `rest` have not. -/
theorem simulates_each (hx : x.customTags = []) (hl : x.LoadsPlain)
    (hr : Refines x env siblings renderer) (nodes : List Node) :
    ∀ {w : World} {V : View} {done rest : List ObjectId} {ts : List NodeTree} {prior : Bool},
      V.core p = some pcore → V.children p = done ++ rest → V.RepresentsAll done ts →
      V.RepresentsAll rest (treesOf nodes) → (∀ n ∈ nodes, n.IsTemplate) →
      Simulates x env w V
        ((rest.map Value.object).foldlM (x.expandSibling siblings scope) prior)
        (x.renderEach renderer scope prior nodes) fun _ us V' =>
          V.Rebuilt p V' ∧ V'.attributes p = V.attributes p ∧
            V'.RepresentsAll (V'.children p) (ts ++ us) := by
  induction nodes with
  | nil =>
    intro w V done rest ts prior hp hch hdone hrest _
    rw [View.representsAll_nil.1 hrest, List.append_nil] at hch
    rw [View.representsAll_nil.1 hrest]
    refine .pure ⟨.refl V p, rfl, ?_⟩
    rwa [hch, List.append_nil]
  | cons n nodes ih =>
    intro w V done rest ts prior hp hch hdone hrest ht
    obtain ⟨c, rest, rfl, hc, hrest⟩ := hrest
    refine .regular fun _ hg => ?_
    have hcp : V.parent c = some p := (hg.mem_children p c).1 (by simp [hch])
    have hmem : ∀ d ∈ done ++ rest, V.parent d = some p ∧ d ≠ c := by
      intro d hd
      refine ⟨(hg.mem_children p d).1 ?_, ?_⟩
      · rw [hch]
        simpa [or_left_comm] using .inr (List.mem_append.1 hd)
      · rintro rfl
        have hn := hg.nodup p
        rw [hch, List.nodup_middle, List.nodup_cons] at hn
        exact hn.1 hd
    rw [List.map_cons, List.foldlM_cons, renderEach]
    refine Simulates.bind (simulates_expandSibling hx hl hr hp hcp (ht n List.mem_cons_self) hc
      prior) ?_
    rintro _ ⟨outcome, us⟩ w1 V1 ⟨rfl, rs, hrep, hus⟩ _
    have hch1 := hrep.children done rest hch
    have hdone1 := hrep.representsAll hg.toIsForest hcp
      (fun d hd => hmem d (List.mem_append_left rest hd)) hdone
    have hrest1 := hrep.representsAll hg.toIsForest hcp
      (fun d hd => hmem d (List.mem_append_right done hd)) hrest
    refine (ih (hrep.core.trans hp) hch1 (View.representsAll_append hdone1 hus) hrest1
      fun m hm => ht m (List.mem_cons_of_mem n hm)).map ?_
    rintro _ more V' ⟨hreb, hattr, hall⟩
    refine ⟨(hrep.rebuilt hcp).trans hg.toIsForest hreb, hattr.trans hrep.attributes, ?_⟩
    rwa [← List.append_assoc]

/-- Expanding siblings down to a depth is rendering them. -/
theorem refines_siblings (hx : x.customTags = []) (hl : x.LoadsPlain) (n : Nat) :
    Refines x env (x.expandSiblings n) (x.renderSiblings n) := by
  induction n with
  | zero =>
    intro w V p core scope nodes _ _ _ _
    exact .of_error rfl
  | succ n ih =>
    intro w V p core scope nodes hp _ ht h
    have hnone : V.RepresentsAll [] [] := View.representsAll_nil.2 rfl
    rw [expandSiblings, renderSiblings, ← bind_pure (x.renderEach _ scope false nodes)]
    refine Simulates.bind (simulates_each hx hl ih nodes hp (List.nil_append _).symm hnone h ht) ?_
    exact fun _ ts _ V' hq _ => .pure hq

/-- An expander for which every expression has the same value. -/
def constantExpander (t : Text) : Expander where
  loader := Loader.ofList []
  evaluate _ _ := return .text t
  customTags := []
  sanitize := none
  debug := false
  maxDepth := 4

/-- A condition around inline code, and an alternative. -/
def sampleNodes : List Node :=
  [.element "if-true" [(Text.ofString "cond", Text.ofString "c")] [.code "= v "],
    .element "or-else" [] [.text "none" false]]

theorem isProduced_sampleNodes : Markup.IsProduced (.of [] true) (.element rootTag [] sampleNodes) :=
  .root (t := "<if-true cond='c'><%= v %></if-true><or-else>none</or-else>") rfl

/-- The sample can be expanded. -/
theorem run'_expand_sampleNodes :
    ∃ w V w' root, Shows w V ∧ V.IsRegular ∧
      V.Represents root (Node.element rootTag [] sampleNodes).tree ∧
      M.run' Env.silent w ((constantExpander "<x>").expand (.object root) 0) = (.ok (), w') := by
  obtain ⟨root, V, ⟨w, hw, ht⟩, hg, hp⟩ :
      ∃ id V, Does Env.silent World.blank View.empty
          (Tree.plant (.element rootTag [] sampleNodes)) id V ∧
        V.IsRegular ∧ View.empty.IsPlanted [id] [.element rootTag [] sampleNodes] V :=
    Tree.does_plant _ (View.shows_empty World.blank) View.isRegular_empty
  have hok : (M.run' Env.silent World.blank (do
      let root ← Tree.plant (.element rootTag [] sampleNodes)
      (constantExpander "<x>").expand (.object root) 0)).1.isOk := by decide +kernel
  rw [M.run'_bind_ok hw] at hok
  rcases hr : M.run' Env.silent w ((constantExpander "<x>").expand (.object root) 0) with
    ⟨_ | _, w'⟩
  · rw [hr] at hok
    cases hok
  · exact ⟨w, V, w', root, ht.shows, hg, (View.representsAll_cons.1 hp.represents).1, hr⟩

theorem keeps_render_sampleNodes (w : World) (V : View) :
    ((constantExpander "<x>").render rootTag [] sampleNodes 0).Keeps (constantExpander "<x>") env
      w V := by
  refine Script.keeps_constant (a := Value.text "<x>") (by rintro _ _ _ rfl; rfl) fun w V => ?_
  refine Script.keeps_constant (a := true) (by rintro _ _ _ rfl; rfl) fun w V => ?_
  refine Script.keeps_constant (a := Value.text "<x>") (by rintro _ _ _ rfl; rfl) fun w V => ?_
  refine Script.keeps_constant (a := Value.text "<x>") (by rintro _ _ _ rfl; rfl) fun w V => ?_
  trivial

end Expander

end PageTemplate
