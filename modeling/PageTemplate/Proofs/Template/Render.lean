import PageTemplate.Proofs.Template.Script
import PageTemplate.Proofs.Tree.Attributes

/-!
# PageTemplate.Proofs.Template.Render

Rendering a template without a store. The markup is read from left to right and never changed; what
comes out is a tree for each node that the page gets. Rendering goes down the markup and knows
nothing of parents, places or copies.

Replacing the markers of a text, and of the attributes of an element, performs the script that
renders them.
-/

namespace PageTemplate

namespace Markup

/-- A text as a leaf. -/
def textLeaf (value : Value) (raw : Bool) : NodeTree := .leaf (.text value (.bool raw))

end Markup

namespace Expander

variable (x : Expander)

/-- A text with the values that are asked for in the place of its markers. -/
def renderMarkers (scope : ScopeId) (encode : Value → Script Text) (t : Text) : Script Text := do
  let c := Marker.cut t
  let parts ← go c.markers
  if c.terminated then return parts.flatten ++ c.tail else .fail
where
  go : List (Text × Text) → Script (List Text)
    | [] => return []
    | (before, code) :: markers => do
      let v ← Script.query (.evaluate scope code)
      let part ← encode v
      let parts ← go markers
      return (before ++ part) :: parts

/-- The value of an attribute with its markers replaced. What an element is finished with is an
expression and holds none. -/
def renderAttribute (scope : ScopeId) (name value : Text) : Script Text :=
  if name == onrenderName then return value
  else renderMarkers scope (fun v => Script.query (.suffix v)) value

/-- Attributes one after another. -/
def renderAttributes (scope : ScopeId) : Markup.Attributes → Script Markup.Attributes
  | [] => return []
  | (name, value) :: attributes => do
    let value ← renderAttribute scope name value
    let attributes ← renderAttributes scope attributes
    return (name, value) :: attributes

/-- An element of a page. -/
def elementTree (tag : Text) (attributes : Markup.Attributes) (children : List NodeTree) : NodeTree :=
  .element (.text tag) (Markup.values attributes) children

/-- Rendering of siblings in a scope. -/
abbrev Renderer := ScopeId → List Markup.Node → Script (List NodeTree)

/-- An element once the expression is evaluated that it is finished with. -/
def renderFinish (tag : Text) (attributes : Markup.Attributes) (children : List NodeTree)
    (scope : ScopeId) : Script NodeTree :=
  match Assoc.find? onrenderName attributes with
  | none => return elementTree tag attributes children
  | some source => do
    let inner ← Script.query (.inner scope)
    let this ← Script.query (.handle (elementTree tag attributes children))
    Script.query (.bind inner "this" this)
    let _ ← Script.query (.evaluate inner source)
    return elementTree tag (Assoc.erase onrenderName attributes) children

/-- An element with its attributes and children rendered. -/
def renderElement (siblings : Renderer) (tag : Text) (attributes : Markup.Attributes)
    (children : List Markup.Node) (scope : ScopeId) : Script NodeTree := do
  let attributes ← renderAttributes scope attributes
  let children ← siblings scope children
  renderFinish tag attributes children scope

/-- The value of an attribute that there must be. -/
def required (name : Text) (attributes : Markup.Attributes) : Script Text :=
  match Assoc.find? name attributes with
  | some value => return value
  | none => .fail

/-- The children of a condition when it holds; and whether it does. -/
def renderCondition (siblings : Renderer) (attributes : Markup.Attributes)
    (children : List Markup.Node) (scope : ScopeId) : Script (Bool × List NodeTree) := do
  let condition ← required "cond" attributes
  let v ← Script.query (.evaluate scope condition)
  let holds ← Script.query (.truth v)
  if holds then return (true, ← siblings scope children) else return (false, [])

/-- The children of an alternative when the condition before it did not hold. -/
def renderAlternative (siblings : Renderer) (children : List Markup.Node) (scope : ScopeId)
    (prior : Bool) : Script (List NodeTree) :=
  if prior then return [] else siblings scope children

/-- The children of a loop for one entry. -/
def renderEntry (siblings : Renderer) (children : List Markup.Node) (scope : ScopeId)
    (itemName : Text) (keyName : Option Text) :
    Option (Value × Value) → Script (List NodeTree)
  | none => .fail
  | some (key, item) => do
    let inner ← Script.query (.inner scope)
    Script.query (.bind inner itemName item)
    match keyName with
    | some (u :: name) =>
      Script.query (.bind inner (u :: name) key)
      siblings inner children
    | _ => siblings inner children

/-- The children of a loop once more for every entry. -/
def renderEntries (siblings : Renderer) (children : List Markup.Node) (scope : ScopeId)
    (itemName : Text) (keyName : Option Text) :
    List (Option (Value × Value)) → Script (List NodeTree)
  | [] => return []
  | entry :: entries => do
    let trees ← renderEntry siblings children scope itemName keyName entry
    let more ← renderEntries siblings children scope itemName keyName entries
    return trees ++ more

/-- What is logged when steps are logged. -/
def logged (words : List Text) : Script Unit := Script.query (.log words)

/-- The children of a loop for every entry of a value; and whether there are any. -/
def renderLoop (siblings : Renderer) (attributes : Markup.Attributes)
    (children : List Markup.Node) (scope : ScopeId) : Script (Bool × List NodeTree) := do
  let source ← required "over" attributes
  let itemName ← required "as" attributes
  let v ← Script.query (.evaluate scope source)
  let entries ← Script.query (.entries v source)
  if entries.isEmpty then return (false, [])
  let keyName := Assoc.find? (Text.ofString "index") attributes
  let trees ← renderEntries siblings children scope itemName keyName entries
  logged ["[TemplateExpander] for-each:", source, "->", Text.ofNat entries.length, "items"]
  return (true, trees)

/-- A comment that marks a partial. -/
def remark (t : Text) : NodeTree := .leaf (.comment (.text (" " ++ t ++ " ")))

/-- The markup of a partial. -/
def partialNodes (file : Text) : Script (List Markup.Node) :=
  match x.loader file with
  | .error _ => .fail
  | .ok markup =>
    match Markup.parse (x.readOptions true) markup with
    | .error _ => .fail
    | .ok nodes => return nodes

/-- What a partial is given as its data. -/
def renderData (inner : ScopeId) : Option Text → Script Unit
  | none => return ()
  | some data =>
    match Json.parse? data with
    | none => .fail
    | some document => do
      let v ← Script.query (.data document)
      Script.query (.bind inner "data" v)

/-- The nodes of a partial, marked when steps are logged. -/
def marked (file : Text) (trees : List NodeTree) : List NodeTree :=
  if x.debug then remark file :: trees ++ [remark ("end " ++ file)] else trees

/-- The rendered nodes of a partial. -/
def renderPartial (siblings : Renderer) (attributes : Markup.Attributes) (scope : ScopeId) :
    Script (List NodeTree) := do
  let file ← required "file" attributes
  let nodes ← x.partialNodes file
  let inner ← Script.query (.inner scope)
  renderData inner (Assoc.find? (Text.ofString "data") attributes)
  let trees ← siblings inner nodes
  logged ["[TemplateExpander] render-template:", file]
  return x.marked file trees

/-- The hidden fields of a form: their names with their values. -/
abbrev Fields := List (Value × Value)

/-- Sets the fields with a name, of which there is one at least afterwards. -/
def setField (name value : Value) (fields : Fields) : Fields :=
  if fields.any fun f => f.1.strictlyEqual name then
    fields.map fun f => if f.1.strictlyEqual name then (f.1, value) else f
  else fields ++ [(name, value)]

/-- The fields for a value and for everything in it. -/
def renderFields : Nat → Value → Value → Fields → Script Fields
  | 0, _, _, _ => .fail
  | n + 1, v, name, fields => do
    if ← Script.query (.isObjectShaped v) then
      let entries ← Script.query (.entries v [])
      go n name entries (setField name (.text []) fields)
    else
      let shown ← Script.query (.shown v)
      return setField name shown fields
where
  go (n : Nat) (name : Value) : List (Option (Value × Value)) → Fields → Script Fields
    | [], fields => return fields
    | none :: _, _ => .fail
    | some (key, child) :: entries, fields => do
      let childName ← Script.query (.childName name key)
      let fields ← renderFields n child childName fields
      go n name entries fields

/-- A hidden field of a form. -/
def fieldTree (field : Value × Value) : NodeTree :=
  .element (.text "input")
    [(.text "type", .text "hidden"), (.text "name", field.1), (.text "value", field.2)] []

/-- The hidden fields for a value. -/
def renderFormData (attributes : Markup.Attributes) (scope : ScopeId) : Script (List NodeTree) := do
  let source ← required "from" attributes
  let name ← required "name" attributes
  let v ← Script.query (.evaluate scope source)
  let depth ← Script.query .depth
  let fields ← renderFields depth v (.text name) []
  return fields.map fieldTree

/-- What inline code yields. -/
def renderCode (source : Text) (scope : ScopeId) : Script (List NodeTree) := do
  match source with
  | u :: code =>
    if u == unit '=' then
      match markupSource? source with
      | some _ => .fail
      | none =>
        let v ← Script.query (.evaluate scope code)
        let shown ← Script.query (.shown v)
        return [Markup.textLeaf shown false]
    else
      let _ ← Script.query (.evaluate scope source)
      return []
  | [] =>
    let _ ← Script.query (.evaluate scope [])
    return []

/-- A script with the markers in its body replaced by JSON. -/
def renderScript (tag : Text) (attributes : Markup.Attributes) (children : List Markup.Node)
    (scope : ScopeId) : Script NodeTree := do
  let source := Markup.serializeAll children
  if Text.includes source Marker.opening then
    let code ← renderMarkers scope (fun v => Script.query (.json v)) source
    return elementTree tag attributes [Markup.textLeaf (.text code) true]
  else return elementTree tag attributes (treesOf children)

/-- An element among its siblings, given the outcome of the condition or loop before it. -/
def renderTagged (siblings : Renderer) (tag : Text) (attributes : Markup.Attributes)
    (children : List Markup.Node) (scope : ScopeId) (prior : Bool) :
    Script (Bool × List NodeTree) := do
  match Assoc.find? tag controlTags with
  | some .condition => renderCondition siblings attributes children scope
  | some .alternative =>
    return (prior, ← renderAlternative siblings children scope prior)
  | some .loop => renderLoop siblings attributes children scope
  | some .partialTemplate => return (prior, ← x.renderPartial siblings attributes scope)
  | some .formData => return (prior, ← renderFormData attributes scope)
  | some .script => return (prior, [← renderScript tag attributes children scope])
  | none => return (prior, [← renderElement siblings tag attributes children scope])

/-- One of several siblings. -/
def renderSibling (siblings : Renderer) (scope : ScopeId) (prior : Bool) :
    Markup.Node → Script (Bool × List NodeTree)
  | .element tag attributes children =>
    x.renderTagged siblings tag attributes children scope prior
  | .code source => do return (prior, ← renderCode source scope)
  | .text value raw => return (prior, [(Markup.Node.text value raw).tree])
  | .comment value => return (prior, [(Markup.Node.comment value).tree])
  | .doctype value => return (prior, [(Markup.Node.doctype value).tree])

/-- Siblings from left to right. -/
def renderEach (siblings : Renderer) (scope : ScopeId) (prior : Bool) :
    List Markup.Node → Script (List NodeTree)
  | [] => return []
  | n :: nodes => do
    let (prior, trees) ← x.renderSibling siblings scope prior n
    let more ← renderEach siblings scope prior nodes
    return trees ++ more

/-- Siblings and everything in them, down to a depth. -/
def renderSiblings : Nat → Renderer
  | 0, _, _ => .fail
  | n + 1, scope, nodes => x.renderEach (renderSiblings n) scope false nodes

/-- **The pure rendering** of an element. -/
def render (tag : Text) (attributes : Markup.Attributes) (children : List Markup.Node)
    (scope : ScopeId) : Script NodeTree :=
  renderElement (x.renderSiblings x.maxDepth) tag attributes children scope

end Expander

/-! Markers of texts and attributes. -/

namespace Expander

variable {x : Expander} {env : Env} {w : World} {V : View} {scope : ScopeId}

/-- The same result, with the trees as they were. -/
def SameResult {α : Type} (V : View) (a b : α) (V' : View) : Prop := a = b ∧ V' = V

/-- Whether what a value is encoded as is what a script asks for. -/
def Encodes (x : Expander) (env : Env) (encode : Value → M Value)
    (part : Value → Script Text) : Prop :=
  ∀ v w V, Simulates x env w V (do Convert.toSuffix (← encode v)) (part v) (SameResult V)

theorem simulates_parts {encode : Value → M Value} {part : Value → Script Text}
    (he : Encodes x env encode part) (markers : List (Text × Text)) :
    Simulates x env w V
      (markers.mapM fun (before, code) => do
        return before ++ (← Convert.toSuffix (← encode (← x.evaluate scope code))))
      (renderMarkers.go scope part markers) (SameResult V) := by
  induction markers generalizing w with
  | nil => exact .pure ⟨rfl, rfl⟩
  | cons marker markers ih =>
    obtain ⟨before, code⟩ := marker
    rw [List.mapM_cons]
    simp only [bind_assoc, pure_bind]
    refine Simulates.ask (.evaluate scope code) rfl fun v w1 => ?_
    rw [← bind_assoc]
    refine Simulates.bind (he v w1 V) ?_
    rintro suffix _ w2 _ ⟨rfl, rfl⟩ _
    refine Simulates.bind ih ?_
    rintro parts _ w3 _ ⟨rfl, rfl⟩ _
    exact .pure ⟨rfl, rfl⟩

/-- Replacing the markers of a text. -/
theorem simulates_substitute {encode : Value → M Value} {part : Value → Script Text}
    (he : Encodes x env encode part) (place t : Text) :
    Simulates x env w V (Marker.substitute (x.evaluate scope) encode place t)
      (renderMarkers scope part t) (SameResult V) := by
  refine Simulates.bind (simulates_parts he (Marker.cut t).markers) ?_
  rintro parts _ w1 _ ⟨rfl, rfl⟩ _
  cases (Marker.cut t).terminated with
  | true => exact .pure ⟨rfl, rfl⟩
  | false => exact .of_error rfl

theorem encodes_shown : Encodes x env Present.shown fun v => Script.query (.suffix v) := by
  intro v w V
  exact Simulates.query (.suffix v) rfl

theorem encodes_json :
    Encodes x env (fun v => do return .text (← Present.toJson v)) fun v => Script.query (.json v) := by
  intro v w V
  have hpure : (do Convert.toSuffix (← (do return .text (← Present.toJson v)))) =
      Present.toJson v := by
    rw [bind_assoc]
    exact bind_pure _
  rw [hpure]
  exact Simulates.query (.json v) rfl

/-- Replacing the markers of one attribute. -/
theorem simulates_expandAttribute {e : ObjectId} {tag : Value}
    (he : V.core e = some (.element tag)) {before behind : Entries} {name value : Text}
    (ha : V.attributes e = before ++ some (.text name, .text value) :: behind)
    (hb : Entries.Lacks (.text name) before) (hb' : Entries.Lacks (.text name) behind) :
    Simulates x env w V (x.expandAttribute (.object (Tree.attributesOf e)) scope (.text name)
        (.text value))
      (renderAttribute scope name value) fun _ v V' =>
        V' = V.setAttributes e (before ++ some (.text name, .text v) :: behind) := by
  rw [expandAttribute, renderAttribute, Value.text_strictlyEqual]
  cases name == onrenderName with
  | true =>
    refine Simulates.pure ?_
    rw [← ha, View.setAttributes_self]
  | false =>
    simp only [Bool.not_false, if_true, Bool.false_eq_true, if_false]
    refine Simulates.run (a := name) (fun _ => rfl) ?_
    simp only [substitute, bind_assoc, pure_bind]
    rw [← bind_pure (renderMarkers scope _ value)]
    refine Simulates.bind (simulates_substitute encodes_shown _ value) ?_
    rintro v _ w1 _ ⟨rfl, rfl⟩ _
    refine Simulates.last (fun hs hg => Tree.leads_putEntry hs hg he (.text name) (.text v)) ?_
    rintro _ V' rfl _
    rw [ha, Entries.put_middle hb hb']

/-- Going through the attributes of an element. `before` has been gone through. -/
theorem simulates_expandEntries {e : ObjectId} {tag : Value} (n : Nat) :
    ∀ {w : World} {V : View} {before behind : Entries} {attributes : Markup.Attributes},
      V.core e = some (.element tag) → V.attributes e = before ++ behind →
      behind.live = Markup.values attributes → (attributes.map (·.1)).Nodup →
      (∀ a ∈ attributes, Entries.Lacks (.text a.1) before) →
      Simulates x env w V (x.expandEntries scope (Tree.attributesOf e) n before.length)
        (renderAttributes scope attributes) fun _ rendered V' => ∃ es : Entries,
          V' = V.setAttributes e (before ++ es) ∧ es.live = Markup.values rendered := by
  induction n with
  | zero => exact fun _ _ _ _ _ => .of_error rfl
  | succ n ih =>
    intro w V before behind attributes he ha hl hn hb hs
    have hcell : M.run' env w (Store.cell (Tree.attributesOf e)) =
        (.ok (.map (before ++ behind)), w) := by
      rw [Store.run'_cell, World.cell_of_getElem? (hs.map e _ he rfl), ha]
    revert hs
    refine Simulates.run (fun _ => hcell) ?_
    cases behind with
    | nil =>
      simp only [List.append_nil, List.getElem?_length]
      cases attributes with
      | nil =>
        refine Simulates.pure ⟨[], ?_, rfl⟩
        rw [← ha, View.setAttributes_self]
      | cons a attributes => cases hl
    | cons entry behind =>
      simp only [List.getElem?_append_right (Nat.le_refl _), Nat.sub_self, List.getElem?_cons_zero]
      cases entry with
      | none =>
        have hnext := @ih w V (before ++ [none]) behind attributes he (by simpa using ha) hl hn
          fun a hm => (hb a hm).append fun _ he => by cases he
        rw [List.length_append] at hnext
        refine hnext.imp ?_
        rintro _ rendered V' _ ⟨es, rfl, hes⟩
        exact ⟨none :: es, by simp, hes⟩
      | some entry =>
        cases attributes with
        | nil => cases hl
        | cons a attributes =>
          obtain ⟨name, value⟩ := a
          rw [Entries.live_some, Markup.values_cons] at hl
          obtain ⟨hentry, hl'⟩ := List.cons.inj hl
          subst hentry
          obtain ⟨hname, hn'⟩ := List.nodup_cons.1 hn
          have hbehind := Markup.lacks_values hl' hname
          rw [renderAttributes]
          refine Simulates.bind (simulates_expandAttribute he ha (hb _ List.mem_cons_self) hbehind) ?_
          rintro _ v w1 _ rfl _
          have hnext := @ih w1 (V.setAttributes e (before ++ some (.text name, .text v) :: behind))
            (before ++ [some (.text name, .text v)]) behind attributes he (by simp) hl' hn' ?_
          · rw [← bind_pure (x.expandEntries scope (Tree.attributesOf e) n (before.length + 1))]
            rw [List.length_append] at hnext
            refine Simulates.bind hnext ?_
            rintro _ rendered w2 _ ⟨es, rfl, hes⟩ _
            exact .pure ⟨some (.text name, .text v) :: es, by simp, by simp [hes]⟩
          · intro a hm
            refine (hb a (List.mem_cons_of_mem _ hm)).append fun e' he' => ?_
            obtain rfl := List.mem_singleton.1 he'
            have hne : name ≠ a.1 := fun h => hname (List.mem_map.2 ⟨a, hm, h.symm⟩)
            simpa using hne

/-- Replacing the markers of the attributes of an element. -/
theorem simulates_expandAttributes {e : ObjectId} {tag : Value}
    (he : V.core e = some (.element tag)) {attributes : Markup.Attributes}
    (ha : (V.attributes e).live = Markup.values attributes)
    (hn : (attributes.map (·.1)).Nodup) :
    Simulates x env w V (x.expandAttributes (.object e) scope) (renderAttributes scope attributes)
      fun _ rendered V' => ∃ es : Entries,
        V' = V.setAttributes e es ∧ es.live = Markup.values rendered := by
  refine Simulates.run (fun hs => Tree.run'_attributeMap (hs.record e _ he) rfl) ?_
  refine Simulates.run (fun hs => Tree.run'_mapEntries (hs.map e _ he rfl)) ?_
  exact simulates_expandEntries Store.maxListed he (List.nil_append _).symm ha hn fun _ _ _ he' => by
    cases he'

end Expander

end PageTemplate
