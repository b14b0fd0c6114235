import PageTemplate.Form.Field
import PageTemplate.Library.Json
import PageTemplate.Scope
import PageTemplate.Template.Loader
import PageTemplate.Template.Marker
import PageTemplate.Tree.Read

/-!
# PageTemplate.Template.Expand

Expansion of a template, in place. First the markers in the attributes of an element are replaced,
then its children are expanded from left to right, and last the expression of its attribute
`onrender` is evaluated. Control elements and inline code make way for the nodes they produce.

What is expanded is the list of siblings as it stood when the first of them came to its turn.
-/

namespace PageTemplate

/-- What comes in the place of a custom tag, and whether that is looked at as a template. -/
structure Replacement where
  node : ObjectId
  scanned : Bool

/-- The meaning of a custom tag: its replacement, given its verbatim content and its attributes;
`none` removes the tag. -/
abbrev CustomTag := Text → List (Value × Value) → M (Option Replacement)

structure Expander where
  /-- Where partials come from. -/
  loader : Loader
  evaluate : ScopeId → Text → M Value
  /-- The custom tags by name, in lower case. -/
  customTags : List (Text × CustomTag)
  /-- What is applied to text before it is inserted as markup. -/
  sanitize : Option (Text → Text)
  /-- Whether steps are logged and partials are marked. -/
  debug : Bool
  /-- The deepest nesting of elements and partials. -/
  maxDepth : Nat

namespace Expander

/-- How templates are read: the content of custom tags is verbatim. -/
def readOptions (x : Expander) (inlineCode : Bool) : Markup.ReadOptions :=
  .of (x.customTags.map (·.1)) inlineCode

/-- The tag around the content of a template. -/
def rootTag : Text := "root"

/-- Reads a template. With `wrap` it stands inside an element of its own. -/
def readTemplate (x : Expander) (markup : Text) (wrap : Bool) : M ObjectId := do
  let nodes ← Tree.readNodes (x.readOptions true) markup
  Tree.create (.document (if wrap then [.element rootTag [] nodes] else nodes))

/-- Logs a step when steps are logged. -/
def logStep (x : Expander) (words : List Text) : M Unit :=
  if x.debug then Store.log (Text.join [unit ' '] words) else return

/-- The value of an attribute that an element must have. -/
def requireAttribute (element : Value) (name : Text) : M Value := do
  match ← Tree.getAttribute element (.text name) with
  | .undefined =>
    let tag ← Convert.toText (← Tree.tag element)
    throw (.malformed ("<" ++ tag ++ "> requires a \"" ++ name ++ "\" attribute") none)
  | v => return v

/-- Replaces the markers of a value in a scope. -/
def substitute (x : Expander) (scope : ScopeId) (place : Text) (v : Value) : M Value := do
  match v with
  | .text t => return .text (← Marker.substitute (x.evaluate scope) Present.shown place t)
  | v => Marker.keepUnmarked place v

def onrenderName : Text := "onrender"

/-- Replaces the markers of one of the attributes of an element. -/
def expandAttribute (x : Expander) (attributes : Value) (scope : ScopeId) (name value : Value) :
    M Unit := do
  if !name.strictlyEqual (.text onrenderName) then
    let place := "attribute \"" ++ (← Convert.toText name) ++ "\""
    let v ← x.substitute scope place value
    Tree.putEntry attributes name v

/-- Replaces the markers of the entries of a map from a place on. -/
def expandEntries (x : Expander) (scope : ScopeId) (id : ObjectId) : Nat → Nat → M Unit
  | 0, _ => M.failLibrary .rangeError
  | n + 1, place => do
    match ← Store.cell id with
    | .map entries =>
      match entries[place]? with
      | none => return
      | some none => expandEntries x scope id n (place + 1)
      | some (some (name, value)) =>
        x.expandAttribute (.object id) scope name value
        expandEntries x scope id n (place + 1)
    | _ => M.typeError

/-- Replaces the markers of the attributes of an element, those added meanwhile included. -/
def expandAttributes (x : Expander) (element : Value) (scope : ScopeId) : M Unit := do
  let attributes ← Tree.attributeMap element
  match ← Tree.mapEntries? attributes with
  | some (id, _) => x.expandEntries scope id Store.maxListed 0
  | none =>
    discard (Sequence.visit attributes fun entry _ => do
      let parts ← Sequence.iterate entry
      x.expandAttribute attributes scope (parts.getD 0 .undefined) (parts.getD 1 .undefined))

/-- Evaluates and drops the expression that an element is finished with. -/
def finish (x : Expander) (element : Value) (scope : ScopeId) : M Unit := do
  match ← Tree.getAttribute element (.text onrenderName) with
  | .undefined => return
  | source =>
    let inner ← Scope.create (some scope)
    Scope.bind inner "this" (.object (← Store.alloc (.handle element [])))
    let _ ← x.evaluate inner (← Tree.expectText source)
    Tree.removeAttribute element (.text onrenderName)

/-- Expands siblings in a scope. -/
abbrev Siblings := ScopeId → List Value → M Unit

/-- Expands an element, given how siblings are expanded. -/
def expandElement (x : Expander) (siblings : Siblings) (element : Value) (scope : ScopeId) :
    M Unit := do
  x.expandAttributes element scope
  siblings scope (← Tree.children element)
  x.finish element scope

/-- Puts the expanded children of an element in its place. -/
def keepChildren (siblings : Siblings) (element : Value) (scope : ScopeId) : M Unit := do
  siblings scope (← Tree.children element)
  Tree.stripOut element

/-- Keeps the children of an element when its condition holds; yields whether it does. -/
def expandCondition (x : Expander) (siblings : Siblings) (element : Value) (scope : ScopeId) :
    M Bool := do
  let condition ← Tree.expectText (← requireAttribute element "cond")
  let holds ← Present.toBool (← x.evaluate scope condition)
  if holds then keepChildren siblings element scope else Tree.remove element
  return holds

/-- Keeps the children of an element when the condition before it did not hold. -/
def expandAlternative (siblings : Siblings) (element : Value) (scope : ScopeId) (prior : Bool) :
    M Unit := do
  if prior then Tree.remove element else keepChildren siblings element scope

/-- Binds what a loop names in a scope. Only a text is a name that can be looked up, but what has
the text of a blocked name is no better than the name. -/
def bindLoopName (scope : ScopeId) (name v : Value) : M Unit := do
  match name with
  | .text name => Scope.bind scope name v
  | .symbol .. => return
  | name =>
    let t ← Convert.toText name
    if Scope.isBlockedName t then throw (.blockedBinding t)

/-- Expands a copy of a loop for one entry and adds the outcome to a fragment. -/
def expandEntry (siblings : Siblings) (loop fragment : Value) (scope : ScopeId)
    (itemName keyName : Value) (entry : Option (Value × Value)) : M Unit := do
  let (key, item) ← Present.expectEntry entry
  let inner ← Scope.create (some scope)
  bindLoopName inner itemName item
  if keyName.isTruthy then bindLoopName inner keyName key
  let copy := Value.object (← Tree.clone loop)
  siblings inner (← Tree.children copy)
  Tree.stealChildren fragment copy

/-- Repeats the children of an element for every entry of a value; yields whether there are any. -/
def expandLoop (x : Expander) (siblings : Siblings) (element : Value) (scope : ScopeId) :
    M Bool := do
  let source ← requireAttribute element "over"
  let itemName ← requireAttribute element "as"
  let keyName ← Tree.getAttribute element (.text "index")
  let source ← Tree.expectText source
  let entries ← Present.entriesOf (← x.evaluate scope source) source
  if entries.isEmpty then
    Tree.remove element
    return false
  let fragment := Value.object (← Tree.create (.fragment []))
  entries.forM (expandEntry siblings element fragment scope itemName keyName)
  x.logStep ["[TemplateExpander] for-each:", source, "->", Text.ofNat entries.length, "items"]
  Tree.replaceWith element fragment
  return true

/-- The text of the data that a partial is given, if it has one. -/
def dataText? (data : Value) : M (Option Text) :=
  tryCatch (do return some (← Convert.toText data)) fun _ => return none

/-- The value of the data that a partial is given. -/
def partialData (file : Text) (data : Value) : M Value := do
  match (← dataText? data).bind Json.parse? with
  | some document => Library.plantJson document
  | none =>
    let detail : Text :=
      "render-template \"" ++ file ++ "\" has invalid JSON in its \"data\" attribute"
    throw (.malformed detail none)

/-- Adds a comment to a fragment. -/
def addRemark (fragment : Value) (t : Text) : M Unit := do
  let words : Text := " " ++ t ++ " "
  Tree.append fragment (.object (← Tree.create (.comment words)))

/-- A new fragment that holds the children of a node, with remarks before and behind them. -/
def fragmentOf (before behind : List Text) (source : Value) : M Value := do
  let fragment := Value.object (← Tree.create (.fragment []))
  before.forM (addRemark fragment)
  Tree.stealChildren fragment source
  behind.forM (addRemark fragment)
  return fragment

/-- The outermost element of a template. -/
def rootOf (document : Value) : M Value := do
  match ← Tree.documentElement? document with
  | some root => return root
  | none => return .object (← Tree.createElement rootTag [])

/-- Binds the data that a partial is given. -/
def bindData (scope : ScopeId) (file : Text) (data : Value) : M Unit := do
  match data with
  | .undefined => return
  | data => Scope.bind scope "data" (← partialData file data)

/-- The fragment of an expanded partial. When steps are logged, it is marked. -/
def partialFragment (x : Expander) (file : Text) (root : Value) : M Value :=
  if x.debug then fragmentOf [file] ["end " ++ file] root else fragmentOf [] [] root

/-- Puts an expanded partial in the place of an element. -/
def expandPartial (x : Expander) (expandRoot : Value → ScopeId → M Unit) (element : Value)
    (scope : ScopeId) : M Unit := do
  let file ← Convert.toText (← requireAttribute element "file")
  let root ← rootOf (.object (← x.readTemplate (← x.loader file) true))
  let inner ← Scope.create (some scope)
  bindData inner file (← Tree.getAttribute element (.text "data"))
  expandRoot root inner
  x.logStep ["[TemplateExpander] render-template:", file]
  Tree.replaceWith element (← x.partialFragment file root)

/-- Puts hidden fields for a value in the place of an element. -/
def expandFormData (x : Expander) (element : Value) (scope : ScopeId) : M Unit := do
  let source ← requireAttribute element "from"
  let name ← requireAttribute element "name"
  let form := Value.object (← Tree.createElement "form" [])
  Form.populate form (← x.evaluate scope (← Tree.expectText source)) name
  Tree.replaceWith element (← fragmentOf [] [] form)

/-- What a value that is no node is read as. Only text writes nodes; anything else can be read when
it has no length. -/
def readInserted (x : Expander) (v : Value) : M ObjectId := do
  match ← Present.shown v with
  | .text t => Tree.readFragment (x.readOptions false) (x.sanitize.elim t fun f => f t)
  | v =>
    if ← Convert.isFilled v then M.typeError
    Tree.create (.fragment [])

/-- The node that a value becomes as markup: a node moves, anything else is read. Inline code is
not read, so data never becomes code. -/
def insertable (x : Expander) (v place : Value) (expression : Text) : M Value := do
  match ← Present.node? v with
  | none => return .object (← x.readInserted v)
  | some node =>
    if ← Tree.contains node place then
      throw (.evaluation expression "cannot insert a node into itself")
    match ← Tree.kind? node with
    | some .document => fragmentOf [] [] node
    | some .fragment => return node
    | _ =>
      Tree.remove node
      return node

/-- What follows the mark of markup, with the blank behind it. -/
def markupSource? (source : Text) : Option Text :=
  match Text.afterPrefix "=HTML" source with
  | some (u :: rest) => if isBlank u then some (u :: rest) else none
  | _ => none

/-- Puts what inline code yields in its place. Code without a mark yields nothing. -/
def expandCode (x : Expander) (node : Value) (scope : ScopeId) : M Unit := do
  let source ← Tree.expectText (← Tree.source node)
  match source with
  | u :: code =>
    if u == unit '=' then
      match markupSource? source with
      | some expression =>
        let v ← x.evaluate scope expression
        Tree.replaceWith node (← x.insertable v node expression)
      | none =>
        let shown ← Present.shown (← x.evaluate scope code)
        Tree.replaceWith node (.object (← Tree.create (.text shown (.bool false))))
    else
      let _ ← x.evaluate scope source
      Tree.remove node
  | [] =>
    let _ ← x.evaluate scope []
    Tree.remove node

/-- Replaces the markers in the body of a script by JSON. -/
def expandScript (x : Expander) (element : Value) (scope : ScopeId) : M Unit := do
  let source ← Tree.expectText (← Tree.innerMarkup element)
  if Text.includes source Marker.opening then
    let encode (v : Value) : M Value := do return .text (← Present.toJson v)
    let code ← Marker.substitute (x.evaluate scope) encode "<script>" source
    Tree.removeChildren element
    Tree.append element (.object (← Tree.createText code true))

/-- Replaces the markers of a text node. -/
def expandText (x : Expander) (scope : ScopeId) (place : Text) (v : Value) : M Unit := do
  if !v.isNullish && (← Tree.kind? v) == some .text then
    Tree.setNodeValue v (← x.substitute scope place (← Tree.nodeValue v))

/-- Expands what has come in the place of a tag. A single element counts with its attributes,
several nodes count as siblings. -/
def expandInserted (siblings : Siblings) (expandRoot : Value → ScopeId → M Unit)
    (scope : ScopeId) (inserted : List Value) : M Unit := do
  match inserted with
  | [v] => if ← Tree.isElement v then expandRoot v scope else siblings scope inserted
  | inserted => siblings scope inserted

/-- Puts the replacement of a custom tag in its place. -/
def expandCustomTag (x : Expander) (siblings : Siblings) (expandRoot : Value → ScopeId → M Unit)
    (customTag : CustomTag) (element : Value) (scope : ScopeId) : M Unit := do
  let tag ← Convert.toText (← Tree.tag element)
  let content ← Tree.expectText (← Tree.innerMarkup element)
  match ← customTag content (← Tree.attributeEntries element) with
  | none => Tree.remove element
  | some replacement =>
    let node := Value.object replacement.node
    let inserted ← if (← Tree.kind? node) == some .fragment then Tree.children node
      else pure [node]
    Tree.replaceWith element node
    x.logStep ["[TemplateExpander] translated:", tag, "->", Text.ofNat inserted.length, "nodes"]
    if replacement.scanned then
      inserted.forM (x.expandText scope ("<" ++ tag ++ ">"))
      expandInserted siblings expandRoot scope inserted

/-- The elements that control expansion. -/
inductive Control where
  | condition | alternative | loop | partialTemplate | formData | script
  deriving Repr, DecidableEq

def controlTags : List (Text × Control) :=
  [("if-true", Control.condition), ("or-else", .alternative), ("for-each", .loop),
    ("render-template", .partialTemplate), ("hidden-form-data", .formData),
    ("script", .script)].map fun (tag, c) => (Text.ofString tag, c)

/-- Expands an element among its siblings. `prior` is the outcome of the condition or loop before
it, and the result is the outcome after it. -/
def expandTagged (x : Expander) (siblings : Siblings) (element : Value) (tag : Text)
    (scope : ScopeId) (prior : Bool) : M Bool := do
  let expandRoot := x.expandElement siblings
  match Assoc.find? tag controlTags with
  | some .condition => x.expandCondition siblings element scope
  | some .alternative =>
    expandAlternative siblings element scope prior
    return prior
  | some .loop => x.expandLoop siblings element scope
  | some .partialTemplate =>
    x.expandPartial expandRoot element scope
    return prior
  | some .formData =>
    x.expandFormData element scope
    return prior
  | some .script =>
    x.expandScript element scope
    return prior
  | none =>
    match Assoc.find? tag x.customTags with
    | some customTag =>
      x.expandCustomTag siblings expandRoot customTag element scope
      return prior
    | none =>
      expandRoot element scope
      return prior

/-- Expands one of several siblings. -/
def expandSibling (x : Expander) (siblings : Siblings) (scope : ScopeId) (prior : Bool)
    (v : Value) : M Bool := do
  match ← Tree.kind? v with
  | some .code =>
    x.expandCode v scope
    return prior
  | some .element =>
    match ← Tree.tag v with
    | .text tag => x.expandTagged siblings v tag scope prior
    | _ =>
      x.expandElement siblings v scope
      return prior
  | _ => return prior

/-- Expands siblings from left to right. The outcome of a condition or loop is passed on from one to
the next; before the first it is false. -/
def expandSiblings (x : Expander) : Nat → Siblings
  | 0, _, _ => M.failLibrary .rangeError
  | n + 1, scope, nodes => do
    let _ ← nodes.foldlM (x.expandSibling (expandSiblings x n) scope) false

/-- Expands an element and everything in it. -/
def expand (x : Expander) (element : Value) (scope : ScopeId) : M Unit :=
  x.expandElement (x.expandSiblings x.maxDepth) element scope

end Expander

end PageTemplate
