import PageTemplate.Form.Field

/-!
# PageTemplate.Form.Handle

The methods of a node handle, which is what an expression gets in place of the element that it
belongs to. They work on whatever their receiver has for a node.
-/

namespace PageTemplate

namespace Handle

/-- The node of a receiver. -/
def node (this : Value) : M Value := Property.get this "node"

/-- The value of an attribute; null when there is none. -/
def readAttribute (v name : Value) : M Value := do
  match ← Tree.getAttribute v name with
  | .undefined => return .null
  | value => return value

/-- Sets an attribute to what a value is shown as; its name is brought into lower case. -/
def writeAttribute (v name value : Value) : M Unit := do
  let attributes ← Tree.attributeMap v
  let name := Text.toLower (← Convert.display name)
  discard (Convert.invoke attributes "set" [.text name, ← Present.shown value])

/-- Fills the controls of a form: every key is the name of a field. Other elements are left as
they are. -/
def populateFrom (v data : Value) : M Unit := do
  if (← Property.get v "tagName").strictlyEqual (.text "form") then
    (← Present.entriesOf data []).forM fun entry => do
      let (key, value) ← Present.expectEntry entry
      Form.populate v value (← Present.shown key)

/-- Calls a method of handles. -/
def call (m : HandleMethod) (this : Value) (arguments : List Value) : M Value := do
  let v ← node this
  let first := arguments.getD 0 .undefined
  match m with
  | .unwrap => return v
  | .readTag => Property.get v "tagName"
  | .readText => Tree.textContent v
  | .writeText =>
    Tree.setTextContent v first
    return .undefined
  | .getAttribute => readAttribute v first
  | .hasAttribute => Tree.hasAttribute v first
  | .setAttribute =>
    writeAttribute v first (arguments.getD 1 .undefined)
    return this
  | .removeAttribute =>
    Tree.removeAttribute v first
    return this
  | .addClass =>
    Tree.addClass v (← Present.shown first)
    return this
  | .populateFrom =>
    populateFrom v first
    return this

end Handle

end PageTemplate
