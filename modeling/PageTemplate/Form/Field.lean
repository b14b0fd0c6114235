import PageTemplate.Tree.Query
import PageTemplate.Value.Present

/-!
# PageTemplate.Form.Field

The controls of a form and their values. Nested values become fields with bracketed names, in the
way browsers send nested data.
-/

namespace PageTemplate

namespace Form

/-- The controls with a name inside a form. -/
def controls (form name : Value) : M (List Value) := do
  (← Tree.selectAll form "input, textarea, select").filterM fun field => do
    return (← Tree.getAttribute field (.text "name")).strictlyEqual name

/-- The value of an attribute, or a default when there is none. -/
def attributeOr (v : Value) (name : Text) (default : M Value) : M Value := do
  match ← Tree.getAttribute v (.text name) with
  | .undefined | .null => default
  | a => return a

/-- Sets an attribute to its own name, or removes it. -/
def setFlag (v : Value) (name : Text) (on : Bool) : M Unit :=
  if on then Tree.setAttribute v (.text name) (.text name)
  else Tree.removeAttribute v (.text name)

/-- Selects exactly the options of a menu that stand for a value. -/
def choose (menu value : Value) : M Unit := do
  (← Tree.selectAll menu "option").forM fun option => do
    let own ← attributeOr option "value" (Tree.textContent option)
    setFlag option "selected" (own.strictlyEqual value)

/-- The kind of an input in lower case. -/
def inputKind (input : Value) : M Value := do
  match ← attributeOr input "type" (return .text "text") with
  | .text kind => return .text (Text.toLower kind)
  | kind => Convert.invoke kind "toLowerCase" []

/-- Sets an input: boxes and buttons are checked when they stand for the value. -/
def enter (input value : Value) : M Unit := do
  let kind ← inputKind input
  if kind.strictlyEqual (.text "checkbox") || kind.strictlyEqual (.text "radio") then
    let own ← attributeOr input "value" (return .text "on")
    setFlag input "checked" (own.strictlyEqual value)
  else Tree.setAttribute input (.text "value") value

/-- Sets one control. -/
def setControl (value field : Value) : M Unit := do
  let tag ← Tree.tag field
  if tag.strictlyEqual (.text "textarea") then Tree.setTextContent field value
  else if tag.strictlyEqual (.text "select") then choose field value
  else enter field value

/-- Sets the controls with a name. A form that has none gets a hidden one. -/
def setField (form name value : Value) : M Unit := do
  let fields ← controls form name
  if fields.isEmpty then
    let input ← Tree.create (.element (.text "input")
      [(.text "type", .text "hidden"), (.text "name", name), (.text "value", value)])
    Tree.append form (.object input)
  else fields.forM (setControl value)

/-- The name of the field for an entry: the key in the place of every `%`, or else behind the name
in brackets. -/
def childName (name key : Text) : Text :=
  if name.contains (unit '%') then Text.join key (Text.splitOn [unit '%'] name)
  else name ++ unit '[' :: key ++ [unit ']']

/-- The name of the field for an entry, where the name may be any value that can be asked in the way
of a text. -/
def childNameOf (name key : Value) : M Value := do
  match name, key with
  | .text name, .text key => return .text (childName name key)
  | name, key =>
    if (← Convert.invoke name "includes" [.text "%"]).isTruthy then
      Convert.invoke (← Convert.invoke name "split" [.text "%"]) "join" [key]
    else
      let name ← Convert.toText name
      return .text (name ++ unit '[' :: (← Convert.toText key) ++ [unit ']'])

/-- Sets the fields of a value and of everything in it. -/
def populateWithin (form : Value) : Nat → Value → Value → M Unit
  | 0, _, _ => M.failLibrary .rangeError
  | n + 1, v, name => do
    if ← Present.isObjectShaped v then
      setField form name (.text [])
      (← Present.entriesOf v []).forM fun entry => do
        let (key, child) ← Present.expectEntry entry
        populateWithin form n child (← childNameOf name (← Present.shown key))
    else setField form name (← Present.shown v)

/-- Sets the fields of a value under a name. -/
def populate (form v name : Value) : M Unit := do populateWithin form (← Store.depth) v name

end Form

end PageTemplate
