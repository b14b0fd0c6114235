import PageTemplate.Builtin.DateText
import PageTemplate.Builtin.KeyFilter
import PageTemplate.Scope
import PageTemplate.Text.Percent

/-!
# PageTemplate.Builtin.Standard

The helpers that every template can call, and the names that every template can count on.
-/

namespace PageTemplate

namespace Builtin

/-- What is shown of a value, written in another way. What is shown without being a text is kept
when it says that it is too short to be written so. -/
def reword (v : Value) (shortest : Nat) (write : Text → Text) : M Value := do
  match ← Present.shown v with
  | .text t => return .text (write t)
  | s =>
    if (← Convert.numberOf (← Property.get s "length")) < Number.ofNat shortest then return s
    else M.typeError

/-- Calls a helper. -/
def call (h : Helper) (arguments : List Value) : M Value := do
  let v := arguments.getD 0 .undefined
  match h with
  | .filterKeys => KeyFilter.filterKeys v (arguments.getD 1 .undefined)
  | .formatDate => reword v 10 DateText.showDate
  | .formatTime => reword v 20 DateText.showTime
  | .dayOfWeek => return .text (← (DateText.weekdayName (← Present.toText v) : Except Fault Text))
  | .encodeURIComponent =>
    match Percent.encodeComponent? (← Convert.toText (← Present.shown v)) with
    | some t => return .text t
    | none => M.failLibrary .uriError

/-- The names of the helpers. -/
def helpers : List (Text × Helper) :=
  [("filterKeys", Helper.filterKeys), ("encodeURIComponent", .encodeURIComponent),
    ("formatDate", .formatDate), ("dayOfWeek", .dayOfWeek), ("formatTime", .formatTime)].map
    fun (name, h) => (Text.ofString name, h)

/-- Binds a name to an empty record when it has no value yet. -/
def ensureBound (scope : ScopeId) (name : Text) : M Unit := do
  if (Value.ofOption (← Scope.find? scope name)).isNullish then
    Scope.bind scope name (← Store.newRecord [])

/-- Binds the helpers in a scope, and sees to it that `meta` and `data` have a value. -/
def bindStandard (scope : ScopeId) : M Unit := do
  Scope.bindAll scope (helpers.map fun (name, h) => (name, .function (.helper h)))
  ensureBound scope "meta"
  ensureBound scope "data"

end Builtin

end PageTemplate
