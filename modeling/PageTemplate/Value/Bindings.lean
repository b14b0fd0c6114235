import PageTemplate.Scope
import PageTemplate.Value.Property

/-!
# PageTemplate.Value.Bindings

Scopes from values and values from scopes.
-/

namespace PageTemplate

namespace Scope

/-- A new scope that binds the own properties of a value. -/
def ofValue (v : Value) (parent : Option ScopeId) : M ScopeId := do
  let id ← create parent
  (← Property.ownEntries v).forM fun (name, _) => do bind id name (← Property.get v name)
  return id

/-- A new scope inside another one. A value that is false brings no bindings. -/
def child (parent : ScopeId) (v : Value) : M ScopeId :=
  if v.isTruthy then ofValue v (some parent) else create (some parent)

/-- A record of the bindings of a scope itself. -/
def toRecord (id : ScopeId) : M Value := do Store.newRecord (← read id).bindings

end Scope

end PageTemplate
