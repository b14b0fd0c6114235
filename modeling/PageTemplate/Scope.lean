import PageTemplate.Value.Store

/-!
# PageTemplate.Scope

Bindings of names, level inside level. A name is looked up from the innermost level outwards, and
bound only in the level that is written to. Three names can never be bound.
-/

namespace PageTemplate

namespace Scope

/-- The names that can never be bound. -/
def blockedNames : List Text := ["__proto__", "constructor", "prototype"].map Text.ofString

def isBlockedName (name : Text) : Bool := blockedNames.contains name

/-- The scope at a place. -/
def read (id : ScopeId) : M Scope := do return (← get).scopes.getD id ⟨none, []⟩

def write (id : ScopeId) (s : Scope) : M Unit :=
  modify fun w => { w with scopes := w.scopes.setIfInBounds id s }

/-- A new scope without bindings. -/
def create (parent : Option ScopeId) : M ScopeId := do
  let w ← get
  set { w with scopes := w.scopes.push ⟨parent, []⟩ }
  return w.scopes.size

/-- Binds a name in a scope. -/
def bind (id : ScopeId) (name : Text) (value : Value) : M Unit := do
  if isBlockedName name then throw (.blockedBinding name)
  let s ← read id
  write id { s with bindings := Assoc.put name value s.bindings }

/-- Binds names one after another. -/
def bindAll (id : ScopeId) (bindings : Properties) : M Unit :=
  bindings.forM fun (name, value) => bind id name value

/-- The value that a scope itself binds a name to. -/
def findOwn? (id : ScopeId) (name : Text) : M (Option Value) := do
  return Assoc.find? name (← read id).bindings

/-- The value that a scope or one around it binds a name to. -/
def findWithin? (name : Text) : Nat → ScopeId → M (Option Value)
  | 0, _ => return none
  | n + 1, id => do
    let s ← read id
    match Assoc.find? name s.bindings, s.parent with
    | some v, _ => return some v
    | none, some parent => findWithin? name n parent
    | none, none => return none

/-- The value of a name; the innermost binding counts. -/
def find? (id : ScopeId) (name : Text) : M (Option Value) := do
  findWithin? name ((← get).scopes.size + 1) id

/-- Drops a binding of a scope itself. Yields whether there was one. -/
def delete (id : ScopeId) (name : Text) : M Bool := do
  let s ← read id
  write id { s with bindings := Assoc.erase name s.bindings }
  return Assoc.has name s.bindings

/-- The names that a scope itself binds, in order. -/
def names (id : ScopeId) : M (List Text) := do return (← read id).bindings.map (·.1)

end Scope

end PageTemplate
