import PageTemplate.Builtin.Standard
import PageTemplate.Form.Handle
import PageTemplate.Library.Array
import PageTemplate.Library.Collection
import PageTemplate.Library.Construct
import PageTemplate.Library.Json

/-!
# PageTemplate.Library.Call

Calling a function of any kind. Functions may call functions in turn; how deep such calls can be
nested is limited, and a call beyond the limit fails like any call that nests too deep.
-/

namespace PageTemplate

/-- The functions that a page brings along, by name; what they are called on and with. -/
abbrev HostFunctions := Text → Value → List Value → M Value

namespace Library

/-- Calls a function that the child list of a node is asked with. -/
def callNode (f : NodeFunction) (v : Value) : M Value := do
  match f with
  | .isElement => return .bool (← Tree.isElement v)
  | .serialize => Tree.serialize v
  | .textContent => Tree.textContent v

/-- Calls a function. -/
def call (host : HostFunctions) (f : Fn) (this : Value) (arguments : List Value) : M Value :=
  match f with
  | .text m => callText m this arguments
  | .array m => callArray m this arguments
  | .map m => callMap m this arguments
  | .set m => callSet m this arguments
  | .number m => callNumber m this arguments
  | .date m => callDate m this
  | .object m => callObject m this arguments
  | .simple m => callSimple m this arguments
  | .math f => callMath f arguments
  | .json f => callJson f arguments
  | .objects f => callObjects f arguments
  | .construct c => callConstructor c arguments
  | .global f => callGlobal f arguments
  | .helper h => Builtin.call h arguments
  | .handle m => Handle.call m this arguments
  | .node f => callNode f (argument arguments 0)
  | .host name => host name this arguments
  | .unlisted _ => M.typeError

end Library

/-- What actions may call when calls nest at most to a depth. -/
def Env.ofDepth (host : HostFunctions) : Nat → Env
  | 0 => ⟨fun _ _ _ => throw (.library .rangeError)⟩
  | n + 1 => ⟨fun f this arguments => (Library.call host f this arguments).run (ofDepth host n)⟩

/-- The deepest nesting of calls. -/
def maxCallDepth : Nat := 5000

/-- What actions may call. -/
def Env.of (host : HostFunctions) : Env := .ofDepth host maxCallDepth

end PageTemplate
