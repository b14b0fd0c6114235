import PageTemplate.Markup.Parser
import PageTemplate.Tree.Edit

/-!
# PageTemplate.Tree.Read

Reading markup into the store.
-/

namespace PageTemplate

/-- The fault that malformed markup amounts to. -/
def Fault.ofMalformed : Markup.Malformed → Fault
  | .unterminatedCode offset =>
    .malformed ("unterminated \"<%\" at offset " ++ Text.ofNat offset)
      (some "Every <% must be closed with %>.")

namespace Tree

/-- The nodes that a text writes, not yet in the store. -/
def readNodes (options : Markup.ReadOptions) (t : Text) : M (List Markup.Node) :=
  match Markup.parse options t with
  | .ok nodes => return nodes
  | .error e => throw (.ofMalformed e)

/-- The nodes that a text writes, without parents. -/
def readAll (options : Markup.ReadOptions) (t : Text) : M (List ObjectId) := do
  plantAll (← readNodes options t)

def readFragment (options : Markup.ReadOptions) (t : Text) : M ObjectId := do
  create (.fragment (← readNodes options t))

def readDocument (options : Markup.ReadOptions) (t : Text) : M ObjectId := do
  create (.document (← readNodes options t))

end Tree

end PageTemplate
