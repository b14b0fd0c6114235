import PageTemplate.Text.Basic
import PageTemplate.Text.IdentifierTable

/-!
# PageTemplate.Text.Identifier

Which units start and continue an identifier. A unit is judged alone, so no half of a surrogate
pair belongs to an identifier.
-/

namespace PageTemplate

namespace CodeUnit

def inRanges (table : List (Nat × Nat)) (u : CodeUnit) : Bool :=
  table.any fun (first, last) => first ≤ u.toNat && u.toNat ≤ last

/-- A letter, the underscore, the dollar sign or any other unit with the property `ID_Start`. -/
def isIdentifierStart (u : CodeUnit) : Bool :=
  if u < 0x80 then isLetter u || u == unit '_' || u == unit '$'
  else inRanges IdentifierTable.start u

/-- A unit that may start an identifier, a digit, a joiner or another `ID_Continue` unit. -/
def isIdentifierPart (u : CodeUnit) : Bool :=
  if u < 0x80 then isIdentifierStart u || isDigit u
  else inRanges IdentifierTable.inner u

end CodeUnit

end PageTemplate
