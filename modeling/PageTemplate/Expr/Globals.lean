import PageTemplate.Value.Store

/-!
# PageTemplate.Expr.Globals

What expressions can reach without a binding: the functions of the library, and three objects that
hold more of them. The store of every page starts with these objects.
-/

namespace PageTemplate

namespace Globals

/-- The members of the object `Object`. -/
def objectMembers : Properties :=
  .of [("keys", .function (.objects .keys)), ("values", .function (.objects .values)),
    ("entries", .function (.objects .entries)), ("fromEntries", .function (.objects .fromEntries)),
    ("hasOwn", .function (.objects .hasOwn)), ("is", .function (.objects .same))]

/-- The objects that every store starts with: `Math`, `JSON` and `Object`. -/
def initialCells : Array Cell := #[.math [], .json [], .record .object objectMembers]

/-- The value of each name that needs no binding. -/
def values : Properties :=
  .of [("Math", .object 0), ("Date", .function (.construct .date)),
    ("Array", .function (.construct .array)), ("Number", .function (.construct .number)),
    ("String", .function (.construct .text)), ("Boolean", .function (.construct .bool)),
    ("JSON", .object 1), ("Object", .object 2), ("parseInt", .function (.global .parseInt)),
    ("parseFloat", .function (.global .parseFloat)), ("isNaN", .function (.global .isNaN)),
    ("isFinite", .function (.global .isFinite))]

end Globals

/-- The store that every page starts with. -/
def World.initial : World := ⟨Globals.initialCells, #[], [], [], []⟩

end PageTemplate
