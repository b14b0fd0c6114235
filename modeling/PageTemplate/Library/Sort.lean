import PageTemplate.Value.Convert

/-!
# PageTemplate.Library.Sort

Sorting by a comparison that may call functions. The values begin with a run that is ordered
already, or ordered backwards, which is turned around; each of the others is put behind the last
value that it does not come before. So values that compare as equal keep their order, and the
comparisons come in an order that a function among the values can observe.
-/

namespace PageTemplate

namespace Library

/-- Tells the order of two values: negative when the first one comes before the second one, positive
when it comes behind it, else zero. -/
abbrev Comparison := Value → Value → M Float

/-- The order that a function gives. -/
def compareBy (f : Fn) : Comparison := fun v w => do
  let x ← Convert.toNumber (← M.call f .undefined [v, w])
  return if x.isNaN then 0.0 else x

/-- The order of the texts of two values. -/
def compareTexts : Comparison := fun v w => do
  let s ← Convert.toText v
  let t ← Convert.toText w
  return if Text.lessThan s t then -1.0 else if Text.lessThan t s then 1.0 else 0.0

/-- Goes on with a run, of which the latest value comes first, and yields it with what is left. -/
def takeRun (compare : Comparison) (descending : Bool) (last : Value) (run : List Value) :
    List Value → M (List Value × List Value)
  | [] => return (last :: run, [])
  | v :: vs => do
    let isBefore := (← compare v last) < 0.0
    if isBefore == descending then takeRun compare descending v (last :: run) vs
    else return (last :: run, v :: vs)

/-- The run that values begin with, brought into ascending order, and the values behind it. -/
def firstRun (compare : Comparison) : List Value → M (List Value × List Value)
  | v :: w :: vs => do
    let descending := (← compare w v) < 0.0
    let (run, rest) ← takeRun compare descending w [v] vs
    return (if descending then run else run.reverse, rest)
  | vs => return (vs, [])

/-- The position behind the last of sorted values that a value does not come before, found between
two positions by halving. -/
def insertionPoint (compare : Comparison) (v : Value) (sorted : Array Value) :
    Nat → Nat → Nat → M Nat
  | 0, left, _ => return left
  | n + 1, left, right => do
    if right ≤ left then return left
    let middle := left + (right - left) / 2
    if (← compare v (sorted.getD middle .undefined)) < 0.0 then
      insertionPoint compare v sorted n left middle
    else insertionPoint compare v sorted n (middle + 1) right

/-- Puts a value into sorted ones. -/
def insertSorted (compare : Comparison) (sorted : Array Value) (v : Value) :
    M (Array Value) := do
  let i ← insertionPoint compare v sorted sorted.size 0 sorted.size
  return sorted.take i ++ #[v] ++ sorted.drop i

/-- Sorts values. -/
def sortBy (compare : Comparison) (values : List Value) : M (List Value) := do
  let (run, rest) ← firstRun compare values
  return (← rest.foldlM (insertSorted compare) run.toArray).toList

/-- Sorts values, with undefined ones behind all others. -/
def sortDefined (compare : Comparison) (values : List Value) : M (List Value) := do
  let defined := values.filter fun v => !v.strictlyEqual .undefined
  let sorted ← sortBy compare defined
  return sorted ++ List.replicate (values.length - defined.length) .undefined

end Library

end PageTemplate
