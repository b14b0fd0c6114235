import PageTemplate.Fault
import PageTemplate.Text.Case

/-!
# PageTemplate.Selector.Syntax

Selectors and their reader. A selector is a list of alternatives; an alternative is a chain of
compounds, each of which tests one element.

What stands in the parentheses of `:not` is read when a selector is read, but a fault in it counts
only when the selector is applied, like a pseudo-class that nobody knows.
-/

namespace PageTemplate

namespace Selector

/-- How the value of an attribute is compared with the value of a test. -/
inductive Comparison where
  | equals | hasWord | hyphenated | beginsWith | endsWith | contains
  deriving Repr, DecidableEq

/-- A test of an attribute: that it is there, or that its value compares in some way. -/
structure AttributeTest where
  name : Text
  comparison : Option (Comparison × Text)
  deriving Repr, DecidableEq

/-- A test of one element; `π` is the type of its pseudo-classes. -/
structure Compound (π : Type) where
  /-- The tag; `none` for any. -/
  tag : Option Text
  id : Option Text
  classes : List Text
  attributes : List AttributeTest
  pseudos : List π
  deriving Repr

/-- The pseudo-classes inside `:not`. None of them has an argument, since the argument of `:not`
ends at the first closing parenthesis. -/
inductive PlainPseudo where
  | root | firstChild | lastChild
  /-- The class `:not` without an argument, which every element has. -/
  | anything
  | unknown (name : Text)
  deriving Repr, DecidableEq

inductive Pseudo where
  | plain (p : PlainPseudo)
  /-- What must not hold; or the text that is no compound. -/
  | negation (argument : Except Text (Compound PlainPseudo))

/-- How an element relates to the one that matches the compound before. -/
inductive Combinator where
  | descendant | child
  deriving Repr, DecidableEq

/-- A compound and how its element relates to that of the compound before it. -/
structure Step where
  combinator : Combinator
  compound : Compound Pseudo

/-- The steps of an alternative, the last one first. -/
abbrev Chain := List Step

/-- The part of a selector between commas, each a chain. -/
abbrev Alternatives := List Chain

/-- The units of names in selectors. -/
def isNameUnit (u : CodeUnit) : Bool := CodeUnit.isWord u || u == unit '-'

/-- A name of one unit or more at the start of a text, and what follows it. -/
def name? (t : Text) : Option (Text × Text) :=
  let name := t.takeWhile isNameUnit
  if name.isEmpty then none else some (name, t.dropWhile isNameUnit)

/-- The tag that a compound starts with. -/
def tag? (t : Text) : Option (Option Text × Text) :=
  match t with
  | [] => none
  | u :: rest =>
    if u == unit '*' then some (none, rest)
    else if CodeUnit.isLetter u then
      some (some (Text.toLower (t.takeWhile isNameUnit)), t.dropWhile isNameUnit)
    else none

/-- The comparison sign that a text starts with. -/
def comparison? (t : Text) : Option (Comparison × Text) :=
  let signs : List (String × Comparison) :=
    [("=", .equals), ("~=", .hasWord), ("|=", .hyphenated), ("^=", .beginsWith),
      ("$=", .endsWith), ("*=", .contains)]
  signs.findSome? fun (sign, c) => (Text.afterPrefix sign t).map (c, ·)

/-- The text after white space and a closing bracket. -/
def closed? (t : Text) : Option Text := Text.afterPrefix [unit ']'] (Text.trimStart t)

/-- A value in quotes with the bracket that closes the test. -/
def quotedValue? (t : Text) : Option (Text × Text) :=
  match t with
  | q :: rest =>
    if q == unit '"' || q == unit '\'' then do
      let (value, after) ← Text.breakAt q rest
      let after ← closed? after
      return (value, after)
    else none
  | [] => none

/-- A value without quotes with the bracket that closes the test. -/
def bareValue? (t : Text) : Option (Text × Text) :=
  let isValueUnit (u : CodeUnit) : Bool := u != unit ']' && !isBlank u
  let value := t.takeWhile isValueUnit
  if value.isEmpty then none else (closed? (t.dropWhile isValueUnit)).map (value, ·)

/-- A test of an attribute behind its opening bracket. -/
def attributeTest? (t : Text) : Option (AttributeTest × Text) := do
  let isAttributeUnit (u : CodeUnit) : Bool := isNameUnit u || u == unit ':'
  let t := Text.trimStart t
  let name := t.takeWhile isAttributeUnit
  if name.isEmpty then none
  let rest := Text.trimStart (t.dropWhile isAttributeUnit)
  match comparison? rest with
  | some (c, rest) =>
    let rest := Text.trimStart rest
    let (value, after) ← (quotedValue? rest).or (bareValue? rest)
    return (⟨Text.toLower name, some (c, value)⟩, after)
  | none =>
    let after ← closed? rest
    return (⟨Text.toLower name, none⟩, after)

/-- The name and argument of a pseudo-class behind its colon. -/
def pseudo? (t : Text) : Option ((Text × Option Text) × Text) := do
  let (name, rest) ← name? t
  match rest with
  | p :: inner =>
    if p == unit '(' then
      match Text.breakAt (unit ')') inner with
      | some (argument, after) => return ((name, some argument), after)
      | none => return ((name, none), rest)
    else return ((name, none), rest)
  | [] => return ((name, none), [])

/-- A piece of a compound behind its tag. -/
inductive Piece where
  | id (name : Text)
  | class (name : Text)
  | attribute (test : AttributeTest)
  | pseudo (name : Text) (argument : Option Text)

/-- The piece that a text starts with, and what follows it. -/
def piece? (t : Text) : Option (Piece × Text) :=
  match t with
  | [] => none
  | u :: rest =>
    if u == unit '#' then (name? rest).map fun (name, after) => (.id name, after)
    else if u == unit '.' then (name? rest).map fun (name, after) => (.class name, after)
    else if u == unit '[' then
      (attributeTest? rest).map fun (test, after) => (.attribute test, after)
    else if u == unit ':' then
      (pseudo? rest).map fun ((name, argument), after) => (.pseudo name argument, after)
    else none

/-- All pieces of a text; `none` when something else stands among them. Every piece takes a unit
or more, so there are no more pieces than units. -/
def piecesWithin? : Nat → Text → Option (List Piece)
  | _, [] => some []
  | 0, _ => none
  | n + 1, t => do
    let (p, rest) ← piece? t
    let ps ← piecesWithin? n rest
    return p :: ps

/-- The compound of a tag and pieces. Of several ids the last one counts. -/
def compoundOf {π : Type} (pseudoOf : Text → Option Text → π) (tag : Option Text)
    (pieces : List Piece) : Compound π where
  tag := tag
  id := (pieces.filterMap fun | .id name => some name | _ => none).getLast?
  classes := pieces.filterMap fun | .class name => some name | _ => none
  attributes := pieces.filterMap fun | .attribute test => some test | _ => none
  pseudos := pieces.filterMap fun
    | .pseudo name argument => some (pseudoOf name argument)
    | _ => none

/-- The compound that a whole text writes. -/
def compound? {π : Type} (pseudoOf : Text → Option Text → π) (t : Text) : Option (Compound π) :=
  let (tag, rest) := (tag? t).getD (none, t)
  (piecesWithin? rest.length rest).map (compoundOf pseudoOf tag)

def PlainPseudo.ofName (name : Text) : PlainPseudo :=
  if name == Text.ofString "root" then .root
  else if name == Text.ofString "first-child" then .firstChild
  else if name == Text.ofString "last-child" then .lastChild
  else if name == Text.ofString "not" then .anything
  else .unknown name

def Pseudo.of (name : Text) (argument : Option Text) : Pseudo :=
  match argument with
  | some argument =>
    if name == Text.ofString "not" then
      let argument := argument.trim
      .negation (((compound? fun name _ => .ofName name) argument).elim (.error argument) .ok)
    else .plain (.ofName name)
  | none => .plain (.ofName name)

/-- The words of an alternative, with `>` as a word of its own. -/
def chainWords (t : Text) : List Text :=
  Text.words (t.flatMap fun u => if u == unit '>' then [unit ' ', u, unit ' '] else [u])

/-- The steps that the words of an alternative write, the first one first. A `>` before the first
compound or behind the last has no effect. -/
def stepsOf (combinator : Combinator) : List Text → Except Fault (List Step)
  | [] => return []
  | w :: ws => do
    if w == [unit '>'] then stepsOf .child ws
    else
      match compound? Pseudo.of w with
      | none => throw (.unsupportedSelector w)
      | some c =>
        let steps ← stepsOf .descendant ws
        return ⟨combinator, c⟩ :: steps

/-- The chain that an alternative writes. -/
def chainOf (t : Text) : Except Fault Chain := do
  return (← stepsOf .descendant (chainWords t)).reverse

/-- Reads a selector. Alternatives of white space alone do not count. -/
def read (t : Text) : Except Fault Alternatives :=
  (((Text.splitOn [unit ','] t).map Text.trim).filter (!·.isEmpty)).mapM chainOf

end Selector

end PageTemplate
