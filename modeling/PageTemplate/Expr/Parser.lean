import PageTemplate.Assoc
import PageTemplate.Expr.Syntax
import PageTemplate.Number.Format
import PageTemplate.Number.Read
import PageTemplate.Text.Blank
import PageTemplate.Text.Identifier

/-!
# PageTemplate.Expr.Parser

The reader of programs: recursive descent with one function for all levels of binary operators.
Nesting is limited, and every step takes a unit of the text or descends towards the primary
expressions, so fuel in proportion to the length of the text is enough.
-/

namespace PageTemplate

namespace Program

/-- Why a text is no program. A place is given by the number of units from there to the end. -/
inductive ParseFault where
  | unexpectedUnit (found : CodeUnit) (remaining : Nat)
  | unexpectedEnd
  | expected (wanted : Char) (remaining : Nat)
  | expectedColon
  | invalidTarget
  | expectedProperty
  | unterminatedText
  /-- No key of an object literal; `none` at the end of the text. -/
  | unexpectedKey (found : Option CodeUnit)
  | tooDeep
  | outOfFuel
  deriving Repr, DecidableEq

/-- The deepest nesting of expressions. -/
def maxNesting : Nat := 50

/-- The message of a fault in a text of the given length. -/
def ParseFault.message (length : Nat) : ParseFault → Text
  | .unexpectedUnit found remaining =>
    "Unexpected token \"" ++ [found] ++ "\" at " ++ Text.ofNat (length - remaining)
  | .unexpectedEnd => "Unexpected end of expression"
  | .expected wanted remaining =>
    "Expected '" ++ [unit wanted] ++ "' at " ++ Text.ofNat (length - remaining)
  | .expectedColon => "Expected ':' in ternary"
  | .invalidTarget => "Invalid assignment target"
  | .expectedProperty => "Expected property name after '.'"
  | .unterminatedText => "Unterminated string"
  | .unexpectedKey found =>
    "Unexpected token \"" ++ (found.elim (Text.ofString "undefined") fun u => [u]) ++
      "\" in object literal"
  | .tooDeep => "Expression exceeds maximum nesting depth (" ++ Text.ofNat maxNesting ++ ")"
  | .outOfFuel => []

def skip (t : Text) : Text := Text.trimStart t

/-- Whether a text starts with a unit. -/
def startsWithUnit (c : Char) : Text → Bool
  | u :: _ => u == unit c
  | [] => false

/-- The identifier that a text starts with. -/
def identifier? (t : Text) : Option (Text × Text) :=
  match t with
  | u :: _ =>
    if CodeUnit.isIdentifierStart u then
      some (t.takeWhile CodeUnit.isIdentifierPart, t.dropWhile CodeUnit.isIdentifierPart)
    else none
  | [] => none

/-- What follows a word that a text starts with; the word must not be the start of a longer
identifier. -/
def afterWord? (word : String) (t : Text) : Option Text :=
  match Text.afterPrefix word t with
  | some (u :: rest) => if CodeUnit.isIdentifierPart u then none else some (u :: rest)
  | r => r

/-- What follows white space and a given unit. -/
def expect (c : Char) (t : Text) : Except ParseFault Text :=
  let t := skip t
  match t with
  | u :: rest => if u == unit c then .ok rest else .error (.expected c t.length)
  | [] => .error (.expected c 0)

/-- The unit that a unit behind a backslash stands for. -/
def unescape (u : CodeUnit) : CodeUnit :=
  if u == unit 'n' then 10 else if u == unit 't' then 9 else if u == unit 'r' then 13 else u

/-- The text up to a closing quote, and what follows the quote. -/
def quoted? (quote : CodeUnit) : Text → Option (Text × Text)
  | [] => none
  | u :: rest =>
    if u == quote then some ([], rest)
    else if u == unit '\\' then
      match rest with
      | [] => none
      | e :: more => (quoted? quote more).map fun (t, after) => (unescape e :: t, after)
    else (quoted? quote rest).map fun (t, after) => (u :: t, after)

/-- A quoted text behind its opening quote. -/
def quoted (quote : CodeUnit) (t : Text) : Except ParseFault (Text × Text) :=
  match quoted? quote t with
  | some r => .ok r
  | none => .error .unterminatedText

/-- Whether a text starts with a number: a digit, or a minus sign and a digit. -/
def startsNumber : Text → Bool
  | u :: rest => CodeUnit.isDigit u || (u == unit '-' && (rest.head?.any CodeUnit.isDigit))
  | [] => false

/-- The number that a text starts with. -/
def number (t : Text) : Float × Text := (Number.scanSigned? t).getD (Number.nan, t)

/-- The words that write a value. -/
def keywords : List (Text × Literal) :=
  [("true", Literal.bool true), ("false", .bool false), ("null", .null),
    ("undefined", .undefined), ("NaN", .number Number.nan),
    ("Infinity", .number Number.infinity)].map fun (word, l) => (Text.ofString word, l)

/-- The expression that an identifier is. -/
def ofIdentifier (word : Text) : Expr :=
  match Assoc.find? word keywords with
  | some l => .literal l
  | none => .name word

/-- The operators of each level, the weakest level first. An operator comes before its own
beginnings. -/
def operatorLevels : List (List BinaryOp) :=
  [[.or], [.and], [.otherwise], [.identical, .distinct, .equal, .unequal],
    [.within, .atMost, .atLeast, .less, .greater], [.add, .subtract],
    [.multiply, .divide, .remainder]]

/-- What follows an operator that a text starts with. A word must end there; a sign of addition
before an equals sign is none. -/
def afterOperator? (op : BinaryOp) (t : Text) : Option Text :=
  match op with
  | .within => afterWord? op.sign t
  | .add | .subtract =>
    match Text.afterPrefix op.sign t with
    | some rest => if startsWithUnit '=' rest then none else some rest
    | none => none
  | op => Text.afterPrefix op.sign t

/-- The first of some operators that a text starts with. -/
def operator? (ops : List BinaryOp) (t : Text) : Option (BinaryOp × Text) :=
  ops.findSome? fun op => (afterOperator? op t).map (op, ·)

/-- The unary operator that a text starts with. A sign before a digit belongs to a number, and an
exclamation mark before an equals sign to a comparison. -/
def unaryOperator? (t : Text) : Option (UnaryOp × Text) :=
  match t with
  | u :: rest =>
    if u == unit '!' && !startsWithUnit '=' rest then some (.not, rest)
    else if u == unit '-' && !rest.head?.any CodeUnit.isDigit then some (.negate, rest)
    else if u == unit '+' && !rest.head?.any CodeUnit.isDigit then some (.toNumber, rest)
    else (afterWord? "typeof" t).map (.typeName, ·)
  | [] => none

/-- What follows an assignment sign that a text starts with. -/
def afterAssignment? (t : Text) : Option Text :=
  match t with
  | u :: rest => if u == unit '=' && !startsWithUnit '=' rest then some rest else none
  | [] => none

/-- What follows a question mark that a text starts with and that stands alone. -/
def afterQuestion? (t : Text) : Option Text :=
  match t with
  | u :: rest => if u == unit '?' && !startsWithUnit '?' rest then some rest else none
  | [] => none

/-- The assignment to an expression, if it can be assigned to. -/
def assign? (target value : Expr) : Option Expr :=
  match target with
  | .name n => some (.assignName n value)
  | .member object property => some (.assignMember object property value)
  | _ => none

/-- Whether an expression can be assigned to. -/
def isTarget : Expr → Bool
  | .name _ | .member .. => true
  | _ => false

/-- The name of a property as it is written: in quotes, as a number or as an identifier. -/
def propertyName (u : CodeUnit) (rest : Text) : Except ParseFault (Text × Text) :=
  if u == unit '"' || u == unit '\'' then quoted u rest
  else if CodeUnit.isDigit u then
    let (x, rest) := number (u :: rest)
    .ok (Number.format x, rest)
  else
    match identifier? (u :: rest) with
    | some r => .ok r
    | none => .error (.unexpectedKey (some u))

mutual

/-- An expression of any kind. `nesting` is how much deeper expressions may lie. -/
def expression (fuel nesting : Nat) (t : Text) : Except ParseFault (Expr × Text) :=
  match fuel, nesting with
  | 0, _ => .error .outOfFuel
  | _, 0 => .error .tooDeep
  | n + 1, d + 1 => do
    let (target, rest) ← ternary n d t
    let rest := skip rest
    match afterAssignment? rest with
    | none => return (target, rest)
    | some rest =>
      if !isTarget target then throw .invalidTarget
      let (value, rest) ← expression n d rest
      match assign? target value with
      | some e => return (e, rest)
      | none => throw .invalidTarget

/-- A condition with its two outcomes, or what stands alone. -/
def ternary (fuel nesting : Nat) (t : Text) : Except ParseFault (Expr × Text) :=
  match fuel with
  | 0 => .error .outOfFuel
  | n + 1 => do
    let (condition, rest) ← binary n nesting operatorLevels t
    let rest := skip rest
    match afterQuestion? rest with
    | none => return (condition, rest)
    | some rest =>
      let (consequent, rest) ← expression n nesting rest
      match skip rest with
      | u :: rest =>
        if u != unit ':' then throw .expectedColon
        let (alternate, rest) ← expression n nesting rest
        return (.ternary condition consequent alternate, rest)
      | [] => throw .expectedColon

/-- Operands joined by the operators of the given levels. -/
def binary (fuel nesting : Nat) (levels : List (List BinaryOp)) (t : Text) :
    Except ParseFault (Expr × Text) :=
  match fuel, levels with
  | 0, _ => .error .outOfFuel
  | n + 1, [] => unary n nesting t
  | n + 1, ops :: stronger => do
    let (left, rest) ← binary n nesting stronger t
    climb n nesting ops stronger left rest

/-- Further operands of one level, to the right of what is read already. -/
def climb (fuel nesting : Nat) (ops : List BinaryOp) (stronger : List (List BinaryOp))
    (left : Expr) (t : Text) : Except ParseFault (Expr × Text) :=
  match fuel with
  | 0 => .error .outOfFuel
  | n + 1 =>
    let t := skip t
    match operator? ops t with
    | none => .ok (left, t)
    | some (op, rest) => do
      let (right, rest) ← binary n nesting stronger rest
      climb n nesting ops stronger (.binary op left right) rest

/-- An operand with the unary operators before it. -/
def unary (fuel nesting : Nat) (t : Text) : Except ParseFault (Expr × Text) :=
  match fuel with
  | 0 => .error .outOfFuel
  | n + 1 =>
    let t := skip t
    match unaryOperator? t with
    | some (op, rest) => do
      let (operand, rest) ← unary n nesting rest
      return (.unary op operand, rest)
    | none => do
      let (object, rest) ← primary n nesting t
      postfixes n nesting object rest

/-- The members and calls behind an operand. -/
def postfixes (fuel nesting : Nat) (object : Expr) (t : Text) : Except ParseFault (Expr × Text) :=
  match fuel with
  | 0 => .error .outOfFuel
  | n + 1 =>
    let t := skip t
    match t with
    | [] => .ok (object, t)
    | u :: rest =>
      if u == unit '.' then
        match identifier? (skip rest) with
        | some (name, rest) =>
          postfixes n nesting (.member object (.literal (.text name))) rest
        | none => .error .expectedProperty
      else if u == unit '[' then do
        let (property, rest) ← expression n nesting rest
        postfixes n nesting (.member object property) (← expect ']' rest)
      else if u == unit '(' then do
        let (arguments, rest) ← items n nesting ')' rest
        postfixes n nesting (.call object arguments) (← expect ')' rest)
      else .ok (object, t)

/-- Expressions with commas between them, up to a closing unit. A comma may stand behind the last
one. -/
def items (fuel nesting : Nat) (close : Char) (t : Text) : Except ParseFault (List Expr × Text) :=
  match fuel with
  | 0 => .error .outOfFuel
  | n + 1 =>
    let t := skip t
    if startsWithUnit close t then .ok ([], t)
    else do
      let (item, rest) ← expression n nesting t
      match skip rest with
      | u :: rest =>
        if u == unit ',' then
          let (more, rest) ← items n nesting close rest
          return (item :: more, rest)
        else return ([item], u :: rest)
      | [] => return ([item], [])

/-- The properties of an object literal, up to its closing brace. -/
def properties (fuel nesting : Nat) (t : Text) : Except ParseFault (List (Expr × Expr) × Text) :=
  match fuel with
  | 0 => .error .outOfFuel
  | n + 1 =>
    let t := skip t
    if startsWithUnit '\x7d' t then .ok ([], t)
    else do
      let (p, rest) ← property n nesting t
      match skip rest with
      | u :: rest =>
        if u == unit ',' then
          let (more, rest) ← properties n nesting rest
          return (p :: more, rest)
        else return ([p], u :: rest)
      | [] => return ([p], [])

/-- A property of an object literal. A name without a value stands for the value of that name. -/
def property (fuel nesting : Nat) (t : Text) : Except ParseFault ((Expr × Expr) × Text) :=
  match fuel with
  | 0 => .error .outOfFuel
  | n + 1 =>
    match skip t with
    | [] => .error (.unexpectedKey none)
    | u :: rest =>
      if u == unit '[' then do
        let (key, rest) ← expression n nesting rest
        let rest ← expect ']' rest
        let (value, rest) ← expression n nesting (← expect ':' rest)
        return ((key, value), rest)
      else do
        let (name, rest) ← propertyName u rest
        match skip rest with
        | c :: rest =>
          if c == unit ':' then
            let (value, rest) ← expression n nesting rest
            return ((.literal (.text name), value), rest)
          else return ((.literal (.text name), .name name), c :: rest)
        | [] => return ((.literal (.text name), .name name), [])

/-- What stands without an operator: brackets, a literal or a name. -/
def primary (fuel nesting : Nat) (t : Text) : Except ParseFault (Expr × Text) :=
  match fuel with
  | 0 => .error .outOfFuel
  | n + 1 =>
    let t := skip t
    match t with
    | [] => .error .unexpectedEnd
    | u :: rest =>
      if u == unit '(' then do
        let (e, rest) ← expression n nesting rest
        return (e, ← expect ')' rest)
      else if u == unit '[' then do
        let (elements, rest) ← items n nesting ']' rest
        return (.array elements, ← expect ']' rest)
      else if u == unit '\x7b' then do
        let (ps, rest) ← properties n nesting rest
        return (.object ps, ← expect '\x7d' rest)
      else if u == unit '"' || u == unit '\'' || u == 0x60 then do
        let (value, rest) ← quoted u rest
        return (.literal (.text value), rest)
      else if startsNumber t then
        let (x, rest) := number t
        .ok (.literal (.number x), rest)
      else
        match identifier? t with
        | some (word, rest) => .ok (ofIdentifier word, rest)
        | none => .error (.unexpectedUnit u t.length)

end

/-- What follows white space and semicolons. -/
def skipSeparators (t : Text) : Text := t.dropWhile fun u => isBlank u || u == unit ';'

/-- Enough fuel for a text of the given length: between two units taken, fewer than 16 steps
descend. -/
def fuelFor (length : Nat) : Nat := 16 * (length + 2)

/-- Statements with semicolons between them. -/
def statements (fuel : Nat) (t : Text) : Except ParseFault Program :=
  match fuel with
  | 0 => .error .outOfFuel
  | n + 1 =>
    let t := skipSeparators t
    if t.isEmpty then .ok []
    else do
      let (e, rest) ← expression (fuelFor t.length) maxNesting t
      match skip rest with
      | [] => return [e]
      | u :: rest =>
        if u != unit ';' then throw (.unexpectedUnit u (u :: rest).length)
        return e :: (← statements n rest)

/-- Reads a program. White space around it does not count. -/
def parse (t : Text) : Except ParseFault Program :=
  let t := t.trim
  statements (t.length + 1) t

/-- Why a text is no program, in words. -/
def parseMessage (t : Text) (f : ParseFault) : Text := f.message t.trim.length

end Program

end PageTemplate
