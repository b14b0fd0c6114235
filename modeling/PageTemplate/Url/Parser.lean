import PageTemplate.Url.Basic

/-!
# PageTemplate.Url.Parser

Reading addresses, alone or relative to another one.
-/

namespace PageTemplate

namespace Url

/-- White space and control characters at the ends do not count, nor do tabs and line ends. -/
def clean (t : Text) : Text :=
  let isEdge (u : CodeUnit) : Bool := u ≤ 0x20
  (Text.dropEndWhile isEdge (t.dropWhile isEdge)).filter fun u => u != 9 && u != 10 && u != 13

/-- The scheme of a text, in lower case, and what follows its colon. -/
def scheme? (t : Text) : Option (Text × Text) :=
  let isSchemeUnit (u : CodeUnit) : Bool :=
    CodeUnit.isLetter u || CodeUnit.isDigit u || u == unit '+' || u == unit '-' || u == unit '.'
  match t.head?, t.dropWhile isSchemeUnit with
  | some first, colon :: rest =>
    if CodeUnit.isLetter first && colon == unit ':' then
      some (Text.asciiLower (t.takeWhile isSchemeUnit), rest)
    else none
  | _, _ => none

/-- Whether a unit separates the segments of a path. -/
def isSlash (special : Bool) (u : CodeUnit) : Bool := u == unit '/' || (special && u == unit '\\')

/-- Whether a unit ends the path. -/
def endsPath (u : CodeUnit) : Bool := u == unit '?' || u == unit '#'

/-- Adds the query and fragment that a text writes. -/
def withTail (u : Url) (t : Text) : Url :=
  match t with
  | [] => u
  | c :: rest =>
    if c == unit '#' then { u with fragment := some (escape escapedInFragment rest) }
    else
      let isEscaped := if isSpecialScheme u.scheme then escapedInSpecialQuery else escapedInQuery
      let query := some (escape isEscaped (rest.takeWhile (· != unit '#')))
      match rest.dropWhile (· != unit '#') with
      | [] => { u with query := query }
      | _ :: fragment =>
        { u with query := query, fragment := some (escape escapedInFragment fragment) }

/-- A segment in lower case, with the written-out form of a point as a point. -/
def plainPoints (s : Text) : Text := Text.replaceAll "%2e" "." (Text.asciiLower s)

def isSinglePoint (s : Text) : Bool := plainPoints s == Text.ofString "."

def isDoublePoint (s : Text) : Bool := plainPoints s == Text.ofString ".."

/-- Whether a text is the letter of a drive with a colon or a bar. -/
def isDrive (t : Text) : Bool :=
  match t with
  | [letter, mark] => CodeUnit.isLetter letter && (mark == unit ':' || mark == unit '|')
  | _ => false

/-- Whether a path starts with the letter of a drive. -/
def startsWithDrive (t : Text) : Bool :=
  isDrive (t.take 2) &&
    match t.drop 2 with
    | [] => true
    | u :: _ => isSlash true u || endsPath u

/-- Whether a segment is the letter of a drive with a colon. -/
def isPlainDrive (s : Text) : Bool := isDrive s && s.getLast? == some (unit ':')

/-- Drops the last segment. The drive of a file stays. -/
def shorten (scheme : Text) (segments : List Text) : List Text :=
  match segments with
  | [s] => if scheme == fileScheme && isPlainDrive s then [s] else []
  | ss => ss.dropLast

/-- Adds one segment of a path; `last` says that no slash follows. Two points drop a segment. A
path ends in a slash behind them, but a path that has no segment to drop has a slash only when the
scheme is special. -/
def addSegment (scheme : Text) (segments : List Text) (s : Text) (last : Bool) : List Text :=
  if isDoublePoint s then
    let shorter := shorten scheme segments
    if last && (isSpecialScheme scheme || !segments.isEmpty) then shorter ++ [[]] else shorter
  else if isSinglePoint s then (if last then segments ++ [[]] else segments)
  else if scheme == fileScheme && segments.isEmpty && isDrive s then
    segments ++ [s.take 1 ++ [unit ':']]
  else segments ++ [s]

/-- The pieces of a path between its slashes. -/
def pieces (special : Bool) (t : Text) : List Text :=
  t.foldr (fun u pieces =>
    if isSlash special u then [] :: pieces
    else
      match pieces with
      | p :: ps => (u :: p) :: ps
      | [] => [[u]]) [[]]

/-- Adds the pieces of a path one after another. -/
def addPieces (scheme : Text) (segments : List Text) : List Text → List Text
  | [] => segments
  | [s] => addSegment scheme segments s true
  | s :: ss => addPieces scheme (addSegment scheme segments s false) ss

/-- Adds the segments that a text writes to a path, and what follows the path. -/
def withPath (u : Url) (segments : List Text) (t : Text) : Url :=
  let path := escape escapedInPath (t.takeWhile (!endsPath ·))
  let segments := addPieces u.scheme segments (pieces (isSpecialScheme u.scheme) path)
  withTail { u with path := .segments segments } (t.dropWhile (!endsPath ·))

/-- Adds the path behind a host. Only a special scheme has one without a slash. -/
def withHostPath (u : Url) (t : Text) : Url :=
  match t with
  | c :: rest =>
    if isSlash (isSpecialScheme u.scheme) c then withPath u [] rest
    else if isSpecialScheme u.scheme then withPath u [] t
    else withTail { u with path := .segments [] } t
  | [] => if isSpecialScheme u.scheme then withPath u [] [] else { u with path := .segments [] }

/-- The number that a part of an address of numbers writes: decimal, octal behind `0` or
hexadecimal behind `0x`. -/
def hostNumber? (t : Text) : Option Nat :=
  let (base, digits) : Nat × Text :=
    match t with
    | z :: x :: rest =>
      if z == unit '0' && CodeUnit.asciiLower x == unit 'x' then (16, rest)
      else if z == unit '0' then (8, x :: rest)
      else (10, t)
    | _ => (10, t)
  if t.isEmpty then none
  else if digits.all fun u => (CodeUnit.digitValue? u).any (· < base) then
    some (Text.readNat base digits)
  else none

/-- The parts of a host between its points, without an empty one at the end. -/
def hostParts (host : Text) : List Text :=
  let parts := Text.splitOn [unit '.'] host
  if 1 < parts.length && parts.getLast? == some [] then parts.dropLast else parts

/-- Whether a host has to be an address of numbers: its last part is a number. -/
def endsInNumber (host : Text) : Bool :=
  match (hostParts host).getLast? with
  | some part => (!part.isEmpty && part.all CodeUnit.isDigit) || (hostNumber? part).isSome
  | none => false

/-- The address of four numbers that a host writes. The last number written fills all places that
are left. -/
def numberHost? (host : Text) : Option Text := do
  let parts := hostParts host
  if 4 < parts.length then none
  let numbers ← parts.mapM hostNumber?
  let last := numbers.getLastD 0
  let first := numbers.dropLast
  if first.any (255 < ·) || Nat.pow 256 (4 - first.length) ≤ last then none
  let value := (first.zipIdx.map fun (n, i) => n * Nat.pow 256 (3 - i)).foldl (· + ·) last
  return Text.join [unit '.']
    ([value / 0x1000000, value / 0x10000 % 256, value / 256 % 256, value % 256].map Text.ofNat)

/-- The host that a text writes. -/
def host? (special : Bool) (t : Text) : Option Text :=
  if special then
    let host := Text.asciiLower (Utf8.decode (unescapeBytes t))
    if host.isEmpty || host.any isForbiddenInDomain then none
    else if endsInNumber host then numberHost? host
    else some host
  else if t.any isForbiddenInHost then none
  else some (escape isControl t)

/-- The `portNumber` that a text writes; none when it is empty or goes without saying. -/
def portNumber? (scheme t : Text) : Option (Option Nat) :=
  if t.isEmpty then some none
  else if !t.all CodeUnit.isDigit then none
  else
    let n := Text.readNat 10 t
    if 65535 < n then none else some (if defaultPortNumber scheme == some n then none else some n)

/-- The text before the last occurrence of a unit, if there is one, and the text after it. -/
def breakAtLast (u : CodeUnit) (t : Text) : Option Text × Text :=
  match Text.breakAt u t.reverse with
  | some (after, before) => (some before.reverse, after.reverse)
  | none => (none, t)

/-- Adds what stands before the path: user, password, host and `portNumber`. -/
def withAuthority (u : Url) (t : Text) : Option Url := do
  let special := isSpecialScheme u.scheme
  let (login, place) := breakAtLast (unit '@') t
  let (user, password) := login.elim (([] : Text), ([] : Text)) fun login =>
    (Text.breakAt (unit ':') login).getD (login, [])
  let (name, digits) := (Text.breakAt (unit ':') place).getD (place, [])
  let isNumbered := place.contains (unit ':')
  if name.isEmpty && (special || isNumbered || login.isSome) then none
  let host ← host? special name
  let portNumber ← portNumber? u.scheme digits
  return { u with user := escape escapedInUser user, password := escape escapedInUser password,
                  host := some host, portNumber := portNumber }

/-- The address behind `//`. -/
def afterSlashes (u : Url) (t : Text) : Option Url := do
  let special := isSpecialScheme u.scheme
  let inside (c : CodeUnit) : Bool := !isSlash special c && !endsPath c
  let u ← withAuthority u (t.takeWhile inside)
  return withHostPath u (t.dropWhile inside)

/-- The address of a special scheme behind any number of slashes. -/
def afterAnySlashes (u : Url) (t : Text) : Option Url := afterSlashes u (t.dropWhile (isSlash true))

/-- An address without parts. -/
def blank (scheme : Text) : Url := ⟨scheme, [], [], none, none, .segments [], none, none⟩

def segmentsOf (u : Url) : List Text :=
  match u.path with
  | .segments ss => ss
  | .whole _ => []

/-- The address of a file behind `//`. -/
def fileHost (u : Url) (t : Text) : Option Url := do
  let inside (c : CodeUnit) : Bool := !isSlash true c && !endsPath c
  let name := t.takeWhile inside
  if isDrive name then return withPath u [] t
  else if name.isEmpty then return withHostPath u (t.dropWhile inside)
  else
    let host ← host? true name
    let host := if host == Text.ofString "localhost" then [] else host
    return withHostPath { u with host := some host } (t.dropWhile inside)

/-- The address of a file behind its scheme, relative to another file if there is one. -/
def file (base : Option Url) (t : Text) : Option Url := do
  let u := { blank fileScheme with host := some [] }
  let isFile (b : Url) : Bool := b.scheme == fileScheme
  match t with
  | c :: d :: rest =>
    if isSlash true c && isSlash true d then fileHost u rest
    else return behind (base.filter isFile) u t
  | t => return behind (base.filter isFile) u t
where
  /-- The path of a file. -/
  behind (base : Option Url) (u : Url) (t : Text) : Url :=
    match t, base with
    | c :: rest, _ =>
      if isSlash true c then
        match base with
        | some b =>
          let drive := ((segmentsOf b).take 1).filter isPlainDrive
          withPath { u with host := b.host } (if startsWithDrive rest then [] else drive) rest
        | none => withPath u [] rest
      else
        match base with
        | some b =>
          let b := { u with host := b.host, path := b.path, query := b.query }
          if c == unit '#' then withTail b t
          else if c == unit '?' then withTail { b with query := none } t
          else if startsWithDrive t then withPath { b with query := none } [] t
          else withPath { b with query := none } (shorten fileScheme (segmentsOf b)) t
        | none => withPath u [] t
    | [], some b => { u with host := b.host, path := b.path, query := b.query }
    | [], none => withPath u [] []

/-- An address relative to another one that has a path of segments and is no file. -/
def relative (base : Url) (t : Text) : Option Url :=
  let special := isSpecialScheme base.scheme
  let u := { base with fragment := none }
  match t with
  | [] => some u
  | c :: rest =>
    if isSlash special c then
      match rest with
      | d :: more =>
        if isSlash special d then
          if special then afterAnySlashes (blank base.scheme) more
          else afterSlashes (blank base.scheme) more
        else some (withPath { u with query := none } [] rest)
      | [] => some (withPath { u with query := none } [] rest)
    else if c == unit '?' then some (withTail { u with query := none } t)
    else if c == unit '#' then some (withTail u t)
    else some (withPath { u with query := none } (shorten base.scheme (segmentsOf base)) t)

/-- A link relative to an address whose path is not looked into. Only a link with a fragment can be;
if there is more to it, the path is taken apart at its slashes after all. -/
def relativeToWhole (base : Url) (path t : Text) : Option Url :=
  match t with
  | [] => none
  | c :: _ =>
    if c == unit '#' then some (withTail { base with fragment := none } t)
    else if !t.contains (unit '#') then none
    else if c == unit '/' || c == unit '?' then relative base t
    else
      let parts := Text.splitOn [unit '/'] path
      let segments := shorten base.scheme (parts.drop 1)
      let u := withPath { base with query := none, fragment := none } segments t
      some { u with path := .whole (parts.headD [] ++ pathname u) }

/-- The address behind a scheme that is not special. -/
def afterPlainScheme (scheme t : Text) : Option Url :=
  let u := blank scheme
  match t with
  | c :: d :: rest =>
    if c == unit '/' && d == unit '/' then afterSlashes u rest
    else if c == unit '/' then some (withPath u [] (d :: rest))
    else some (opaquePath u t)
  | [c] => some (if c == unit '/' then withPath u [] [] else opaquePath u t)
  | [] => some (opaquePath u [])
where
  /-- A path that is not looked into. -/
  opaquePath (u : Url) (t : Text) : Url :=
    withTail { u with path := .whole (escape isControl (t.takeWhile (!endsPath ·))) }
      (t.dropWhile (!endsPath ·))

/-- Whether a text starts with two slashes. -/
def startsWithSlashes (t : Text) : Bool := Text.startsWith t "//"

/-- Reads an address, relative to another one if there is one. -/
def parse? (base : Option Url) (t : Text) : Option Url :=
  let t := clean t
  match scheme? t with
  | some (scheme, rest) =>
    if scheme == fileScheme then file base rest
    else if isSpecialScheme scheme then
      match base with
      | some b =>
        if b.scheme == scheme && !startsWithSlashes rest then relative b rest
        else afterAnySlashes (blank scheme) rest
      | none => afterAnySlashes (blank scheme) rest
    else afterPlainScheme scheme rest
  | none =>
    match base with
    | none => none
    | some b =>
      match b.path with
      | .whole path => relativeToWhole b path t
      | .segments _ => if b.scheme == fileScheme then file base t else relative b t

end Url

end PageTemplate
