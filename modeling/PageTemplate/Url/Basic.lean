import PageTemplate.Text.Percent
import PageTemplate.Text.Search

/-!
# PageTemplate.Url.Basic

Addresses of resources, and how they are written. Hosts are names of ASCII characters or numbers
with points.
-/

namespace PageTemplate

/-- What an address leads to inside its host: a text that is not looked into, or segments. -/
inductive UrlPath where
  | whole (t : Text)
  | segments (ss : List Text)
  deriving Repr, DecidableEq

structure Url where
  scheme : Text
  user : Text
  password : Text
  /-- The host; `none` when the address has no place for one. -/
  host : Option Text
  /-- The number behind the host, unless it goes without saying. -/
  portNumber : Option Nat
  path : UrlPath
  query : Option Text
  fragment : Option Text
  deriving Repr, DecidableEq

namespace Url

/-- The schemes that always have a host, with the `portNumber` that goes without saying. Files have
none. -/
def specialSchemes : List (String × Option Nat) :=
  [("http", some 80), ("https", some 443), ("ws", some 80), ("wss", some 443), ("ftp", some 21),
    ("file", none)]

def isSpecialScheme (scheme : Text) : Bool :=
  specialSchemes.any fun (name, _) => scheme == Text.ofString name

/-- The number that goes without saying. -/
def defaultPortNumber (scheme : Text) : Option Nat :=
  (specialSchemes.find? fun (name, _) => scheme == Text.ofString name).bind (·.2)

def fileScheme : Text := "file"

/-! Which characters a part of an address cannot hold as they are. -/

def isControl (n : Nat) : Bool := n ≤ 0x1F || 0x7E < n

/-- Whether a code point is one of some ASCII characters. -/
def isOneOf (chars : String) (n : Nat) : Bool := chars.toList.any fun c => c.toNat == n

def escapedInFragment (n : Nat) : Bool := isControl n || isOneOf " \"<>`" n

def escapedInQuery (n : Nat) : Bool := isControl n || isOneOf " \"#<>" n

def escapedInSpecialQuery (n : Nat) : Bool := escapedInQuery n || isOneOf "'" n

def escapedInPath (n : Nat) : Bool := escapedInQuery n || isOneOf "?`\x7b\x7d" n

def escapedInUser (n : Nat) : Bool := escapedInPath n || isOneOf "/:;=@[\\]^|" n

/-- The characters that the name of a host cannot have. -/
def isForbiddenInHost (u : CodeUnit) : Bool :=
  u == 0 || u == 9 || u == 10 || u == 13 || isOneOf " #/:<>?@[\\]^|" u.toNat

/-- The characters that the name of a host of a special scheme cannot have. -/
def isForbiddenInDomain (u : CodeUnit) : Bool :=
  isForbiddenInHost u || u ≤ 0x1F || u == unit '%' || 0x7F ≤ u

/-- A text with the code points that pass a test written as percent signs and digits. -/
def escape (isEscaped : Nat → Bool) (t : Text) : Text :=
  t.codePoints.flatMap fun n =>
    if isEscaped n then (Utf8.encode (Text.ofCodePoint n)).flatMap Percent.encodeByte
    else Text.ofCodePoint n

/-- The bytes of a text with percent signs and digits read as bytes. -/
def unescapeBytes : Text → List UInt8
  | [] => []
  | [u] => Utf8.encode [u]
  | [u, v] => Utf8.encode [u, v]
  | u :: a :: b :: rest =>
    if u == unit '%' && CodeUnit.isHexDigit a && CodeUnit.isHexDigit b then
      (Text.readNat 16 [a, b]).toUInt8 :: unescapeBytes rest
    else if CodeUnit.isLead u && CodeUnit.isTrail a then
      Utf8.encode [u, a] ++ unescapeBytes (b :: rest)
    else Utf8.encode [u] ++ unescapeBytes (a :: b :: rest)

/-! Writing an address. -/

/-- The path as it is written. -/
def pathname (u : Url) : Text :=
  match u.path with
  | .whole t => t
  | .segments ss => ss.flatMap fun s => unit '/' :: s

/-- A part with its mark; nothing when the part is empty. -/
def marked (mark : Char) : Option Text → Text
  | none | some [] => []
  | some t => unit mark :: t

/-- The query with its mark, nothing when it is empty. -/
def search (u : Url) : Text := marked '?' u.query

/-- The fragment with its mark, nothing when it is empty. -/
def hash (u : Url) : Text := marked '#' u.fragment

/-- The user and password with the sign behind them. -/
def credentials (u : Url) : Text :=
  if u.user.isEmpty && u.password.isEmpty then []
  else u.user ++ (if u.password.isEmpty then [] else unit ':' :: u.password) ++ [unit '@']

/-- What stands between scheme and path. -/
def authority (u : Url) : Text :=
  match u.host with
  | some host =>
    "//" ++ credentials u ++ host ++ u.portNumber.elim [] fun p => unit ':' :: Text.ofNat p
  | none =>
    match u.path with
    | .segments ([] :: _ :: _) => "/."
    | _ => []

/-- The whole address. -/
def toText (u : Url) : Text :=
  u.scheme ++ unit ':' :: authority u ++ pathname u ++
    u.query.elim [] (fun q => unit '?' :: q) ++ u.fragment.elim [] (fun f => unit '#' :: f)

end Url

end PageTemplate
