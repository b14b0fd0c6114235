import PageTemplate.Markup.Entity
import PageTemplate.Markup.Node
import PageTemplate.Text.Blank
import PageTemplate.Text.Case

/-!
# PageTemplate.Markup.Token

The lexical pieces of markup. A piece is read from the start of a text together with the text after
it, which is always shorter, so reading piece by piece comes to an end.

Reading is forgiving: a `<` that starts nothing is text, and a tag may end with the text. The only
failure is inline code without an end.
-/

namespace PageTemplate

namespace Markup

/-- How markup is read: the tags whose content is verbatim, and whether `<%` starts inline code. -/
structure ReadOptions where
  rawTags : List Text
  inlineCode : Bool

/-- The tags that are verbatim are those given, in lower case, and the ones that always are. -/
def ReadOptions.of (rawTags : List Text) (inlineCode : Bool) : ReadOptions :=
  ⟨alwaysRawTags ++ rawTags.map Text.toLower, inlineCode⟩

/-- A lexical piece of markup. An opening tag holds its verbatim content if it has any. -/
inductive Token where
  | text (value : Text)
  | code (source : Text)
  | comment (value : Text)
  | doctype (value : Text)
  | close (tag : Text)
  | opening (tag : Text) (attributes : Attributes) (closed : Bool) (content : Option Text)

/-- Markup that cannot be read: inline code that starts at an offset has no end. -/
inductive Malformed where
  | unterminatedCode (offset : Nat)
  deriving Repr, DecidableEq

/-- The units that may follow the first letter of a tag name. -/
def isTagUnit (u : CodeUnit) : Bool := CodeUnit.isWord u || u == unit ':' || u == unit '-'

/-- The units of an attribute name: all but white space, `=`, `/` and `>`. -/
def isNameUnit (u : CodeUnit) : Bool :=
  !isBlank u && u != unit '=' && u != unit '/' && u != unit '>'

/-- The units of a value without quotes. -/
def isBareUnit (u : CodeUnit) : Bool := !isBlank u && u != unit '/' && u != unit '>'

/-- The value that starts behind the `=` of an attribute, and what follows it. -/
def attributeValue? (t : Text) : Option (Text × Text) :=
  let bare : Option (Text × Text) :=
    let run := t.takeWhile isBareUnit
    if run.isEmpty then none else some (run, t.dropWhile isBareUnit)
  match t with
  | q :: rest =>
    if q == unit '"' || q == unit '\'' then (Text.breakAt q rest).or bare else bare
  | [] => none

/-- The attribute that a text starts with, its value decoded, and what follows it. An attribute
without a value has the empty value. -/
def attribute? (t : Text) : Option ((Text × Text) × Text) :=
  let name := t.takeWhile isNameUnit
  let rest := t.dropWhile isNameUnit
  if name.isEmpty then none
  else
    let valued : Option (Text × Text) :=
      match Text.trimStart rest with
      | e :: more => if e == unit '=' then attributeValue? (Text.trimStart more) else none
      | [] => none
    match valued with
    | some (value, after) => some ((Text.toLower name, decodeReferences value), after)
    | none => some ((Text.toLower name, []), rest)

/-- What the inside of an opening tag starts with. -/
inductive TagPart where
  /-- The end of the tag, which may close itself, and what follows it. -/
  | finish (closed : Bool) (rest : Text)
  | attribute (name value after : Text)
  /-- A unit that starts no attribute. -/
  | stray (rest : Text)

def tagPart (t : Text) : TagPart :=
  match Text.trimStart t with
  | [] => .finish false []
  | u :: rest =>
    if u == unit '>' then .finish false rest
    else if u == unit '/' && rest.head? == some (unit '>') then .finish true (rest.drop 1)
    else
      match attribute? (u :: rest) with
      | some ((name, value), after) => .attribute name value after
      | none => .stray rest

/-- The inside of an opening tag behind its name: the attributes after those read so far, whether
the tag closes itself, and what follows. Units that start no attribute are passed over. -/
def attributesFrom (fuel : Nat) (done : Attributes) (t : Text) : Attributes × Bool × Text :=
  match fuel with
  | 0 => (done, false, [])
  | n + 1 =>
    match tagPart t with
    | .finish closed rest => (done, closed, rest)
    | .attribute name value after => attributesFrom n (Assoc.put name value done) after
    | .stray rest => attributesFrom n done rest

/-- The closing tag of a raw element at the start of a text, in any case, white space allowed
before its `>`; yields what follows. -/
def afterRawEnd? (tag t : Text) : Option Text :=
  let mark : Text := "</"
  let size := tag.length
  match Text.afterPrefix mark t with
  | none => none
  | some rest =>
    if Text.sameIgnoringAsciiCase (rest.take size) tag then
      match Text.trimStart (rest.drop size) with
      | u :: after => if u == unit '>' then some after else none
      | [] => none
    else none

/-- The verbatim content of a raw element and what follows its closing tag. Without a closing tag
the content reaches to the end. -/
def rawContent (tag : Text) : Text → Text × Text
  | [] => ([], [])
  | u :: rest =>
    match afterRawEnd? tag (u :: rest) with
    | some after => ([], after)
    | none => let (content, after) := rawContent tag rest; (u :: content, after)

/-- Whether a `<` at the start of a text may start a tag, a declaration or code, or is its last
unit. -/
def isTagLike : Text → Bool
  | [] => true
  | u :: _ => CodeUnit.isLetter u || u == unit '/' || u == unit '!' || u == unit '%'

/-- The text up to the next `<` that may start something, and the rest from that `<` on. -/
def untilTagLike : Text → Text × Text
  | [] => ([], [])
  | u :: rest =>
    if u == unit '<' && isTagLike rest then ([], u :: rest)
    else let (before, after) := untilTagLike rest; (u :: before, after)

/-- Reads the text before the first occurrence of `stop`, or all of it, and what follows. -/
def upTo (stop t : Text) : Text × Text := (Text.breakOn stop t).getD (t, [])

/-- A `<` that starts nothing, with the text up to the next place where something may start. -/
def strayText (rest : Text) : Token × Text :=
  let (before, after) := untilTagLike rest
  (.text (unit '<' :: before), after)

/-- An opening tag behind its `<`. -/
def openingTag (options : ReadOptions) (t : Text) : Token × Text :=
  let tag := Text.toLower (t.takeWhile isTagUnit)
  let rest := t.dropWhile isTagUnit
  let (attributes, closed, rest) := attributesFrom (rest.length + 1) [] rest
  if closed || isVoid tag then (.opening tag attributes true none, rest)
  else if options.rawTags.contains tag then
    let (content, rest) := rawContent tag rest
    (.opening tag attributes false (some content), rest)
  else (.opening tag attributes false none, rest)

/-- The piece that starts with a `<`, given the text behind it; `none` for code without an end. -/
def tagToken? (options : ReadOptions) (rest : Text) : Option (Token × Text) :=
  match rest with
  | [] => some (strayText rest)
  | u :: more =>
    if options.inlineCode && u == unit '%' then
      (Text.breakOn "%>" more).map fun (source, after) => (.code source, after)
    else if u == unit '!' then
      match Text.afterPrefix "--" more with
      | some inner => let (value, after) := upTo "-->" inner; some (.comment value, after)
      | none => let (value, after) := upTo ">" more; some (.doctype (Text.trim value), after)
    else if u == unit '/' then
      match Text.breakOn ">" more with
      | some (name, after) => some (.close (Text.toLower (Text.trim name)), after)
      | none => some (strayText rest)
    else if CodeUnit.isLetter u then some (openingTag options rest)
    else some (strayText rest)

/-- The first piece of a text and what follows it. -/
def token? (options : ReadOptions) (t : Text) : Option (Token × Text) :=
  match t with
  | [] => none
  | u :: rest =>
    if u == unit '<' then tagToken? options rest
    else some (.text (t.takeWhile (· != unit '<')), t.dropWhile (· != unit '<'))

/-- The pieces of a text. `total` is the length of the whole text, for the offset of a failure. -/
def tokensFrom (options : ReadOptions) (total : Nat) (fuel : Nat) (t : Text) :
    Except Malformed (List Token) :=
  match fuel, t with
  | _, [] => .ok []
  | 0, _ => .ok []
  | n + 1, t =>
    match token? options t with
    | none => .error (.unterminatedCode (total - t.length))
    | some (token, rest) => (tokensFrom options total n rest).map (token :: ·)

/-- The pieces of a text. Every piece takes at least one unit, so the length bounds their
number. -/
def tokens (options : ReadOptions) (t : Text) : Except Malformed (List Token) :=
  tokensFrom options t.length t.length t

end Markup

end PageTemplate
