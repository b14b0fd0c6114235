import PageTemplate.Text.Blank

/-!
# PageTemplate.Fault

Everything that can go wrong, by cause, and the message of each cause. Faults of the expression
library have a kind but no wording of their own.
-/

namespace PageTemplate

/-- The kinds of errors that the expression library raises. -/
inductive ErrorKind where
  | error
  | typeError
  | rangeError
  | syntaxError
  | uriError
  deriving Repr, DecidableEq

/-- The document in which an element was looked for. -/
inductive Side where
  | skeleton
  | template
  deriving Repr, DecidableEq

inductive Fault where
  /-- Marker syntax is broken, or a control element lacks an attribute. -/
  | malformed (detail : Text) (hint : Option Text)
  /-- An expression was rejected. -/
  | evaluation (expression reason : Text)
  /-- A loader knows no template of this name. -/
  | missingTemplate (name : Text)
  /-- The skeleton or the content lacks an element that composing needs. -/
  | unmatched (selector : Text) (side : Side)
  /-- A page could not be rendered. -/
  | render (template : Text) (cause : Fault)
  /-- A name that may never be bound. -/
  | blockedBinding (name : Text)
  /-- Replacements that do not come in pairs. -/
  | unpairedReplacement
  /-- A node was to become its own child. -/
  | selfAppend
  /-- A node without a parent was to be replaced. -/
  | detached (description : Text)
  | unsupportedSelector (selector : Text)
  | unsupportedPseudo (name : Text)
  /-- An error of the expression library. -/
  | library (kind : ErrorKind)
  /-- An error that a host function raised. -/
  | raised (kind : ErrorKind) (message : Text)
  /-- A value that is no error and was thrown all the same, as text. -/
  | thrown (value : Text)
  deriving Repr

namespace ErrorKind

def name : ErrorKind → Text
  | .error => "Error"
  | .typeError => "TypeError"
  | .rangeError => "RangeError"
  | .syntaxError => "SyntaxError"
  | .uriError => "URIError"

end ErrorKind

namespace Fault

def quoted (t : Text) : Text := unit '"' :: t ++ [unit '"']

/-- The name of the kind of a fault. -/
def kind : Fault → Text
  | .malformed .. => "MalformedTemplateError"
  | .evaluation .. => "EvaluationError"
  | .missingTemplate _ => "MissingTemplateError"
  | .unmatched .. => "StructuralMergeError"
  | .render .. => "TemplateRenderError"
  | .blockedBinding _ => "TypeError"
  | .unpairedReplacement => "TypeError"
  | .selfAppend => "Error"
  | .detached _ => "Error"
  | .unsupportedSelector _ => "SyntaxError"
  | .unsupportedPseudo _ => "SyntaxError"
  | .library k => k.name
  | .raised k _ => k.name
  | .thrown _ => "thrown"

/-- The message of a fault; `none` where the wording is the library's. -/
def message? : Fault → Option Text
  | .malformed detail hint =>
    some ("Skeletal: Malformed template: " ++ detail ++
      match hint with
      | some h => unit '\n' :: h
      | none => [])
  | .evaluation expression reason =>
    some ("Skeletal: Cannot evaluate " ++ quoted (Text.trim expression) ++ ": " ++ reason)
  | .missingTemplate name => some ("Skeletal: Template " ++ quoted name ++ " was not found")
  | .unmatched selector side =>
    some ("Skeletal: No element matches " ++ quoted selector ++ " in the " ++
      match side with
      | .skeleton =>
        "skeleton.\nThe skeleton must provide every element the template replaces."
      | .template => "template.\nA template must have a top-level <main> element.")
  | .render template cause =>
    cause.message?.map fun m => "Failed to render template " ++ quoted template ++ ": " ++ m
  | .blockedBinding name =>
    some ("Skeletal: Cannot bind " ++ quoted name ++ " in a template context.\n" ++
      "This name is blocked to prevent prototype pollution.")
  | .unpairedReplacement => some "Skeletal: multiReplace() expects search/replacement pairs"
  | .selfAppend => some "Skeletal: Cannot append a node to itself"
  | .detached description => some ("Skeletal: Cannot replace a detached " ++ description)
  | .unsupportedSelector selector => some ("Skeletal: Unsupported selector " ++ quoted selector)
  | .unsupportedPseudo name =>
    some ("Skeletal: Unsupported pseudo-class " ++ quoted (unit ':' :: name))
  | .library _ => none
  | .raised _ message => some message
  | .thrown value => some value

end Fault

end PageTemplate
