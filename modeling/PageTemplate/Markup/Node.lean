import PageTemplate.Text.Search

/-!
# PageTemplate.Markup.Node

Markup as a tree that knows its own parts and nothing above it.
-/

namespace PageTemplate

namespace Markup

/-- Attributes in the order in which they were first written, each name once. -/
abbrev Attributes := List (Text × Text)

/-- A piece of markup. The source of a code node is what stands between `<%` and `%>`; the value
of a declaration is what stands between `<!` and `>`. Raw text is written verbatim. -/
inductive Node where
  | element (tag : Text) (attributes : Attributes) (children : List Node)
  | text (value : Text) (raw : Bool)
  | code (source : Text)
  | comment (value : Text)
  | doctype (value : Text)
  deriving Repr, Inhabited

/-- Elements that have no content and no closing tag. -/
def voidTags : List Text :=
  ["area", "base", "br", "col", "embed", "hr", "img", "input", "link", "meta", "param", "source",
    "track", "wbr"].map Text.ofString

/-- Elements whose content is never read as markup. -/
def alwaysRawTags : List Text := ["script", "style"].map Text.ofString

def isVoid (tag : Text) : Bool := voidTags.contains tag

end Markup

end PageTemplate
