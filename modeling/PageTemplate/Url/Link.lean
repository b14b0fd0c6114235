import PageTemplate.Url.Parser

/-!
# PageTemplate.Url.Link

Links that are relative to a place in a site. The place may itself be relative: then the link is
resolved inside a site of an invented name, and the name is left out of the result.
-/

namespace PageTemplate

namespace Url

/-- The invented site. -/
def placeholder : Url :=
  ⟨Text.ofString "http", [], [], some (Text.ofString "relative.invalid"), none, .segments [[]],
    none, none⟩

/-- Whether an address lies in the invented site. -/
def isInPlaceholder (u : Url) : Bool :=
  u.scheme == placeholder.scheme && u.host == placeholder.host && u.portNumber == none

/-- Whether an address lies in the invented site, or is one of data that does. -/
def comesFromPlaceholder (u : Url) : Bool :=
  isInPlaceholder u ||
    (u.scheme == Text.ofString "blob" && ((parse? none u.pathname).any isInPlaceholder))

/-- A link as it is resolved against a base; `none` when either cannot be read. -/
def resolveLink? (link base : Text) : Option Text :=
  match parse? none base with
  | some b => (parse? (some b) link).map toText
  | none => do
    let b ← parse? (some placeholder) base
    let u ← parse? (some b) link
    if comesFromPlaceholder u then return u.pathname ++ u.search ++ u.hash
    else return u.toText

end Url

end PageTemplate
