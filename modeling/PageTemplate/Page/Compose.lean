import PageTemplate.Builtin.Standard
import PageTemplate.Template.Expand
import PageTemplate.Tree.Query
import PageTemplate.Tree.Serialize
import PageTemplate.Url.Link

/-!
# PageTemplate.Page.Compose

Pages. A page is made of two templates: a skeleton, which many pages share, and the content. Each is
expanded in a scope of its own, and then the parts of the content take their places in the
skeleton. Whatever fails, fails as one fault that names the page.
-/

namespace PageTemplate

namespace Page

/-- The skeleton that is used when no other is named. -/
def defaultSkeleton : Text := "skeleton.html"

/-- Where templates are looked for when nothing else is said. -/
def defaultDirectory : Text := "templates/"

/-- The first element inside a document that matches a selector. -/
def require (document : Value) (selector : Text) (side : Side) : M Value := do
  match ← Tree.select? document selector with
  | some element => return element
  | none => throw (.unmatched selector side)

/-- Moves the classes for the body of the page from the main element of the content. -/
def moveBodyClass (skeleton main : Value) : M Unit := do
  match ← Tree.getAttribute main (.text "body-class") with
  | .undefined => return
  | classes =>
    let body ← require skeleton "body" .skeleton
    Tree.addClass body classes
    Tree.removeAttribute main (.text "body-class")

/-- Puts the title of the content into the skeleton. -/
def moveTitle (skeleton content : Value) : M Unit := do
  match ← Tree.select? content ":root > title" with
  | none => return
  | some title =>
    let target ← require skeleton ":root > head > title" .skeleton
    Tree.removeChildren target
    Tree.stealChildren target title

/-- The value of an attribute; nothing where there is none. -/
def attributeOrEmpty (element : Value) (name : Text) : M Value := do
  match ← Tree.getAttribute element (.text name) with
  | .undefined | .null => return .text []
  | v => return v

/-- Puts an element of the content in the place of the element with the same id. -/
def moveById (skeleton element : Value) : M Unit := do
  let id ← attributeOrEmpty element "id"
  match ← Tree.findById? skeleton id with
  | some target => Tree.replaceWith target element
  | none => throw (.unmatched (unit '#' :: (← Convert.toText id)) .skeleton)

/-- Puts the parts of the content into the skeleton, and unwraps what is wrapped. -/
def merge (skeleton content : Value) : M Unit := do
  let main ← require content ":root > main" .template
  moveBodyClass skeleton main
  Tree.replaceWith (← require skeleton "main" .skeleton) main
  moveTitle skeleton content
  (← Tree.selectAll content ":root > [id]").forM (moveById skeleton)
  (← Tree.selectAll skeleton "document-fragment").forM Tree.stripOut

/-- Resolves the links inside every element that says what they are relative to. -/
def resolveLinks (skeleton : Value) : M Unit := do
  (← Tree.selectAll skeleton "[data-relative-to]").forM fun container => do
    let base ← attributeOrEmpty container "data-relative-to"
    (← Tree.selectAll container "a[href]").forM fun anchor => do
      let href ← attributeOrEmpty anchor "href"
      let base ← Convert.toText base
      match Url.resolveLink? (← Convert.toText href) base with
      | some link => Tree.setAttribute anchor (.text "href") (.text link)
      | none => M.typeError

end Page

/-- What makes pages. -/
structure Composer where
  expander : Expander
  /-- The skeleton of pages that name none. -/
  skeletonName : Text
  /-- Binds the helpers that every template can use. -/
  bindHelpers : ScopeId → M Unit
  /-- The last change to a finished page. -/
  complete : Value → M Unit

namespace Composer

/-- Expands the root element of a document. A document without one is a fault of its side. -/
def expandRoot (c : Composer) (document : Value) (side : Side) (scope : ScopeId) :
    M Unit := do
  match ← Tree.documentElement? document with
  | some root => c.expander.expand root scope
  | none => throw (.unmatched ":root" side)

/-- Makes a page. -/
def compose (c : Composer) (name : Text) (contentScope skeletonScope : ScopeId)
    (skeletonName : Text) : M Value := do
  c.bindHelpers contentScope
  c.bindHelpers skeletonScope
  c.expander.logStep ["[SkeletonComposer] render:", name, "inside", skeletonName]
  let skeletonMarkup ← (c.expander.loader skeletonName : Except Fault Text)
  let skeleton := Value.object (← c.expander.readTemplate skeletonMarkup false)
  let contentMarkup ← (c.expander.loader name : Except Fault Text)
  let content := Value.object (← c.expander.readTemplate contentMarkup true)
  c.expandRoot skeleton .skeleton skeletonScope
  Page.resolveLinks skeleton
  c.expandRoot content .template contentScope
  Page.merge skeleton content
  if c.expander.debug then
    let remark : Text := " " ++ name ++ " inside " ++ skeletonName ++ " "
    Tree.prepend skeleton (.object (← Tree.create (.comment remark)))
  c.complete skeleton
  return skeleton

/-- Makes a page; whatever fails, fails as a fault of this page, unless it is one of a page
already. -/
def render (c : Composer) (name : Text) (contentScope skeletonScope : ScopeId)
    (skeletonName : Text) : M Value :=
  tryCatch (c.compose name contentScope skeletonScope skeletonName) fun f =>
    match f with
    | .render .. => throw f
    | f => throw (.render name f)

/-- Makes a page and writes it. -/
def renderText (c : Composer) (name : Text) (contentScope skeletonScope : ScopeId)
    (skeletonName : Text) : M Value := do
  Tree.serialize (← c.render name contentScope skeletonScope skeletonName)

end Composer

end PageTemplate
