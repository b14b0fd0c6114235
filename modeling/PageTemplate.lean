import PageTemplate.Assoc
import PageTemplate.Builtin.DateText
import PageTemplate.Builtin.KeyFilter
import PageTemplate.Builtin.Standard
import PageTemplate.Builtin.TextLike
import PageTemplate.Calendar
import PageTemplate.Expr.Evaluate
import PageTemplate.Expr.Globals
import PageTemplate.Expr.Names
import PageTemplate.Expr.Parser
import PageTemplate.Expr.Syntax
import PageTemplate.Fault
import PageTemplate.Form.Field
import PageTemplate.Form.Handle
import PageTemplate.Json
import PageTemplate.Library.Array
import PageTemplate.Library.ArrayLike
import PageTemplate.Library.Call
import PageTemplate.Library.Collection
import PageTemplate.Library.Construct
import PageTemplate.Library.Date
import PageTemplate.Library.Json
import PageTemplate.Library.Number
import PageTemplate.Library.Object
import PageTemplate.Library.Sort
import PageTemplate.Library.Text
import PageTemplate.Markup.Entity
import PageTemplate.Markup.Node
import PageTemplate.Markup.Parser
import PageTemplate.Markup.Serialize
import PageTemplate.Markup.Token
import PageTemplate.Number.Binary
import PageTemplate.Number.Format
import PageTemplate.Number.Power
import PageTemplate.Number.Read
import PageTemplate.Number.Shortest
import PageTemplate.Page.Compose
import PageTemplate.Proofs.Assoc
import PageTemplate.Proofs.Case
import PageTemplate.Proofs.Expr.Access
import PageTemplate.Proofs.Expr.Tokens
import PageTemplate.Proofs.Markup.Escape
import PageTemplate.Proofs.Markup.Lexing
import PageTemplate.Proofs.Markup.Reading
import PageTemplate.Proofs.Markup.RoundTrip
import PageTemplate.Proofs.Markup.Tag
import PageTemplate.Proofs.Number
import PageTemplate.Proofs.Run
import PageTemplate.Proofs.Selector.Compound
import PageTemplate.Proofs.Template.Blocks
import PageTemplate.Proofs.Template.Controls
import PageTemplate.Proofs.Template.Fields
import PageTemplate.Proofs.Template.Render
import PageTemplate.Proofs.Template.Script
import PageTemplate.Proofs.Template.Source
import PageTemplate.Proofs.Text
import PageTemplate.Proofs.Tree.Attributes
import PageTemplate.Proofs.Tree.Clone
import PageTemplate.Proofs.Tree.Edits
import PageTemplate.Proofs.Tree.Forest
import PageTemplate.Proofs.Tree.NodeTree
import PageTemplate.Proofs.Tree.Operations
import PageTemplate.Proofs.Tree.Order
import PageTemplate.Proofs.Tree.Places
import PageTemplate.Proofs.Tree.Plant
import PageTemplate.Proofs.Tree.Query
import PageTemplate.Proofs.Tree.Reachable
import PageTemplate.Proofs.Tree.Regions
import PageTemplate.Proofs.Tree.Serialize
import PageTemplate.Proofs.Tree.Step
import PageTemplate.Proofs.Tree.View
import PageTemplate.Scope
import PageTemplate.Selector.Match
import PageTemplate.Selector.Syntax
import PageTemplate.Template.Expand
import PageTemplate.Template.Loader
import PageTemplate.Template.Marker
import PageTemplate.Text.Basic
import PageTemplate.Text.Blank
import PageTemplate.Text.Case
import PageTemplate.Text.CaseTable
import PageTemplate.Text.Identifier
import PageTemplate.Text.IdentifierTable
import PageTemplate.Text.Percent
import PageTemplate.Text.Replace
import PageTemplate.Text.Search
import PageTemplate.Tree.Access
import PageTemplate.Tree.Edit
import PageTemplate.Tree.Opening
import PageTemplate.Tree.Query
import PageTemplate.Tree.Read
import PageTemplate.Tree.Serialize
import PageTemplate.Url.Basic
import PageTemplate.Url.Link
import PageTemplate.Url.Parser
import PageTemplate.Value.Basic
import PageTemplate.Value.Bindings
import PageTemplate.Value.Convert
import PageTemplate.Value.Entries
import PageTemplate.Value.Key
import PageTemplate.Value.Members
import PageTemplate.Value.Places
import PageTemplate.Value.Present
import PageTemplate.Value.Property
import PageTemplate.Value.Sequence
import PageTemplate.Value.Store
import PageTemplate.Value.Stringify
import PageTemplate.Proofs.Expr.Levels
import PageTemplate.Proofs.Expr.Reading
import PageTemplate.Proofs.Expr.RoundTrip
import PageTemplate.Proofs.Respect.Basic
import PageTemplate.Proofs.Respect.Trees
import PageTemplate.Proofs.Respect.Pages
import PageTemplate.Proofs.Respect.Library
import PageTemplate.Proofs.Scope.Isolated
import PageTemplate.Proofs.Scope.Evaluate
import PageTemplate.Proofs.Template.Observer
import PageTemplate.Proofs.Template.Isolation
import PageTemplate.Proofs.Respect.Templates
import PageTemplate.Proofs.Template.Scoping
import PageTemplate.Proofs.Template.Erasure
import PageTemplate.Proofs.Ensures
import PageTemplate.Proofs.Tree.Plot
import PageTemplate.Proofs.Tree.Fade
import PageTemplate.Proofs.Tree.Growth
import PageTemplate.Proofs.Template.Frontier
import PageTemplate.Proofs.Template.Tracing
import PageTemplate.Proofs.Template.Attributes
import PageTemplate.Proofs.Template.Visits
import PageTemplate.Proofs.Template.Inline
import PageTemplate.Proofs.Template.Provenance
import PageTemplate.Proofs.Template.Settled
import PageTemplate.Proofs.Page.Failure
import PageTemplate.Proofs.Template.Recognition
import PageTemplate.Proofs.Template.Complete
import PageTemplate.Proofs.Markup.Scanning
import PageTemplate.Proofs.Template.Containment
import PageTemplate.Proofs.Selector.Selection
import PageTemplate.Proofs.Selector.Agreement
import PageTemplate.Proofs.Tree.Exchange
import PageTemplate.Proofs.Page.Queries
import PageTemplate.Proofs.Page.Places
import PageTemplate.Proofs.Tree.Takeover
import PageTemplate.Proofs.Page.Unwrap
import PageTemplate.Proofs.Page.Placing
import PageTemplate.Proofs.Page.Merge
import PageTemplate.Proofs.Json.Numeral
import PageTemplate.Proofs.Json.Spelling
import PageTemplate.Proofs.Json.Written
import PageTemplate.Proofs.Template.ScriptBody
import PageTemplate.Proofs.Template.Remarks
import PageTemplate.Proofs.Template.Loops
import PageTemplate.Proofs.Template.Depth
import PageTemplate.Proofs.Form.Names
import PageTemplate.Proofs.Form.Populate
import PageTemplate.Proofs.Template.Substitution
import PageTemplate.Proofs.Expr.Extension
import PageTemplate.Proofs.Expr.Sequence
import PageTemplate.Proofs.Tree.Separation
import PageTemplate.Proofs.Tree.Independence
import PageTemplate.Proofs.Selector.Quoted
import PageTemplate.Proofs.Expr.WellFormed
import PageTemplate.Proofs.Expr.Members
import PageTemplate.Proofs.Expr.Order
import PageTemplate.Proofs.Selector.Rejection
import PageTemplate.Proofs.Markup.Stretches
import PageTemplate.Proofs.Page.Unwrapped
import PageTemplate.Proofs.Tree.TextContent
import PageTemplate.Proofs.Form.Controls
import PageTemplate.Proofs.Form.Setting
import PageTemplate.Proofs.Form.ReadBack
import PageTemplate.Proofs.Text.Replace
import PageTemplate.Proofs.KeyFilter
import PageTemplate.Proofs.Form.HandleAttributes
import PageTemplate.Proofs.Form.Refilled
import PageTemplate.Proofs.Markup.References
import PageTemplate.Proofs.DateText
import PageTemplate.Proofs.Url.Link
import PageTemplate.Proofs.Expr.Limit
import PageTemplate.Proofs.Expr.Fuel
