import TemplateCheck.Binary64.Basic
import TemplateCheck.Binary64.Rounding
import TemplateCheck.Binary64.Shortest
import TemplateCheck.Binary64.Text
import TemplateCheck.Check.Basic
import TemplateCheck.Check.Keys
import TemplateCheck.Check.Namespaces
import TemplateCheck.Check.Run
import TemplateCheck.Check.Types
import TemplateCheck.Diagnostic.Basic
import TemplateCheck.Diagnostic.Placeholder
import TemplateCheck.Json.Basic
import TemplateCheck.Json.Number
import TemplateCheck.Json.Reader
import TemplateCheck.Location
import TemplateCheck.LogFormat
import TemplateCheck.Order.Sort
import TemplateCheck.ParameterName
import TemplateCheck.Portable.Basic
import TemplateCheck.Portable.Json
import TemplateCheck.Portable.Reader
import TemplateCheck.Portable.Store
import TemplateCheck.Proto.Basic
import TemplateCheck.Resolve.Basic
import TemplateCheck.Resolve.Property
import TemplateCheck.Resolve.Registry
import TemplateCheck.ShardedTable
import TemplateCheck.StringPool
import TemplateCheck.Template.Build
import TemplateCheck.Template.Expr
import TemplateCheck.Template.Node
import TemplateCheck.Template.Query
import TemplateCheck.Text.Blank
import TemplateCheck.Text.DottedName
import TemplateCheck.Text.ParameterList
import TemplateCheck.Text.Quoted
import TemplateCheck.Text.UpperCase
import TemplateCheck.Tree.Basic
import TemplateCheck.Tree.Copy
import TemplateCheck.Tree.Edit
import TemplateCheck.Tree.Source
import TemplateCheck.TypeExpr.Basic
import TemplateCheck.TypeExpr.Equality
import TemplateCheck.TypeExpr.Parser
import TemplateCheck.TypeExpr.Printer
import TemplateCheck.TypeExpr.Token
import TemplateCheck.Types.Assignable
import TemplateCheck.Types.ContentKind
import TemplateCheck.Types.Display
import TemplateCheck.Types.Fold
import TemplateCheck.Types.Form
import TemplateCheck.Types.Reach
import TemplateCheck.Types.Store
import TemplateCheck.Types.Value
import TemplateCheck.Proofs.Check.Again
import TemplateCheck.Proofs.Check.Changes
import TemplateCheck.Proofs.Check.Collisions
import TemplateCheck.Proofs.Check.Copied
import TemplateCheck.Proofs.Check.Duplicates
import TemplateCheck.Proofs.Check.Echoes
import TemplateCheck.Proofs.Check.Frame
import TemplateCheck.Proofs.Check.Mirrors
import TemplateCheck.Proofs.Check.Outlines
import TemplateCheck.Proofs.Check.Scoping
import TemplateCheck.Proofs.Check.Settling
import TemplateCheck.Proofs.Check.Steps
import TemplateCheck.Proofs.Check.Twins
import TemplateCheck.Proofs.Diagnostic.Filling
import TemplateCheck.Proofs.Json.Reading
import TemplateCheck.Proofs.Lists
import TemplateCheck.Proofs.Numbering
import TemplateCheck.Proofs.ParameterName
import TemplateCheck.Proofs.Portable.Exports
import TemplateCheck.Proofs.Portable.Parts
import TemplateCheck.Proofs.Portable.Reading
import TemplateCheck.Proofs.Portable.RoundTrip
import TemplateCheck.Proofs.Portable.Shapes
import TemplateCheck.Proofs.Portable.Text
import TemplateCheck.Proofs.Resolve.Again
import TemplateCheck.Proofs.Resolve.Concurring
import TemplateCheck.Proofs.Resolve.Counterparts
import TemplateCheck.Proofs.Resolve.DottedNames
import TemplateCheck.Proofs.Resolve.Expressions
import TemplateCheck.Proofs.Resolve.Interchanging
import TemplateCheck.Proofs.Resolve.Lacking
import TemplateCheck.Proofs.Resolve.Legible
import TemplateCheck.Proofs.Resolve.Nesting
import TemplateCheck.Proofs.Resolve.ReadBack
import TemplateCheck.Proofs.Resolve.Repeating
import TemplateCheck.Proofs.Resolve.Reported
import TemplateCheck.Proofs.Resolve.Resolved
import TemplateCheck.Proofs.Resolve.Sensible
import TemplateCheck.Proofs.Resolve.Settling
import TemplateCheck.Proofs.Resolve.Stepping
import TemplateCheck.Proofs.Resolve.Tagging
import TemplateCheck.Proofs.Running
import TemplateCheck.Proofs.Sorting
import TemplateCheck.Proofs.StringPool
import TemplateCheck.Proofs.Template.Building
import TemplateCheck.Proofs.Template.Copies
import TemplateCheck.Proofs.Template.Keys
import TemplateCheck.Proofs.Template.Pairing
import TemplateCheck.Proofs.Template.Velogs
import TemplateCheck.Proofs.Tree.AllOrNothing
import TemplateCheck.Proofs.Tree.Copies
import TemplateCheck.Proofs.Tree.Copying
import TemplateCheck.Proofs.Tree.Editing
import TemplateCheck.Proofs.Tree.Notes
import TemplateCheck.Proofs.Tree.Payloads
import TemplateCheck.Proofs.Tree.Preorder
import TemplateCheck.Proofs.Tree.Shape
import TemplateCheck.Proofs.Tree.Walking
import TemplateCheck.Proofs.Tree.Workspace
import TemplateCheck.Proofs.TypeExpr.Acceptance
import TemplateCheck.Proofs.TypeExpr.Attributes
import TemplateCheck.Proofs.TypeExpr.Completeness
import TemplateCheck.Proofs.TypeExpr.Depth
import TemplateCheck.Proofs.TypeExpr.Excerpts
import TemplateCheck.Proofs.TypeExpr.Grammar
import TemplateCheck.Proofs.TypeExpr.Layout
import TemplateCheck.Proofs.TypeExpr.Lexemes
import TemplateCheck.Proofs.TypeExpr.Locations
import TemplateCheck.Proofs.TypeExpr.Parsed
import TemplateCheck.Proofs.TypeExpr.Places
import TemplateCheck.Proofs.TypeExpr.Reprinting
import TemplateCheck.Proofs.TypeExpr.RoundTrip
import TemplateCheck.Proofs.TypeExpr.Sites
import TemplateCheck.Proofs.TypeExpr.Soundness
import TemplateCheck.Proofs.TypeExpr.Subexpressions
import TemplateCheck.Proofs.TypeExpr.Taking
import TemplateCheck.Proofs.TypeExpr.Tokens
import TemplateCheck.Proofs.Types.Arrangement
import TemplateCheck.Proofs.Types.Bounds
import TemplateCheck.Proofs.Types.Combining
import TemplateCheck.Proofs.Types.Comparing
import TemplateCheck.Proofs.Types.Counting
import TemplateCheck.Proofs.Types.Fitting
import TemplateCheck.Proofs.Types.Groupings
import TemplateCheck.Proofs.Types.Histories
import TemplateCheck.Proofs.Types.Identity
import TemplateCheck.Proofs.Types.Matching
import TemplateCheck.Proofs.Types.Members
import TemplateCheck.Proofs.Types.Membership
import TemplateCheck.Proofs.Types.Modes
import TemplateCheck.Proofs.Types.Nullish
import TemplateCheck.Proofs.Types.Referenced
import TemplateCheck.Proofs.Types.Showing
import TemplateCheck.Proofs.Types.Signatures
import TemplateCheck.Proofs.Types.Steady
import TemplateCheck.Proofs.Types.Tags
import TemplateCheck.Proofs.Types.TemplateCalls
import TemplateCheck.Proofs.Types.Transitivity
import TemplateCheck.Proofs.Types.Uniform
import TemplateCheck.Proofs.Types.Values
import TemplateCheck.Proofs.Types.Searching
import TemplateCheck.Proofs.Portable.Binding
import TemplateCheck.Proofs.Template.VelogTags
import TemplateCheck.Proofs.Resolve.Distributing
