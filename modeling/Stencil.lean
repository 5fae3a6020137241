import Stencil.Condition.Basic
import Stencil.Condition.Evaluation
import Stencil.Environment
import Stencil.Error.Basic
import Stencil.Error.Code
import Stencil.Error.Kind
import Stencil.Error.Load
import Stencil.Error.Overflow
import Stencil.Error.Pattern
import Stencil.Error.Place
import Stencil.Error.Runtime
import Stencil.Error.Syntax
import Stencil.Expr.Basic
import Stencil.Expr.Evaluation
import Stencil.Expr.Lexeme
import Stencil.Expr.Parsing
import Stencil.Literal
import Stencil.Loader.Basic
import Stencil.Loader.Files
import Stencil.Loader.Layout
import Stencil.Loader.Part
import Stencil.Loader.Path
import Stencil.Loader.Pattern
import Stencil.Markup.Directive
import Stencil.Markup.Fragment
import Stencil.Node
import Stencil.Number.Binary64
import Stencil.Number.Digits
import Stencil.Number.Order
import Stencil.Number.Power
import Stencil.Number.Reading
import Stencil.Number.Shortest
import Stencil.Proofs.Clean.Evaluation
import Stencil.Proofs.Clean.Faults
import Stencil.Proofs.Clean.Loading
import Stencil.Proofs.Clean.Markup
import Stencil.Proofs.Clean.Reading
import Stencil.Proofs.Clean.Rendering
import Stencil.Proofs.Clean.Text
import Stencil.Proofs.Clean.Value
import Stencil.Proofs.Condition.Clauses
import Stencil.Proofs.Condition.Failure
import Stencil.Proofs.Condition.Order
import Stencil.Proofs.Condition.Quotes
import Stencil.Proofs.Expr.Grammar
import Stencil.Proofs.Expr.Lexing
import Stencil.Proofs.Expr.Line
import Stencil.Proofs.Expr.Number
import Stencil.Proofs.Expr.Readers
import Stencil.Proofs.Expr.Variable
import Stencil.Proofs.Expr.Visit
import Stencil.Proofs.Expr.Writing
import Stencil.Proofs.Literal.Closing
import Stencil.Proofs.Literal.Naming
import Stencil.Proofs.Literal.Passthrough
import Stencil.Proofs.Literal.Scanning
import Stencil.Proofs.Loader.Confinement
import Stencil.Proofs.Loader.Failure
import Stencil.Proofs.Markup.Inclusion
import Stencil.Proofs.Markup.Lexemes
import Stencil.Proofs.Markup.Parts
import Stencil.Proofs.Markup.Readers
import Stencil.Proofs.Markup.Run
import Stencil.Proofs.Markup.Spelling
import Stencil.Proofs.Markup.Words
import Stencil.Proofs.Privacy.Evaluation
import Stencil.Proofs.Privacy.Rendering
import Stencil.Proofs.Privacy.Value
import Stencil.Proofs.Render.Anew
import Stencil.Proofs.Render.Bindings
import Stencil.Proofs.Render.Blank
import Stencil.Proofs.Render.Bond
import Stencil.Proofs.Render.Branching
import Stencil.Proofs.Render.Chain
import Stencil.Proofs.Render.Closure
import Stencil.Proofs.Render.Course
import Stencil.Proofs.Render.Each
import Stencil.Proofs.Render.Failing
import Stencil.Proofs.Render.History
import Stencil.Proofs.Render.Lasting
import Stencil.Proofs.Render.Limit
import Stencil.Proofs.Render.Location
import Stencil.Proofs.Render.Moment
import Stencil.Proofs.Render.Nesting
import Stencil.Proofs.Render.Place
import Stencil.Proofs.Render.Placement
import Stencil.Proofs.Render.Readback
import Stencil.Proofs.Render.Rebinding
import Stencil.Proofs.Render.Repetition
import Stencil.Proofs.Render.Room
import Stencil.Proofs.Render.Selection
import Stencil.Proofs.Render.Step
import Stencil.Proofs.Render.Strict
import Stencil.Proofs.Render.Turns
import Stencil.Proofs.Render.Writes
import Stencil.Proofs.Template.Blame
import Stencil.Proofs.Template.Block
import Stencil.Proofs.Template.Bodies
import Stencil.Proofs.Template.Closing
import Stencil.Proofs.Template.Complete
import Stencil.Proofs.Template.Ending
import Stencil.Proofs.Template.Grammar
import Stencil.Proofs.Template.Marker
import Stencil.Proofs.Template.Moves
import Stencil.Proofs.Template.Nesting
import Stencil.Proofs.Template.Quotation
import Stencil.Proofs.Template.Sound
import Stencil.Proofs.Template.Steps
import Stencil.Proofs.Template.Trimming
import Stencil.Proofs.Template.Written
import Stencil.Proofs.Terminal.Decoration
import Stencil.Proofs.Terminal.Messages
import Stencil.Proofs.Terminal.Requests
import Stencil.Proofs.Text.Blank
import Stencil.Proofs.Token.Appended
import Stencil.Proofs.Token.Dashes
import Stencil.Proofs.Token.Marker
import Stencil.Proofs.Token.Opener
import Stencil.Proofs.Token.Pieces
import Stencil.Proofs.Token.Rules
import Stencil.Proofs.Value.Unwritable
import Stencil.Render.Basic
import Stencil.Render.Inclusion
import Stencil.Render.Loop
import Stencil.Scope
import Stencil.Session
import Stencil.Tag
import Stencil.Tag.Samples
import Stencil.Template.Block
import Stencil.Template.Reading
import Stencil.Terminal
import Stencil.Text.Blank
import Stencil.Text.Digit
import Stencil.Text.Lines
import Stencil.Text.Order
import Stencil.Text.Printable
import Stencil.Text.Quoted
import Stencil.Text.Search
import Stencil.Text.Similarity
import Stencil.Text.Upper
import Stencil.Text.Word
import Stencil.Token
import Stencil.Value.Basic
import Stencil.Value.Equality
import Stencil.Value.Host
import Stencil.Value.Order
import Stencil.Value.Printing
import Stencil.Value.Reading
import Stencil.Value.Whole
