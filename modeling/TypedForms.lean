import TypedForms.Binary64
import TypedForms.Binary64.Shortest
import TypedForms.CacheDir
import TypedForms.Check
import TypedForms.Command
import TypedForms.Config
import TypedForms.Config.Decode
import TypedForms.Datum
import TypedForms.Diagnostic
import TypedForms.Distinct
import TypedForms.Env
import TypedForms.Expr
import TypedForms.Expr.Parse
import TypedForms.FileTree
import TypedForms.Flags
import TypedForms.Log
import TypedForms.Main
import TypedForms.Options
import TypedForms.Outcome
import TypedForms.ParseError
import TypedForms.Path
import TypedForms.Program.Parse
import TypedForms.Proofs.Check.Absorption
import TypedForms.Proofs.Check.BindingOrder
import TypedForms.Proofs.Check.Calls
import TypedForms.Proofs.Check.Clean
import TypedForms.Proofs.Check.Coupling
import TypedForms.Proofs.Check.Environments
import TypedForms.Proofs.Check.Flaws
import TypedForms.Proofs.Check.Lists
import TypedForms.Proofs.Check.Moved
import TypedForms.Proofs.Check.Nesting
import TypedForms.Proofs.Check.Relevance
import TypedForms.Proofs.Check.Resolved
import TypedForms.Proofs.Check.Rules
import TypedForms.Proofs.Check.Traced
import TypedForms.Proofs.Check.Typing
import TypedForms.Proofs.Command.Checking
import TypedForms.Proofs.Command.Logging
import TypedForms.Proofs.Config.Document
import TypedForms.Proofs.Config.RoundTrip
import TypedForms.Proofs.Datum
import TypedForms.Proofs.Datum.Lossless
import TypedForms.Proofs.Datum.Pairing
import TypedForms.Proofs.Diagnosed
import TypedForms.Proofs.Env
import TypedForms.Proofs.Env.Views
import TypedForms.Proofs.Expr.Flaws
import TypedForms.Proofs.Expr.Grammar
import TypedForms.Proofs.Expr.Retext
import TypedForms.Proofs.Expr.RoundTrip
import TypedForms.Proofs.Expr.Scope
import TypedForms.Proofs.Expr.Shape
import TypedForms.Proofs.FileTree
import TypedForms.Proofs.Grammar
import TypedForms.Proofs.Guarded
import TypedForms.Proofs.Log
import TypedForms.Proofs.Log.Summary
import TypedForms.Proofs.Moved
import TypedForms.Proofs.Options
import TypedForms.Proofs.Program.Causes
import TypedForms.Proofs.Program.Complete
import TypedForms.Proofs.Program.Grammar
import TypedForms.Proofs.Program.Intact
import TypedForms.Proofs.Program.Layout
import TypedForms.Proofs.Program.Moved
import TypedForms.Proofs.Program.RoundTrip
import TypedForms.Proofs.Program.StandIns
import TypedForms.Proofs.Session.Answers
import TypedForms.Proofs.Session.Batch
import TypedForms.Proofs.Session.History
import TypedForms.Proofs.Session.Incomplete
import TypedForms.Proofs.Session.Inputs
import TypedForms.Proofs.Strict.Analysis
import TypedForms.Proofs.Strict.Check
import TypedForms.Proofs.Strict.Datum
import TypedForms.Proofs.Strict.Expr
import TypedForms.Proofs.Strict.Program
import TypedForms.Proofs.Strict.Token
import TypedForms.Proofs.Strict.Ty
import TypedForms.Proofs.Text.Quoted
import TypedForms.Proofs.Text.Split
import TypedForms.Proofs.Token.Lines
import TypedForms.Proofs.Token.Partition
import TypedForms.Proofs.Token.Scan
import TypedForms.Proofs.Ty.Filling
import TypedForms.Proofs.Ty.Forget
import TypedForms.Proofs.Ty.Grammar
import TypedForms.Proofs.Ty.Join
import TypedForms.Proofs.Ty.Order
import TypedForms.Proofs.Ty.Render
import TypedForms.Proofs.Ty.RoundTrip
import TypedForms.Proofs.Ty.Settled
import TypedForms.Proofs.Typing
import TypedForms.Proofs.Yaml.Entries
import TypedForms.Proofs.Yaml.Nodes
import TypedForms.Proofs.Yaml.Plain
import TypedForms.Release
import TypedForms.Session
import TypedForms.Session.Inputs
import TypedForms.Text.Base64
import TypedForms.Text.Blank
import TypedForms.Text.Lines
import TypedForms.Text.Parens
import TypedForms.Text.Printable
import TypedForms.Text.Quoted
import TypedForms.Text.Split
import TypedForms.Text.Utf8
import TypedForms.Timestamp
import TypedForms.Token
import TypedForms.Token.Scan
import TypedForms.Ty
import TypedForms.Ty.Compatible
import TypedForms.Ty.Parse
import TypedForms.TypeError
import TypedForms.Yaml.Moment
import TypedForms.Yaml.Node
import TypedForms.Yaml.Node.Read
import TypedForms.Yaml.Problem
import TypedForms.Yaml.Scalar
import TypedForms.Yaml.Spot
import TypedForms.Yaml.Tag
import TypedForms.Yaml.Token
import TypedForms.Yaml.Token.Scan
import TypedForms.Yaml.Word
import TypedForms.Yaml.Write
