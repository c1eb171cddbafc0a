import DryRun.Main
import DryRun.Proofs.Comment.Insertion
import DryRun.Proofs.Output.Literals
import DryRun.Proofs.Output.Escapes
import DryRun.Proofs.Prediction.Printing
import DryRun.Proofs.Pattern.Preferred
import DryRun.Proofs.Pattern.Restart
import DryRun.Proofs.Template.Pass
import DryRun.Proofs.Declaration.Forms
import DryRun.Proofs.Declaration.Lines
import DryRun.Proofs.Headers
import DryRun.Proofs.Output.References
import DryRun.Proofs.Prediction.Declared
import DryRun.Proofs.Definitions
import DryRun.Proofs.Prediction.Parameter
import DryRun.Proofs.Pieces
import DryRun.Proofs.Output.Dependence
import DryRun.Proofs.Output.Statements
import DryRun.Proofs.Provenance
import DryRun.Proofs.Output.DeclaredNames
import DryRun.Proofs.Declaration.WholeNumerals
import DryRun.Proofs.Numeral
import DryRun.Proofs.CommandLine
import DryRun.Proofs.Settings
import DryRun.Proofs.ByteOrder
import DryRun.Proofs.Bindings
import DryRun.Proofs.Expression.Calculation
import DryRun.Proofs.Expression.Joining
import DryRun.Proofs.Expression.Sums
import DryRun.Proofs.Session
import DryRun.Proofs.Expression.Comparison
import DryRun.Proofs.Expression.Splitting
import DryRun.Proofs.Output.Escaping
import DryRun.Proofs.Output.TemplateValues
import DryRun.Proofs.Arguments.Literals
import DryRun.Proofs.Arguments.Names
import DryRun.Proofs.Arguments.Labels
import DryRun.Proofs.Expression.Characters
import DryRun.Proofs.Template.Again
import DryRun.Proofs.Comment.Residue
import DryRun.Proofs.Arguments.Frame
import DryRun.Proofs.Output.Labels
import DryRun.Proofs.ParameterLists
import DryRun.Proofs.Nesting.Closing
import DryRun.Proofs.Nesting.Commas
import DryRun.Proofs.StringLiteral.Grammar
import DryRun.Proofs.Binary64.Rounding
import DryRun.Proofs.Binary64.ReadBack
import DryRun.Proofs.Report
import DryRun.Proofs.Log
