import HostScript.Main
import HostScript.Scene
import HostScript.Environment.Pool
import HostScript.Proofs.Expr.Nodes
import HostScript.Proofs.Evaluation.Basic
import HostScript.Proofs.Evaluation.Simulation
import HostScript.Proofs.Evaluation.Contract
import HostScript.Proofs.Expr.Grammar
import HostScript.Proofs.Expr.Accounting
import HostScript.Proofs.Token.Lexeme
import HostScript.Proofs.Token.Pieces
import HostScript.Proofs.Token.Calls
import HostScript.Proofs.Session.Script
import HostScript.Proofs.Session.History
import HostScript.Proofs.Session.Resolution
import HostScript.Proofs.Session.Transparency
import HostScript.Proofs.Expr.Printer
import HostScript.Proofs.Expr.RoundTrip
import HostScript.Proofs.Evaluation.Effect
import HostScript.Proofs.Evaluation.Frame
import HostScript.Proofs.Evaluation.Static
import HostScript.Proofs.Expr.Derivation
import HostScript.Proofs.Expr.Traversal
import HostScript.Proofs.Token.Names
import HostScript.Proofs.Session.Scoping
import HostScript.Proofs.Evaluation.Restoration
import HostScript.Proofs.Expr.Definitions
import HostScript.Proofs.Session.Kept
import HostScript.Proofs.Session.CompileOnce
import HostScript.Proofs.Arithmetic.Syntax
import HostScript.Proofs.Session.Functions
import HostScript.Proofs.Arithmetic.Scan
import HostScript.Proofs.Arithmetic.Evaluation
import HostScript.Proofs.Evaluation.Hiding
import HostScript.Proofs.Evaluation.Isolation
import HostScript.Proofs.Evaluation.Update
import HostScript.Proofs.Expr.Fuel
import HostScript.Proofs.Expr.OperatorTree
import HostScript.Proofs.Expr.Precedence
import HostScript.Proofs.TokenTree.Shape
import HostScript.Proofs.Expr.FunctionTable
import HostScript.Proofs.Expr.Limits
import HostScript.Proofs.Session.Enumeration
import HostScript.Proofs.Session.Spacing
import HostScript.Proofs.Session.Introspection
import HostScript.Proofs.Evaluation.Flattening
import HostScript.Proofs.Token.Declared
import HostScript.Proofs.Token.Literals
import HostScript.Proofs.Expr.Termination
import HostScript.Proofs.Trie.Words
import HostScript.Proofs.Token.Keywords
import HostScript.Proofs.Token.Signs
import HostScript.Proofs.Session.Numerals
