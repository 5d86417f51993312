import ServiceLang.Diagnostic
import ServiceLang.Diagnostic.Excerpt
import ServiceLang.Diagnostic.Report
import ServiceLang.Grammar.Definition
import ServiceLang.Grammar.Expr
import ServiceLang.Grammar.Stmt
import ServiceLang.Grammar.TypeName
import ServiceLang.Lexical.Character
import ServiceLang.Lexical.Fault
import ServiceLang.Lexical.Lexeme
import ServiceLang.Lexical.Place
import ServiceLang.Lexical.Quoted
import ServiceLang.Lexical.Stream
import ServiceLang.Parse
import ServiceLang.Parse.Cursor
import ServiceLang.Parse.Lookahead
import ServiceLang.Parse.Recovery
import ServiceLang.Parse.State
import ServiceLang.Parse.Step
import ServiceLang.Span
import ServiceLang.Token
import ServiceLang.Token.Kind
import ServiceLang.Tree.Definition
import ServiceLang.Tree.Expr
import ServiceLang.Tree.Name
import ServiceLang.Tree.Node
import ServiceLang.Tree.Operator
import ServiceLang.Tree.Outline
import ServiceLang.Tree.Stmt
import ServiceLang.Tree.TypeName
import ServiceLang.Tree.Walk
import ServiceLang.Proofs.Run
import ServiceLang.Proofs.Ending
import ServiceLang.Proofs.Isolation
import ServiceLang.Proofs.Looking
import ServiceLang.Proofs.Precedence
import ServiceLang.Proofs.Tiling
import ServiceLang.Proofs.Completeness
import ServiceLang.Proofs.RoundTrip
import ServiceLang.Proofs.Damage
import ServiceLang.Proofs.Foresight
import ServiceLang.Proofs.Appending
import ServiceLang.Proofs.Nesting
import ServiceLang.Proofs.Positions
import ServiceLang.Proofs.LexicalErrors
import ServiceLang.Proofs.ErrorLimit
import ServiceLang.Proofs.Counter
import ServiceLang.Proofs.MissingSemicolon
import ServiceLang.Proofs.MissingBraces
import ServiceLang.Proofs.WellFormed
import ServiceLang.Proofs.Consistency
import ServiceLang.Proofs.Accounting
import ServiceLang.Proofs.Silence
import ServiceLang.Proofs.Relexing
import ServiceLang.Proofs.Printing
import ServiceLang.Proofs.Alone
import ServiceLang.Proofs.Escapes
import ServiceLang.Proofs.Reformatting
import ServiceLang.Proofs.Comments
import ServiceLang.Proofs.Balance
import ServiceLang.Proofs.Sealing
import ServiceLang.Proofs.Crossing
import ServiceLang.Proofs.MissingMemberSemicolon
import ServiceLang.Proofs.ErrorOffsets
import ServiceLang.Proofs.Listening
import ServiceLang.Proofs.Numbers
import ServiceLang.Proofs.Decoding
import ServiceLang.Proofs.Pointing
import ServiceLang.Proofs.Counting
import ServiceLang.Proofs.Handlers
import ServiceLang.Proofs.Merging
import ServiceLang.Proofs.Confinement
import ServiceLang.Proofs.Streaming
import ServiceLang.Proofs.MissingEnd
