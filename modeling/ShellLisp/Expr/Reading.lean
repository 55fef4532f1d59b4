import ShellLisp.Expr.Members
import ShellLisp.Expr.Pipes
import ShellLisp.Expr.Sequences
import ShellLisp.Token.Lexer

/-!
# Reading programs

From source text to the tree that is evaluated: lexing, parsing, and the four passes in their order.
-/

namespace ShellLisp.Expr

/-- The tree of a source text as it is written. -/
def ofSource (source : String) : Except Failure (Option Expr) := do
  let tokens ← Token.lex source
  parseWithin depthLimits.brackets tokens

/-- The tree with pipes rewritten, when it is not too deep then. -/
def withPipesWithin (limit : Nat) (e : Expr) : Except Failure Expr := do
  let piped ← e.withPipes
  piped.checkDepth limit

def withMembersWithin (limit : Nat) (e : Expr) : Except Failure Expr := do
  let read ← e.withMembers
  read.checkDepth limit

structure Passes where
  commands : Expr
  pipes : Expr
  members : Expr
  sequences : Expr

def passes (e : Expr) : Except Failure Passes := do
  let commands := e.withCommands
  let pipes ← commands.withPipesWithin depthLimits.trees
  let members ← pipes.withMembersWithin depthLimits.trees
  return ⟨commands, pipes, members, members.withSequences⟩

/-- The tree in the form that is evaluated. -/
def desugar (e : Expr) : Except Failure Expr := do
  let passes ← e.passes
  return passes.sequences

/-- The tree of a source text in the form that is evaluated; none for an empty program. -/
def read (source : String) : Except Failure (Option Expr) := do
  match ← ofSource source with
  | none => return none
  | some e => return some (← e.desugar)

end ShellLisp.Expr
