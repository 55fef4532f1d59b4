import ShellLisp.Expr

/-!
# Commands

The first pass over a tree: a bare word at the head of a call names a command.
-/

namespace ShellLisp.Expr

def markHead : List Expr → List Expr
  | .value place (.word text) :: rest => .command place text :: rest
  | body => body

mutual

def withCommands : Expr → Expr
  | .call place body => .call place (markHead (withCommandsAll body))
  | .array place body => .array place (withCommandsAll body)
  | .map place body => .map place (withCommandsAll body)
  | leaf => leaf

def withCommandsAll : List Expr → List Expr
  | [] => []
  | e :: rest => e.withCommands :: withCommandsAll rest

end

theorem withCommandsAll_eq_map (body : List Expr) :
    withCommandsAll body = body.map withCommands := by
  induction body with
  | nil => rfl
  | cons e rest ih => simp [withCommandsAll, ih]

theorem isBareWord_withCommands (e : Expr) : e.withCommands.isBareWord = e.isBareWord := by
  cases e <;> simp only [withCommands] <;> rfl

end ShellLisp.Expr
