import ShellLisp.Proofs.Failing.Actions
import ShellLisp.Proofs.Reading.RoundTrip
import ShellLisp.Session.Start

/-!
# Command lines

A line that starts with the name of an external command and goes on with words and quoted texts is
one call of the shell. The command gets each word as it is spelled, and each text as it is.
-/

namespace ShellLisp
open Text

/-- A word that stands for itself: nothing ends it, and it is neither a comment nor a variable. -/
structure PlainWord (word : String) : Prop where
  starts : ∃ c rest, word.toList = c :: rest ∧ c ≠ '#' ∧ isBlank c = false ∧ (c = '$' → rest = [])
  unbroken : ∀ c ∈ word.toList, isWordBreak c = false

/-- A plain word that is no number and no literal, and whose dots do not ask for members. -/
structure CommandWord (word : String) : Prop extends PlainWord word where
  noNumber : Decimal.Numeral.read? word.toList = none
  noLiteral : word ≠ "true" ∧ word ≠ "false" ∧ word ≠ "null"
  dots : Expr.isDotted word = true → Expr.isPath word = true ∨
    word.toList.head? ≠ some '.' ∧ Expr.isProgram word = true

inductive Argument
  | word (text : String)
  | quoted (text : String)

namespace Argument

def written : Argument → String
  | .word text => text
  | .quoted text => quote text

def given : Argument → String
  | .word text => text
  | .quoted text => text

/-- A word may be a number, but no integer with more digits than integers may have. -/
def Plain : Argument → Prop
  | .word text => PlainWord text ∧ ∀ numeral, Decimal.Numeral.read? text.toList = some numeral →
      numeral.isInteger = true → numeral.whole.length ≤ Fault.digitLimit
  | .quoted _ => True

end Argument

def commandLine (command : String) (arguments : List Argument) : String :=
  " ".intercalate (command :: arguments.map Argument.written)

/-! ## Reading the words of a line -/

namespace Literal

/-- What an external command gets for a literal among its arguments. -/
def argument : Literal → String
  | .null => "null"
  | .bool b => if b then "true" else "false"
  | .number _ spelling => spelling
  | .word text => text
  | .quoted text => text

theorem argument_of_unquoted {literal : Literal} (plain : ∀ text, literal ≠ .quoted text) :
    literal.argument = String.ofList literal.spelling := by
  cases literal with
  | quoted text => exact absurd rfl (plain text)
  | bool b => cases b <;> rfl
  | null => rfl
  | number n text => simp [argument, spelling]
  | word text => simp [argument, spelling]

end Literal

theorem PlainWord.spells {word : String} (plain : PlainWord word) {lexeme : Lexeme}
    (read : Lexeme.ofWord word.toList = .ok lexeme) : Spells word.toList lexeme := by
  obtain ⟨c, rest, shape, noComment, noBlank, -⟩ := plain.starts
  have unbroken := plain.unbroken
  rw [shape] at read unbroken ⊢
  obtain ⟨first, others⟩ := List.forall_mem_cons.mp unbroken
  exact spells_word (by simp [startsWord, first, noBlank, noComment]) others read

theorem ofWord_of_plain {word : String} (plain : PlainWord word) :
    Lexeme.ofWord word.toList =
      match Decimal.Numeral.read? word.toList with
      | some numeral => (Number.ofNumeral numeral).map (.number · word)
      | none => .ok (if word = "true" then .bool true else if word = "false" then .bool false
          else if word = "null" then .null else .word word) := by
  obtain ⟨c, rest, shape, -, -, alone⟩ := plain.starts
  have whole : String.ofList (c :: rest) = word := by rw [← shape, String.ofList_toList]
  rw [shape]
  unfold Lexeme.ofWord
  split
  · rename_i first others same
    obtain ⟨rfl, rest_eq⟩ := List.cons.inj same
    rw [alone rfl] at rest_eq
    cases rest_eq
  · subst whole
    rfl

structure Argument.ReadAs (argument : Argument) (literal : Literal) : Prop where
  legible : (Expr.value .nowhere literal).Everywhere Expr.Legible
  spelling : literal.spelling = argument.written.toList
  given : literal.argument = argument.given
  operator : (Expr.value .nowhere literal).operator? = none

theorem PlainWord.not_operator {word : String} (plain : PlainWord word) :
    operators.contains word = false := by
  rw [Bool.eq_false_iff]
  intro operator
  simp only [operators, List.contains_eq_mem, List.mem_cons, List.not_mem_nil, or_false,
    decide_eq_true_eq] at operator
  rcases operator with rfl | rfl | rfl <;> cases plain.unbroken _ List.mem_cons_self

theorem PlainWord.exists_literal {word : String} (plain : PlainWord word)
    (short : ∀ numeral, Decimal.Numeral.read? word.toList = some numeral →
      numeral.isInteger = true → numeral.whole.length ≤ Fault.digitLimit) :
    ∃ literal : Literal, Lexeme.ofWord word.toList = .ok literal.lexeme ∧
      literal.lexeme.leaf? .nowhere = some (.value .nowhere literal) ∧
      (∀ text, literal ≠ .quoted text) ∧ ∀ text, literal = .word text → text = word := by
  rw [ofWord_of_plain plain]
  cases numeral : Decimal.Numeral.read? word.toList with
  | some found =>
      have number : ∃ n, Number.ofNumeral found = .ok n := by
        unfold Number.ofNumeral
        split
        · rename_i integer
          rw [if_neg (Nat.not_lt_of_le (short found numeral integer))]
          exact ⟨_, rfl⟩
        · exact ⟨_, rfl⟩
      obtain ⟨n, made⟩ := number
      refine ⟨.number n word, ?_, rfl, nofun, nofun⟩
      simp only [made]
      rfl
  | none =>
      dsimp only
      split
      · exact ⟨.bool true, rfl, rfl, nofun, nofun⟩
      split
      · exact ⟨.bool false, rfl, rfl, nofun, nofun⟩
      split
      · exact ⟨.null, rfl, rfl, nofun, nofun⟩
      · exact ⟨.word word, rfl, rfl, nofun, fun _ same => by cases same; rfl⟩

theorem PlainWord.readAs {word : String} (plain : PlainWord word)
    (short : ∀ numeral, Decimal.Numeral.read? word.toList = some numeral →
      numeral.isInteger = true → numeral.whole.length ≤ Fault.digitLimit) :
    ∃ literal, (Argument.word word).ReadAs literal := by
  obtain ⟨literal, read, leaf, unquoted, own⟩ := plain.exists_literal short
  have spelling : literal.spelling = word.toList := chars_of_ofWord read leaf
  have spells : Spells literal.spelling literal.lexeme := spelling ▸ plain.spells read
  refine ⟨literal, ?_, spelling, ?_, ?_⟩
  · exact Expr.everywhere_value.mpr ⟨trivial, spells, selfSame_of_ofWord read leaf⟩
  · rw [Literal.argument_of_unquoted unquoted, spelling, String.ofList_toList]
    rfl
  · cases literal with
    | word text =>
        have notOperator := plain.not_operator
        rw [← own text rfl] at notOperator
        simp only [Expr.operator?, Expr.bareWord?, Option.filter, notOperator]
        rfl
    | _ => rfl

theorem Argument.Plain.readAs {argument : Argument} (plain : argument.Plain) :
    ∃ literal, argument.ReadAs literal := by
  cases argument with
  | word text => exact plain.1.readAs plain.2
  | quoted text =>
      have same : (Expr.value .nowhere (.quoted text)).SelfSame := by
        simp [Expr.SelfSame, Literal.same]
      refine ⟨.quoted text, ?_, by simp [Literal.spelling, written, quote], rfl, rfl⟩
      exact Expr.everywhere_value.mpr ⟨trivial, spells_quoted text, same⟩

theorem exists_readAs {arguments : List Argument} (plain : ∀ a ∈ arguments, a.Plain) :
    ∃ literals, List.Forall₂ Argument.ReadAs arguments literals := by
  induction arguments with
  | nil => exact ⟨[], .nil⟩
  | cons argument rest ih =>
      obtain ⟨first, others⟩ := List.forall_mem_cons.mp plain
      obtain ⟨literal, reads⟩ := first.readAs
      obtain ⟨literals, later⟩ := ih others
      exact ⟨literal :: literals, .cons reads later⟩

theorem given_of_reads {arguments : List Argument} {literals : List Literal}
    (reads : List.Forall₂ Argument.ReadAs arguments literals) :
    literals.map Literal.argument = arguments.map Argument.given := by
  induction reads with
  | nil => rfl
  | cons read _ ih => rw [List.map_cons, List.map_cons, read.given, ih]

theorem CommandWord.legible {command : String} (named : CommandWord command) :
    (Expr.value .nowhere (.word command)).Everywhere Expr.Legible := by
  have read : Lexeme.ofWord command.toList = .ok (.word command) := by
    rw [ofWord_of_plain named.toPlainWord, named.noNumber]
    simp [named.noLiteral]
  have spells := named.toPlainWord.spells read
  exact Expr.everywhere_value.mpr ⟨trivial, spells, selfSame_of_ofWord read rfl⟩

theorem plain_of_short {text : String} (plain : PlainWord text)
    (short : text.toList.length ≤ Fault.digitLimit) : (Argument.word text).Plain := by
  refine ⟨plain, fun numeral read _ => ?_⟩
  have spelled := congrArg List.length (Decimal.Numeral.spelling_of_read? read)
  simp only [Decimal.Numeral.spelling, List.length_append] at spelled
  omega

/-! ## Reading the line -/

namespace Expr

def line (command : String) (literals : List Literal) : Expr :=
  .call .nowhere (.command .nowhere command :: literals.map (.value .nowhere))

/-- The items of a line before commands are marked. -/
def words (command : String) (literals : List Literal) : List Expr :=
  .value .nowhere (.word command) :: literals.map (.value .nowhere)

variable {command : String} {arguments : List Argument} {literals : List Literal}

theorem resolved_of_named (named : CommandWord command) :
    (Expr.command .nowhere command).NameResolved := by
  cases dotted : isDotted command with
  | false =>
      have noDot : command.toList.head? ≠ some '.' := fun first => by
        have inside : '.' ∈ command.toList := List.mem_of_mem_head? first
        simp [isDotted, inside] at dotted
      exact ⟨by simp [isMemberCommand, noDot], by simp [dotted]⟩
  | true =>
      rcases named.dots dotted with path | ⟨noDot, program⟩
      · exact ⟨by simp [isMemberCommand, path], fun _ => by simp [isProgram, path]⟩
      · exact ⟨by simp [isMemberCommand, noDot], fun _ => program⟩

theorem leaf_of_reads (reads : List.Forall₂ Argument.ReadAs arguments literals) :
    ∀ e ∈ literals.map (Expr.value .nowhere), ∃ literal, e = .value .nowhere literal ∧
      e.Everywhere Legible ∧ e.operator? = none := by
  induction reads with
  | nil => nofun
  | cons read _ ih =>
      exact List.forall_mem_cons.mpr ⟨⟨_, rfl, read.legible, read.operator⟩, ih⟩

theorem normal_line (named : CommandWord command)
    (reads : List.Forall₂ Argument.ReadAs arguments literals) :
    (line command literals).Everywhere NodeNormal := by
  have leaf := leaf_of_reads reads
  refine everywhere_call.mpr ⟨⟨?_, ?_, ?_, trivial, ?_⟩, ?_⟩
  · intro item member
    obtain ⟨literal, rfl, -⟩ := leaf item member
    exact nofun
  · intro head member word
    cases member
    rfl
  · intro item member
    rcases List.mem_cons.mp member with rfl | later
    · simp only [operator?, bareWord?, Option.filter, named.toPlainWord.not_operator]
      rfl
    · obtain ⟨literal, rfl, -, free⟩ := leaf item later
      exact free
  · intro found sequence item member
    obtain ⟨place, commandPlace, same⟩ := eq_call_of_sequence? sequence
    cases same
    obtain ⟨literal, rfl, -⟩ := leaf item member
    rfl
  · intro item member
    rcases List.mem_cons.mp member with rfl | later
    · exact everywhere_command.mpr
        ⟨trivial, trivial, trivial, resolved_of_named named, sequenceFlat_of_none rfl⟩
    · obtain ⟨literal, rfl, -⟩ := leaf item later
      exact everywhere_value.mpr ⟨trivial, trivial, trivial, trivial, sequenceFlat_of_none rfl⟩

theorem height_line : (line command literals).height ≤ depthLimits.trees := by
  have flat : heightAll (literals.map (Expr.value .nowhere)) ≤ 1 := by
    induction literals with
    | nil => exact Nat.zero_le _
    | cons literal rest ih => exact Nat.max_le.mpr ⟨Nat.le_refl _, ih⟩
  simp only [line, height, heightAll, depthLimits]
  omega

theorem written_words (reads : List.Forall₂ Argument.ReadAs arguments literals) :
    commandLine command arguments = String.ofList (bodyChars (words command literals)) := by
  have rest : restChars (literals.map (Expr.value .nowhere)) =
      (arguments.map Argument.written).flatMap fun part => ' ' :: part.toList := by
    induction reads with
    | nil => rfl
    | cons read _ ih =>
        rw [List.map_cons, List.map_cons, restChars, ih, List.flatMap_cons, chars, read.spelling]
        rfl
  have whole : restChars (words command literals) =
      (command :: arguments.map Argument.written).flatMap fun part => ' ' :: part.toList := by
    rw [words, restChars, rest, List.flatMap_cons]
    rfl
  rw [commandLine, ← joined_eq_bodyChars whole, String.ofList_toList]

theorem statement_words {items : List Expr} (same : items.map placeless = words command literals) :
    (statement items).placeless = .call .nowhere (words command literals) := by
  rcases items with - | ⟨e, - | ⟨second, rest⟩⟩
  · cases same
  · have word : e.isBareWord = true := by
      rw [← isBareWord_placeless, (List.cons.inj same).1]
      rfl
    simp [statement, word, placeless, placelessAll_eq_map, ← same]
  · rw [statement, placeless, placelessAll_eq_map, same]
    intro only alike
    cases alike

/-- A line of a command and plain arguments is read as one call of the command. -/
theorem read_commandLine (named : CommandWord command)
    (reads : List.Forall₂ Argument.ReadAs arguments literals) :
    ∃ tree, read (commandLine command arguments) = .ok (some tree) ∧
      tree.placeless = line command literals := by
  have legible : ∀ e ∈ words command literals, e.Everywhere Legible := by
    intro e member
    rcases List.mem_cons.mp member with rfl | later
    · exact named.legible
    · obtain ⟨literal, rfl, read, -⟩ := leaf_of_reads reads e later
      exact read
  have flat : nestingAll (words command literals) = 0 := nestingAll_of_flat fun e member => by
    rcases List.mem_cons.mp member with rfl | later
    · rfl
    · obtain ⟨literal, -, rfl⟩ := List.mem_map.mp later
      rfl
  obtain ⟨items, parsed, same⟩ :=
    ofSource_bodyChars (List.cons_ne_nil _ _) legible (flat ▸ Nat.zero_le _)
  have shown : (words command literals).map shown = words command literals :=
    map_eq_self fun e member => by
      rcases List.mem_cons.mp member with rfl | later
      · rfl
      · obtain ⟨literal, -, rfl⟩ := List.mem_map.mp later
        rfl
  have marked : (statement items).placeless.withCommands = (line command literals).withCommands := by
    rw [statement_words (same.trans shown)]
    rfl
  -- The line is the call that the statement is made, and no pass changes it any more.
  have desugared : (statement items).placeless.desugar = .ok (line command literals) := by
    rw [desugar_eq_of_withCommands marked, desugar_of_normal (normal_line named reads) height_line]
  obtain ⟨tree, made, equal⟩ := exists_of_follows (follows_desugar _) desugared
  rw [written_words reads]
  exact ⟨tree, read_of_ofSource parsed made, equal⟩

end Expr

/-! ## Running the line -/

theorem Eval.runOn_boundingDepth {α : Type} {place : Option Location} {action : Eval α}
    {session : Session} (shallow : (action.runOn session).1 ≠ .error .tooDeep) :
    (boundingDepth place action).runOn session = action.runOn session := by
  rw [boundingDepth, runOn_tryCatch]
  cases outcome : action.runOn session with
  | mk found after =>
      rw [outcome] at shallow
      match found with
      | .ok a => rfl
      | .error (.problem _) => rfl
      | .error (.fault _) => rfl
      | .error .tooDeep => exact absurd rfl shallow

namespace Interpret
variable {command : String} {literals : List Literal} {patience depth scope : Nat}
  {session : Session}

theorem runOn_commandArgument {e : Expr} {literal : Literal}
    (same : e.placeless = .value .nowhere literal) :
    (commandArgument (Engine.ofDepth patience (depth + 1)) scope e).runOn session =
      (.ok [literal.argument], session) := by
  cases e <;> cases same
  cases literal <;> rfl

theorem runOn_commandArguments {body : List Expr}
    (same : body.map Expr.placeless = literals.map (.value .nowhere)) :
    (body.mapM (commandArgument (Engine.ofDepth patience (depth + 1)) scope)).runOn session =
      (.ok (literals.map fun literal => [literal.argument]), session) := by
  induction body generalizing literals with
  | nil =>
      cases literals with
      | nil => rfl
      | cons => cases same
  | cons e rest ih =>
      cases literals with
      | nil => cases same
      | cons literal others =>
          obtain ⟨first, later⟩ := List.cons.inj same
          rw [List.mapM_cons, Eval.runOn_bind, runOn_commandArgument first]
          dsimp only
          rw [Eval.runOn_bind, ih later]
          rfl

/-- A call of a command that nothing callable hides runs the command. -/
theorem runOn_line {tree : Expr} (same : tree.placeless = Expr.line command literals)
    (free : ((session.store.scopes.lookup? scope command).getD .null).isCallable = false) :
    ∃ place, ((Engine.ofDepth patience (depth + 2)).interpret tree scope).runOn session =
      (runCommand command (literals.map Literal.argument) place).runOn session := by
  cases tree with
  | call place body =>
      rw [Expr.placeless, Expr.placelessAll_eq_map, Expr.line, Expr.call.injEq] at same
      cases body with
      | nil => cases same.2
      | cons head arguments =>
          obtain ⟨first, later⟩ := List.cons.inj same.2
          obtain ⟨commandPlace, rfl⟩ : ∃ p, head = .command p command := by
            cases head <;> cases first
            exact ⟨_, rfl⟩
          refine ⟨place, ?_⟩
          have known : (Eval.lookup scope command).runOn session =
            (.ok ((session.store.scopes.lookup? scope command).getD .null), session) := rfl
          rw [Engine.interpret_ofDepth, interpret, callExpression]
          dsimp only
          rw [Eval.runOn_bind, known]
          dsimp only
          have itself : ((Engine.ofDepth patience (depth + 1)).interpret
            (.command commandPlace command) scope).runOn session =
              (.ok (.string command), session) := rfl
          -- No callable hides the command, so the head is evaluated, and it stands for itself.
          rw [if_neg (by simp [free]), Eval.runOn_bind, itself]
          dsimp only
          rw [Eval.runOn_bind, runOn_commandArguments later]
          dsimp only
          rw [← List.flatMap_def, ← List.map_eq_flatMap]
  | _ => cases same

end Interpret

theorem Session.evaluateIn_of_read {session : Session} {source : String} {tree : Expr}
    {scope : Nat} (read : Expr.read source = .ok (some tree))
    (shallow : ((Engine.default.interpret tree scope).runOn session).1 ≠ .error .tooDeep) :
    session.evaluateIn scope source = (Engine.default.interpret tree scope).runOn session := by
  have reads : (Eval.boundingDepth none
      (Engine.evaluateText.liftExcept (Expr.read source))).runOn session =
        (.ok (some tree), session) := by
    rw [read]
    rfl
  rw [evaluateIn, Engine.evaluateText, Eval.runOn_bind, reads]
  exact Eval.runOn_boundingDepth shallow

def Command.value (place : Location) : Except CommandFailure String → Except Failure Value
  | .ok output => .ok (.string output)
  | .error failure => .error (.at place (.processFailed failure.reason))

theorem Command.runOn_execute_recorded {sink : String → Eval Unit} {command : String}
    {arguments : List String} {session : Session} {outputs : List (String × String)}
    {failures : List (String × Int)} (recorded : session.shell = .recorded outputs failures) :
    (execute sink command arguments).runOn session =
      (.ok (answerRecorded outputs failures command),
        session.record (.ran command arguments session.directory)) := by
  rw [execute, Eval.runOn_get_bind, recorded]
  rfl

theorem Interpret.runOn_runCommand (command : String) (arguments : List String) (place : Location)
    (session : Session) :
    let noted := session.record (.logged ⟨.debug, "lish.evaluation.evaluator",
      command ++ " resolved to an external command at " ++ place.text⟩)
    let answer := (Command.execute Command.logErrors command arguments).runOn noted
    (runCommand command arguments place).runOn session =
      (answer.1 >>= Command.value place, answer.2) := by
  intro noted answer
  rw [runCommand, Eval.runOn_bind]
  show Eval.runOn noted (_ >>= _) = _
  rw [Eval.runOn_bind]
  cases outcome : (Command.execute Command.logErrors command arguments).runOn noted with
  | mk found after =>
      have same : answer = (found, after) := outcome
      rw [same]
      match found with
      | .ok (.ok output) => rfl
      | .ok (.error failure) => rfl
      | .error failure => rfl

/-- A line of a command that nothing callable hides and of plain arguments calls the shell once, in
the working directory, with each word as it is spelled and each text unchanged. Its value is the
output of the command. -/
theorem evaluateIn_commandLine {command : String} {arguments : List Argument} (session : Session)
    (scope : Nat) (named : CommandWord command)
    (free : ((session.store.scopes.lookup? scope command).getD .null).isCallable = false)
    (plain : ∀ a ∈ arguments, a.Plain) :
    ∃ place : Location,
      let given := arguments.map Argument.given
      let noted := session.record (.logged ⟨.debug, "lish.evaluation.evaluator",
        command ++ " resolved to an external command at " ++ place.text⟩)
      let answer := (Command.execute Command.logErrors command given).runOn noted
      session.evaluateIn scope (commandLine command arguments) =
          (answer.1 >>= Command.value place, answer.2) ∧
        ∀ outputs failures, session.shell = .recorded outputs failures →
          answer = (.ok (Command.answerRecorded outputs failures command),
            noted.record (.ran command given session.directory)) := by
  obtain ⟨literals, reads⟩ := exists_readAs plain
  obtain ⟨tree, read, same⟩ := Expr.read_commandLine named reads
  have given : literals.map Literal.argument = arguments.map Argument.given := given_of_reads reads
  obtain ⟨place, ran⟩ : ∃ place, (Engine.default.interpret tree scope).runOn session =
      (Interpret.runCommand command (literals.map Literal.argument) place).runOn session :=
    Interpret.runOn_line same free
  -- Only the arguments and the output can make the command fail, so bounding the depth changes
  -- nothing.
  have shallow : ((Engine.default.interpret tree scope).runOn session).1 ≠ .error .tooDeep := by
    intro deep
    rw [ran] at deep
    rcases Interpret.runCommand_fails _ _ _ session _ deep with (its | ⟨error, its⟩) | ⟨p, its⟩
    all_goals cases its
  refine ⟨place, ?_, fun outputs failures recorded => Command.runOn_execute_recorded recorded⟩
  rw [Session.evaluateIn_of_read read shallow, ran, Interpret.runOn_runCommand, given]

/-- Words for an external command: a version, a number with zeros in front, a literal, a quoted text
and a word that starts with a dot. -/
def mixedArguments : List Argument :=
  [.word "checkout", .word "1.10", .word "007", .word "true", .quoted "a\"b\n", .word ".x"]

def recordedSession : Session := .start .empty [] [] (.recorded [("git", "done")] [])

theorem plain_mixedArguments : ∀ a ∈ mixedArguments, a.Plain := by
  have limit : 8 ≤ Fault.digitLimit := by simp [Fault.digitLimit]
  have word {text : String} (starts : ∃ c rest, text.toList = c :: rest ∧ c ≠ '#' ∧
      Text.isBlank c = false ∧ (c = '$' → rest = []))
      (unbroken : (text.toList.all fun c => !isWordBreak c) = true)
      (short : text.toList.length ≤ 8) : (Argument.word text).Plain :=
    plain_of_short ⟨starts, by simpa using unbroken⟩ (short.trans limit)
  simp only [mixedArguments, List.forall_mem_cons]
  refine ⟨word ⟨_, _, rfl, ?_⟩ ?_ ?_, word ⟨_, _, rfl, ?_⟩ ?_ ?_, word ⟨_, _, rfl, ?_⟩ ?_ ?_,
    word ⟨_, _, rfl, ?_⟩ ?_ ?_, trivial, word ⟨_, _, rfl, ?_⟩ ?_ ?_, nofun⟩
  all_goals decide +kernel

theorem named_git : CommandWord "git" where
  starts := ⟨_, _, rfl, by decide⟩
  unbroken := by simp [isWordBreak]
  noNumber := by decide +kernel
  noLiteral := by decide
  dots := by decide

theorem mixedArguments_given :
    ∃ place : Location,
      recordedSession.evaluateIn 1 "git checkout 1.10 007 true \"a\\\"b\\n\" .x" =
        (.ok (.string "done"), (recordedSession.record (.logged ⟨.debug,
          "lish.evaluation.evaluator",
          "git resolved to an external command at " ++ place.text⟩)).record
            (.ran "git" ["checkout", "1.10", "007", "true", "a\"b\n", ".x"] [])) := by
  have free : ((recordedSession.store.scopes.lookup? 1 "git").getD .null).isCallable = false := by
    decide +kernel
  have line : commandLine "git" mixedArguments =
      "git checkout 1.10 007 true \"a\\\"b\\n\" .x" := by decide +kernel
  obtain ⟨place, value, answer⟩ :=
    evaluateIn_commandLine recordedSession 1 named_git free plain_mixedArguments
  rw [answer _ _ rfl, line] at value
  exact ⟨place, value⟩

end ShellLisp
