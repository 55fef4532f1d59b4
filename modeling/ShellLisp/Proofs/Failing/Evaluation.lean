import ShellLisp.Process.Program
import ShellLisp.Proofs.Failing.Texts
import ShellLisp.Proofs.Printing.Numbers
import ShellLisp.Session.Start

/-!
# How evaluations fail

A library call turns the faults that a program can recover from into problems at its place. What is
left are the faults of the other kinds, and those that arise with no library call around them: while
numerals are read and values printed, while elements are walked through, parameters bound and
external commands run. Going too deep becomes a problem of the program. Beside these ends there is the
internal fault, at which a program is not followed any further.
-/

namespace ShellLisp

/-- The faults that evaluations end with. Those of a kind that is not recoverable also leave library
calls; the others arise outside of all of them. -/
inductive Fault.IsUnconverted : Fault → Prop
  | unrecoverable {found : Fault} (kind : found.kind.isRecoverable = false)
      (followed : found.kind ≠ .internal) : IsUnconverted found
  | read (count : Nat) : IsUnconverted (.tooManyDigitsRead count)
  | printed : IsUnconverted .tooManyDigits
  | stepped : IsUnconverted .integerTooLarge
  | running : IsUnconverted .alreadyRunning
  | counted (type : String) : IsUnconverted (.noLength type)
  | listed (type : String) : IsUnconverted (.notIterable type)
  | bound (type : String) : IsUnconverted (.unhashable type)
  | ran {found : Fault} (its : Command.ItsFault (.fault found)) : IsUnconverted found

def Failure.OfEvaluation : Failure → Prop
  | .fault found => found.IsUnconverted ∨ found.kind = .internal
  | .problem _ | .tooDeep => True

theorem Failure.ofEvaluation_of_printing (failure : Failure) (printing : failure.OfPrinting) :
    failure.OfEvaluation := by
  match failure, printing with
  | .fault _, .inl rfl => exact .inl .printed
  | .fault _, .inr (.inl ⟨type, rfl⟩) => exact .inl (.listed type)
  | .fault _, .inr (.inr kind) => exact .inr kind
  | .problem _, _ => trivial
  | .tooDeep, _ => trivial

variable {engine : Engine} {place : Location} {scope : Nat} {body : List Expr} {α : Type}

namespace RunsFailingOnly

theorem problem (place : Location) (cause : Cause) :
    RunsFailingOnly Failure.OfEvaluation (Eval.problem place cause : Eval α) := throw trivial

theorem fault {found : Fault} (unconverted : found.IsUnconverted) :
    RunsFailingOnly Failure.OfEvaluation (Eval.fault found : Eval α) := throw (.inl unconverted)

theorem print (value : Value) : RunsFailingOnly Failure.OfEvaluation (Eval.print value) := by
  refine get_bind fun session => ?_
  split
  · exact read fun store => (store.text_fails false value).mono Failure.ofEvaluation_of_printing
  · rename_i sequence text used
    have finishes : RunsFailingOnly Failure.OfEvaluation
        (LazySequence.setState sequence .finished) := modify _
    exact finishes.bind fun _ => read fun _ =>
      (Store.usedUp?_fails used).mono Failure.ofEvaluation_of_printing

theorem shown (value : Value) :
    RunsFailingOnly Failure.OfEvaluation (Eval.read fun store => store.shown value) :=
  read fun store => (store.shown_fails value).mono Failure.ofEvaluation_of_printing

theorem recovering (place : Location) (action : Eval α) :
    RunsFailingOnly Failure.OfEvaluation (Eval.recovering place action) := by
  have anything : RunsFailingOnly (fun _ => True) action := fun _ _ _ => trivial
  refine anything.tryCatch fun failure _ => ?_
  cases failure with
  | problem found => exact throw trivial
  | tooDeep => exact throw trivial
  | fault found =>
      cases kind : found.kind.isRecoverable with
      | true =>
          dsimp only
          rw [if_pos kind]
          exact problem place _
      | false =>
          dsimp only
          rw [if_neg (by simp [kind])]
          by_cases followed : found.kind = .internal
          · exact throw (.inr followed)
          · exact fault (.unrecoverable kind followed)

end RunsFailingOnly

namespace Engine

end Engine

/-! ## Lazy sequences -/

namespace LazySequence

end LazySequence

/-! ## Special forms -/

namespace Form

end Form

/-! ## Expressions -/

namespace Interpret

end Interpret

/-! ## Calls of functions -/

namespace Apply

end Apply

/-! ## Whole evaluations -/

namespace Engine

end Engine

theorem Lexeme.ofWord_longNumeral {text : List Char} {numeral : Decimal.Numeral}
    (read : Decimal.Numeral.read? text = some numeral) (integer : numeral.isInteger = true)
    (long : Fault.digitLimit < numeral.whole.length) :
    Lexeme.ofWord text = .error (.tooManyDigitsRead numeral.whole.length) := by
  rw [ofWord_of_read? read, Number.ofNumeral, if_pos integer, if_pos long]
  rfl

/-- An integer with too many digits is refused as a fault, not as a problem of the program. -/
theorem Session.evaluateIn_longNumeral (session : Session) (scope : Nat) {text : String}
    {numeral : Decimal.Numeral} (read : Decimal.Numeral.read? text.toList = some numeral)
    (integer : numeral.isInteger = true) (long : Fault.digitLimit < numeral.whole.length) :
    session.evaluateIn scope text =
      (.error (.fault (.tooManyDigitsRead numeral.whole.length)), session) := by
  have refused := Lexeme.ofWord_longNumeral read integer long
  have inside : ∀ c ∈ text.toList, startsWord c = true := fun c member =>
    startsWord_of_numeralChar (isNumeralChar_of_read? read c member)
  have lexed : Token.lex text = .error (.fault (.tooManyDigitsRead numeral.whole.length)) := by
    unfold Token.lex Token.lexChars
    cases shape : text.toList with
    | nil =>
        rw [shape] at read
        cases read
    | cons c rest =>
        rw [shape] at refused inside
        have whole : rest.takeWhile (!isWordBreak ·) = rest :=
          List.takeWhile_eq_self_iff.mpr fun x member => by
            have starts := inside x (by simp [member])
            simp only [startsWord, Bool.not_eq_true', Bool.or_eq_false_iff] at starts
            simp [starts.1.1]
        rw [pieces_cons, first_of_startsWord (inside c (by simp)), whole, refused]
        rfl
  have unread : Expr.read text = .error (.fault (.tooManyDigitsRead numeral.whole.length)) := by
    rw [Expr.read, Expr.ofSource, lexed]
    rfl
  rw [evaluateIn, Engine.evaluateText, unread]
  rfl

end ShellLisp
