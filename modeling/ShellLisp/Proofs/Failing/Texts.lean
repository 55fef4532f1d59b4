import ShellLisp.Proofs.Failing.Actions
import ShellLisp.Proofs.Reading.Tree
import ShellLisp.Store.Printer

/-!
# How reading and printing fail

Reading a program fails with a problem of the program, or because a numeral has too many digits, or
because the program is nested too deep. Printing a value fails because an integer in it has too many
digits, because the parameters of a function in it are no row of values, or are a lazy sequence, which
is not followed, or because it is nested too deep.
-/

namespace ShellLisp

/-- How tokens and trees fail to make a tree: never by a fault. -/
def Failure.OfTrees : Failure → Prop
  | .fault _ => False
  | .problem _ | .tooDeep => True

def Failure.OfPrinting : Failure → Prop
  | .fault found =>
      found = .tooManyDigits ∨ (∃ type, found = .notIterable type) ∨ found.kind = .internal
  | .problem _ | .tooDeep => True

namespace Expr

theorem checkDepth_fails (limit : Nat) (e : Expr) :
    FailsOnly Failure.OfTrees (e.checkDepth limit) := .ite (.error trivial) (.ok e)

theorem regroup_fails (body : List Expr) : FailsOnly Failure.OfTrees (regroup body) := by
  unfold regroup
  split
  · exact .ok _
  · exact .ite (.error trivial) (.ite (.error trivial) (.ok _))

theorem withPipes_fails (e : Expr) : FailsOnly Failure.OfTrees e.withPipes := by
  induction size : e.size using Nat.strongRecOn generalizing e with
  | ind bound ih =>
      subst size
      cases e with
      | call place body =>
          rw [withPipes_call]
          refine (regroup_fails body).bind fun items done => ?_
          refine (FailsOnly.mapM fun e member => ?_).bind fun inner _ => .ok _
          exact ih e.size (size_mem_regroup place done member) e rfl
      | array place body =>
          rw [withPipes_array]
          refine (FailsOnly.mapM fun e member => ?_).bind fun inner _ => .ok _
          exact ih e.size (Nat.lt_succ_of_le (size_le_sizeAll member)) e rfl
      | map place body =>
          rw [withPipes_map]
          refine (FailsOnly.mapM fun e member => ?_).bind fun inner _ => .ok _
          exact ih e.size (Nat.lt_succ_of_le (size_le_sizeAll member)) e rfl
      | value | command | «variable» =>
          simp only [withPipes]
          exact .ok _

theorem keys_fails (place : Location) (parts : List String) :
    FailsOnly Failure.OfTrees (keys place parts) := .ite (.error trivial) (.ok _)

theorem memberLookup_fails (place : Location) (name : String) :
    FailsOnly Failure.OfTrees (memberLookup place name) := by
  unfold memberLookup
  split
  · exact .error trivial
  · exact .ite (.error trivial) ((keys_fails place _).bind fun _ _ => .ok _)

theorem memberItems_fails (place commandPlace : Location) (name : String) (arguments : List Expr) :
    FailsOnly Failure.OfTrees (memberItems place commandPlace name arguments) :=
  .ite (.error trivial) ((keys_fails commandPlace _).bind fun _ _ => .ok _)

theorem withMembers_command_fails (place : Location) (name : String) :
    FailsOnly Failure.OfTrees (withMembers (.command place name)) := by
  rw [withMembers]
  exact .ite (memberLookup_fails place name) (.ok _)

theorem withMembers_fails (e : Expr) : FailsOnly Failure.OfTrees e.withMembers := by
  induction e using Expr.induction with
  | call place body ih =>
      rcases memberCall_or_other body with ⟨commandPlace, name, arguments, rfl, member⟩ | other
      · rw [withMembers_call_of_member member]
        refine (memberItems_fails _ _ _ _).bind fun parts _ => ?_
        exact (FailsOnly.mapM fun e inside => ih e (by simp [inside])).bind fun inner _ => .ok _
      · rw [withMembers_call other]
        exact (FailsOnly.mapM ih).bind fun inner _ => .ok _
  | array place body ih =>
      rw [withMembers, withMembersAll_eq_mapM]
      exact (FailsOnly.mapM ih).bind fun inner _ => .ok _
  | map place body ih =>
      rw [withMembers, withMembersAll_eq_mapM]
      exact (FailsOnly.mapM ih).bind fun inner _ => .ok _
  | value place literal => exact .ok _
  | command place name => exact withMembers_command_fails place name
  | reference place name =>
      rw [withMembers]
      exact .ite (memberLookup_fails place name) (.ok _)

theorem desugar_fails (e : Expr) : FailsOnly Failure.OfTrees e.desugar := by
  have pipes : FailsOnly Failure.OfTrees (e.withCommands.withPipesWithin depthLimits.trees) :=
    (withPipes_fails _).bind fun piped _ => checkDepth_fails _ piped
  have members (e : Expr) : FailsOnly Failure.OfTrees (e.withMembersWithin depthLimits.trees) :=
    (withMembers_fails e).bind fun tree _ => checkDepth_fails _ tree
  have passes : FailsOnly Failure.OfTrees e.passes :=
    pipes.bind fun piped _ => (members piped).bind fun tree _ => .ok _
  exact passes.bind fun stages _ => .ok stages.sequences

end Expr

/-! ## Printed values -/

theorem Number.text_fails (n : Number) {fault : Fault} (failed : n.text = .error fault) :
    fault = .tooManyDigits := by
  cases n with
  | float x => cases failed
  | int n =>
      unfold text integerText at failed
      dsimp only at failed
      split at failed
      · cases failed
        rfl
      · cases failed

namespace Store

theorem fixedElements_fails (store : Store) (value : Value) {fault : Fault}
    (failed : store.fixedElements value = .error fault) :
    (∃ type, fault = .notIterable type) ∨ fault.kind = .internal := by
  unfold fixedElements at failed
  split at failed
  case h_5 =>
    cases failed
    exact .inr rfl
  case h_6 =>
    cases failed
    exact .inl ⟨_, rfl⟩
  all_goals contradiction

theorem literalWithin_fails (store : Store) (depth : Nat) (within : List Value) (value : Value) :
    FailsOnly Failure.OfPrinting (store.literalWithin depth within value) := by
  induction depth generalizing within value with
  | zero => exact .error trivial
  | succ depth ih =>
      cases value with
      | number n => exact .lift fun fault failed => .inl (n.text_fails failed)
      | tuple items => exact (FailsOnly.mapM fun item _ => ih _ item).bind fun parts _ => .ok _
      | array ref =>
          exact .ite (.ok _) ((FailsOnly.mapM fun item _ => ih _ item).bind fun parts _ => .ok _)
      | map ref =>
          refine .ite (.ok _) ((FailsOnly.mapM fun entry _ => ?_).bind fun parts _ => .ok _)
          exact (ih _ _).bind fun name _ => (ih _ _).bind fun text _ => .ok _
      | library ref => exact (FailsOnly.name (ih _ _)).bind fun name _ => .ok _
      | form ref => exact (FailsOnly.name (ih _ _)).bind fun name _ => .ok _
      | sequence ref => exact (FailsOnly.name (ih _ _)).bind fun label _ => .ok _
      | closure ref =>
          rw [literalWithin]
          dsimp only
          split
          · exact .ok _
          · rename_i closure _
            refine (FailsOnly.lift fun fault failed =>
              .inr (fixedElements_fails store _ failed)).bind fun parameters _ => ?_
            refine (FailsOnly.mapM fun parameter _ => .name (ih _ parameter)).bind fun names _ => ?_
            have named := (FailsOnly.name (ih within closure.name)).map ("fn " ++ ·)
            exact .ite (named.bind fun label _ => .ok _) (.ok _)
      | host function => cases function <;> exact .ok _
      | null | bool | string | complex | bound | object => exact .ok _

theorem literal_fails (store : Store) (value : Value) :
    FailsOnly Failure.OfPrinting (store.literal value) := literalWithin_fails store _ _ value

theorem shown_fails (store : Store) (value : Value) :
    FailsOnly Failure.OfPrinting (store.shown value) := by
  unfold shown
  split
  · exact .ok _
  · exact literal_fails store _

theorem usedUp?_fails {store : Store} {value : Value} {sequence : Nat}
    {text : Except Failure String} (used : store.usedUp? value = some (sequence, text)) :
    FailsOnly Failure.OfPrinting text := by
  cases value with
  | closure ref =>
      obtain ⟨closure, -, found⟩ := Option.bind_eq_some_iff.mp used
      obtain ⟨⟨source, names⟩, -, same⟩ := Option.bind_eq_some_iff.mp found
      cases same
      exact .map _ (.ite (.map _ (shown_fails store closure.name)) (.ok _))
  | _ => cases used

theorem leafText_fails (store : Store) (quoted : Bool) (value : Value) :
    FailsOnly Failure.OfPrinting (store.leafText quoted value) := by
  unfold leafText
  split
  case h_4 n => exact .lift fun fault failed => .inl (n.text_fails failed)
  case h_6 => exact literal_fails store _
  all_goals exact .ok _

theorem textWithin_fails (store : Store) {leaf : Bool → Value → Except Failure String}
    (leaves : ∀ quoted value, FailsOnly Failure.OfPrinting (leaf quoted value)) (depth : Nat)
    (quoted : Bool) (value : Value) :
    FailsOnly Failure.OfPrinting (store.textWithin leaf depth quoted value) := by
  induction depth generalizing quoted value with
  | zero => exact .error trivial
  | succ depth ih =>
      cases value with
      | tuple items => exact (FailsOnly.mapM fun item _ => ih _ item).bind fun parts _ => .ok _
      | array ref => exact (FailsOnly.mapM fun item _ => ih _ item).bind fun parts _ => .ok _
      | map ref =>
          refine (FailsOnly.mapM fun entry _ => ?_).bind fun parts _ => .ok _
          exact (ih _ _).bind fun name _ => (ih _ _).bind fun text _ => .ok _
      | _ => exact leaves _ _

theorem text_fails (store : Store) (quoted : Bool) (value : Value) :
    FailsOnly Failure.OfPrinting (store.text quoted value) :=
  textWithin_fails store (leafText_fails store) _ quoted value

end Store

end ShellLisp
