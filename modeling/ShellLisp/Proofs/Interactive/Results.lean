import ShellLisp.Evaluation.Followed
import ShellLisp.Proofs.Changes.Evaluation
import ShellLisp.Proofs.Scoping.WriteDiscipline
import ShellLisp.Session.Interactive

/-!
# Numbered results

An interactive session keeps the values of its lines under numbered names. As long as no line itself
binds or removes such a name, the names are exactly those below the index, and the value under a
number is that of the line which was the number's turn since the results were last cleared. It does
not matter where a line clears them, and with what it ends, as long as it is followed. What a problem
says is printed as it is, and may look like a result.
-/

namespace ShellLisp.Session

/-! ## Names of results -/

/-- Whether a name is that of a result: `result` and digits. -/
def isResultName (name : String) : Bool :=
  match name.toList.dropPrefix? resultPrefix.toList with
  | some digits => !digits.isEmpty && digits.all Char.isDigit
  | none => false

theorem toList_resultName (index : Nat) :
    (resultName index).toList = resultPrefix.toList ++ Nat.toDigits 10 index := by
  simp [resultName]

theorem isResultName_resultName (index : Nat) : isResultName (resultName index) = true := by
  have behind : (resultName index).toList.dropPrefix? resultPrefix.toList =
      some (Nat.toDigits 10 index) :=
    List.dropPrefix?_eq_some_iff.mpr ⟨_, toList_resultName index, beq_self_eq_true _⟩
  have digits : (Nat.toDigits 10 index).all Char.isDigit = true :=
    List.all_eq_true.mpr fun c member => Nat.isDigit_of_mem_toDigits (by omega) (by omega) member
  simp [isResultName, behind, digits, Nat.toDigits_ne_nil]

theorem resultName_injective {first second : Nat} (same : resultName first = resultName second) :
    first = second := by
  have lists := congrArg String.toList same
  rw [toList_resultName, toList_resultName] at lists
  have digits := congrArg (fun digits => Nat.ofDigitChars 10 digits 0)
    (List.append_cancel_left lists)
  simpa only [Nat.ofDigitChars_toDigits (b := 10) (by omega) (by omega)] using digits

def resultNames : Reserved := ⟨isResultName, fun _ _ => false⟩

/-! ## Bindings -/

theorem lookup_erase_other {name other : String} (different : other ≠ name)
    (bindings : Bindings Value) :
    List.lookup other (Bindings.erase name bindings) = List.lookup other bindings := by
  induction bindings with
  | nil => rfl
  | cons entry rest ih =>
      obtain ⟨n, v⟩ := entry
      by_cases same : n = name
      · have dropped : Bindings.erase name ((n, v) :: rest) = Bindings.erase name rest :=
          List.filter_cons_of_neg (by simpa using same)
        have unequal : (other == n) = false := by simpa [same] using different
        rw [dropped, ih, List.lookup_cons, unequal]
      · have kept : Bindings.erase name ((n, v) :: rest) = (n, v) :: Bindings.erase name rest :=
          List.filter_cons_of_pos (by simpa using same)
        rw [kept, List.lookup_cons, List.lookup_cons, ih]

theorem lookup_erase_self (name : String) (bindings : Bindings Value) :
    List.lookup name (Bindings.erase name bindings) = none := by
  refine List.lookup_eq_none_iff.mpr fun entry member => ?_
  have kept : entry.1 ≠ name := by simpa using (List.mem_filter.mp member).2
  simpa using Ne.symm kept

theorem lookup_eraseAll (names : List String) (name : String) (bindings : Bindings Value) :
    List.lookup name (names.foldl (fun found name => Bindings.erase name found) bindings) =
      if name ∈ names then none else List.lookup name bindings := by
  induction names generalizing bindings with
  | nil => rfl
  | cons first rest ih =>
      rw [List.foldl_cons, ih]
      by_cases same : name = first
      · subst same
        simp [lookup_erase_self]
      · simp [lookup_erase_other same, same]

theorem lookup_installCommands {name : String} (other : List.lookup name sessionCommands = none)
    (session : Session) :
    List.lookup name session.installCommands.moduleBindings =
      List.lookup name session.moduleBindings := by
  unfold installCommands
  generalize sessionCommands = commands at other
  induction commands generalizing session with
  | nil => rfl
  | cons entry rest ih =>
      obtain ⟨first, others⟩ := List.forall_mem_cons.mp (List.lookup_eq_none_iff.mp other)
      rw [List.foldl_cons, ih _ (List.lookup_eq_none_iff.mpr others)]
      show List.lookup name ((session.store.scopes.modify session.module _).bindings
        session.module) = _
      rcases Scopes.bindings_modify session.store.scopes session.module _ session.module with
        same | ⟨-, same⟩
      · rw [same]
        rfl
      · rw [same, Bindings.lookup_define_other (bne_iff_ne.mp first)]
        rfl

theorem results_installCommands (session : Session) :
    session.installCommands.results = session.results :=
  List.foldlRecOn sessionCommands _ rfl fun _ same _ _ => same

theorem resultName_no_command {name : String} (result : isResultName name = true) :
    List.lookup name sessionCommands = none := by
  refine List.lookup_eq_none_iff.mpr fun entry member => ?_
  have apart : ∀ entry ∈ sessionCommands, isResultName entry.1 = false := by decide
  refine bne_iff_ne.mpr ?_
  rintro rfl
  rw [apart entry member] at result
  cases result

theorem Linked.moduleBindings_keepResult {session : Session} (linked : session.Linked)
    (value : Value) : (session.keepResult value).2.moduleBindings =
      Bindings.define (resultName session.results) value session.moduleBindings :=
  Scopes.bindings_modify_self linked.present_module _

/-! ## What single changes do to results -/

/-- The names of results that are bound are those below the index, with the values given. -/
structure NumbersResults (session : Session) (kept : List Value) : Prop where
  index : session.results = kept.length
  bound : ∀ number, List.lookup (resultName number) session.moduleBindings = kept[number]?
  only : ∀ name value, isResultName name = true →
    List.lookup name session.moduleBindings = some value →
      ∃ number, number < session.results ∧ name = resultName number

namespace NumbersResults
variable {session before after : Session} {kept : List Value}

theorem of_same (numbers : before.NumbersResults kept)
    (same : ∀ name, isResultName name = true →
      List.lookup name after.moduleBindings = List.lookup name before.moduleBindings)
    (results : after.results = before.results) : after.NumbersResults kept where
  index := results.trans numbers.index
  bound number := (same _ (isResultName_resultName number)).trans (numbers.bound number)
  only name value result found := by
    rw [same name result] at found
    rw [results]
    exact numbers.only name value result found

theorem of_none (none : ∀ name, isResultName name = true →
      List.lookup name session.moduleBindings = none) (results : session.results = 0) :
    session.NumbersResults [] where
  index := results
  bound number := none _ (isResultName_resultName number)
  only name value result found := by
    rw [none name result] at found
    cases found

theorem clearResults (linked : session.Linked) (numbers : session.NumbersResults kept) :
    session.clearResults.NumbersResults [] := by
  refine of_none (fun name result => ?_) rfl
  have bindings : session.clearResults.moduleBindings =
      ((List.range session.results).map resultName).foldl
        (fun found name => Bindings.erase name found) session.moduleBindings :=
    Scopes.bindings_modify_self linked.present_module _
  rw [bindings, lookup_eraseAll]
  split
  · rfl
  · rename_i outside
    cases found : List.lookup name session.moduleBindings with
    | none => rfl
    | some value =>
        obtain ⟨number, below, rfl⟩ := numbers.only name value result found
        exact absurd (List.mem_map_of_mem (List.mem_range.mpr below)) outside

theorem clearDefinitions (session : Session) : session.clearDefinitions.NumbersResults [] := by
  refine of_none (fun name result => ?_) (results_installCommands _)
  have empty : ({ session.clear with results := 0 } : Session).moduleBindings = [] :=
    moduleBindings_clear session
  rw [Session.clearDefinitions, lookup_installCommands (resultName_no_command result), empty]
  rfl

/-- No single change binds or removes the name of a result, but some clear them all. -/
theorem change (linked : before.Linked) (numbers : before.NumbersResults kept)
    (changed : before.Change resultNames after) :
    after.NumbersResults kept ∨ after.NumbersResults [] := by
  have modified (holder : Nat) (step : Bindings Value → Bindings Value)
      (other : holder = before.module → ∀ name, isResultName name = true → ∀ bindings,
        List.lookup name (step bindings) = List.lookup name bindings) :
      ({ before with store :=
          { before.store with scopes := before.store.scopes.modify holder step } } :
        Session).NumbersResults kept := by
    refine numbers.of_same (fun name result => ?_) rfl
    show List.lookup name ((before.store.scopes.modify holder step).bindings before.module) = _
    rcases Scopes.bindings_modify before.store.scopes holder step before.module with
      same | ⟨holds, same⟩
    · rw [same]
      rfl
    · rw [same, other holds.symm name result]
      rfl
  -- A name that may be bound or removed is none of a result.
  have apart {name result : String} (free : resultNames.name name = false)
      (is : isResultName result = true) : result ≠ name := by
    rintro rfl
    cases free.symm.trans is
  cases changed with
  | outside => exact .inl (numbers.of_same (fun _ _ => rfl) rfl)
  | store changed =>
      refine .inl (numbers.of_same (fun name _ => ?_) rfl)
      unfold moduleBindings
      rw [changed.scopes]
  | newScope parent =>
      refine .inl (numbers.of_same (fun name _ => ?_) rfl)
      show List.lookup name ((before.store.scopes.push (some parent) none).bindings _) = _
      rw [Scopes.bindings_push]
      rfl
  | bindLocal isInner name value =>
      refine .inl (modified _ _ fun same => ?_)
      subst same
      exact absurd linked.own isInner
  | define _ free value =>
      exact .inl (modified _ _ fun _ name result bindings =>
        Bindings.lookup_define_other (apart free result) value bindings)
  | @delete name free scope =>
      left
      rcases Scopes.delete_eq before.store.scopes scope name with same | ⟨holder, -, same⟩
      · rw [same]
        exact numbers
      · rw [same]
        exact modified _ _ fun _ other result bindings =>
          lookup_erase_other (apart free result) bindings
  | clearResults => exact .inr (numbers.clearResults linked)
  | clearDefinitions => exact .inr (clearDefinitions before)

theorem changes (linked : before.Linked) (numbers : before.NumbersResults kept)
    (made : Changes resultNames before after) :
    after.NumbersResults kept ∨ after.NumbersResults [] := by
  induction made with
  | refl => exact .inl numbers
  | @tail middle _ before changed ih =>
      obtain ⟨stays, -⟩ := linked.changes before
      rcases ih with numbers | numbers
      · exact numbers.change stays changed
      · exact .inr ((numbers.change stays changed).elim id id)

theorem keepResult (linked : session.Linked) (numbers : session.NumbersResults kept)
    (value : Value) : (session.keepResult value).2.NumbersResults (kept ++ [value]) := by
  have bindings := linked.moduleBindings_keepResult value
  have next : (session.keepResult value).2.results = session.results + 1 := rfl
  refine ⟨by simp [next, numbers.index], fun number => ?_, fun name found result there => ?_⟩
  · rw [bindings]
    by_cases new : number = session.results
    · rw [new, Bindings.lookup_define_self, numbers.index]
      simp
    · rw [Bindings.lookup_define_other (fun same => new (resultName_injective same)),
        numbers.bound number]
      rw [numbers.index] at new
      rcases Nat.lt_or_gt_of_ne new with below | above
      · rw [List.getElem?_append_left below]
      · rw [List.getElem?_eq_none (Nat.le_of_lt above), List.getElem?_eq_none]
        simpa using above
  · rw [next]
    by_cases new : name = resultName session.results
    · exact ⟨session.results, Nat.lt_succ_self _, new⟩
    · rw [bindings, Bindings.lookup_define_other new] at there
      obtain ⟨number, below, same⟩ := numbers.only name found result there
      exact ⟨number, Nat.lt_succ_of_lt below, same⟩

end NumbersResults

/-! ## Lines -/

/-- What handling a line comes to, given what evaluating it left and gave. -/
inductive Handling (style : Style) (after : Session) :
    Except Failure Value → Except Failure (Option String) × Session → Prop
  | problem (found : Problem) (event : Event) :
      Handling style after (.error (.problem found)) (.ok (some found.text), after.record event)
  | failed {failure : Failure} (other : ∀ found, failure ≠ .problem found) :
      Handling style after (.error failure) (.error failure, after)
  | hidden {value : Value} (unseen : isShown value = false) :
      Handling style after (.ok value) (.ok none, after)
  | shown {value : Value} {text : String} (seen : isShown value = true)
      (printed : (after.keepResult value).2.store.display style value = .ok text) :
      Handling style after (.ok value)
        (.ok (some ("$" ++ resultName after.results ++ ": " ++ text)), (after.keepResult value).2)
  | unprinted {value : Value} {failure : Failure} (seen : isShown value = true)
      (failed : (after.keepResult value).2.store.display style value = .error failure) :
      Handling style after (.ok value) (.error failure, (after.keepResult value).2)

theorem handling (session : Session) (style : Style) (line : String) :
    Handling style (session.evaluate line).2 (session.evaluate line).1
      (session.handle style line) := by
  unfold Session.handle
  generalize session.evaluate line = evaluated
  obtain ⟨outcome, after⟩ := evaluated
  cases outcome with
  | error failure =>
      cases failure with
      | problem found => exact .problem found _
      | fault | tooDeep => exact .failed nofun
  | ok value =>
      dsimp only
      split
      · rename_i seen
        cases printed : (after.keepResult value).2.store.display style value with
        | ok text => exact .shown seen printed
        | error failure => exact .unprinted seen printed
      · rename_i unseen
        exact .hidden (by simpa using unseen)

/-- The values that are kept after a line, given those kept before it. No evaluation changes the
index except by setting it back to zero, so another index than before says that the results were
cleared while the line ran. -/
def keptAfter (session : Session) (line : String) (kept : List Value) : List Value :=
  let (outcome, after) := session.evaluate line
  let standing := if after.results = session.results then kept else []
  match outcome with
  | .ok value => if isShown value then standing ++ [value] else standing
  | .error _ => standing

/-- The sessions that a new interactive session comes to when it handles lines that are followed and
spare the names of results, each with the values it keeps. Between two lines the outside may change. -/
inductive Handled (style : Style) : Session → List Value → Prop
  | opened (files : FileTree) (directory home : Path) (shell : Shell) :
      Handled style (start files directory home shell).installCommands []
  | line {session : Session} {kept : List Value} (handled : Handled style session kept)
      (text : String) (followed : isFollowed (session.evaluate text).1 = true)
      (spares : session.evaluateSparing resultNames text = session.evaluate text) :
      Handled style (session.handle style text).2 (session.keptAfter text kept)
  | between {session : Session} {kept : List Value} (handled : Handled style session kept)
      (files : FileTree) (directory : Path) (events : Array Event) (running : Bool) :
      Handled style { session with files, directory, events, running } kept

variable {session : Session} {kept : List Value} {style : Style}

theorem NumbersResults.evaluate (linked : session.Linked) (numbers : session.NumbersResults kept)
    {line : String}
    (spares : session.evaluateSparing resultNames line = session.evaluate line) :
    (session.evaluate line).2.NumbersResults
      (if (session.evaluate line).2.results = session.results then kept else []) := by
  have made := linked.evaluateSparing_changes resultNames line
  rw [spares] at made
  split
  · rename_i same
    rcases numbers.changes linked made with standing | cleared
    · exact standing
    · -- Clearing does not show when there was nothing to clear.
      have none : kept = [] := by
        rw [← List.length_eq_zero_iff, ← numbers.index, ← same]
        exact cleared.index
      rwa [none]
  · rename_i different
    rcases numbers.changes linked made with standing | cleared
    · exact absurd (standing.index.trans numbers.index.symm) different
    · exact cleared

theorem NumbersResults.handle (linked : session.Linked) (numbers : session.NumbersResults kept)
    {line : String}
    (spares : session.evaluateSparing resultNames line = session.evaluate line) :
    (session.handle style line).2.NumbersResults (session.keptAfter line kept) := by
  have standing := numbers.evaluate linked spares
  have stays := (linked.changes (linked.evaluate_changes line)).1
  have handling := session.handling style line
  unfold keptAfter
  generalize session.evaluate line = evaluated at standing stays handling ⊢
  generalize session.handle style line = handled at handling ⊢
  obtain ⟨outcome, after⟩ := evaluated
  cases handling with
  | problem => exact standing.of_same (fun _ _ => rfl) rfl
  | failed => exact standing
  | hidden unseen =>
      simp only [unseen]
      exact standing
  | shown seen | unprinted seen =>
      simp only [seen]
      exact standing.keepResult stays _

theorem Linked.define (linked : session.Linked) (name : String) (value : Value) :
    (session.define name value).Linked :=
  linked.same (Scopes.next_modify _ _) (funext fun scope => Scopes.module?_modify _ _ scope) rfl

theorem Linked.keepResult (linked : session.Linked) (value : Value) :
    (session.keepResult value).2.Linked :=
  (linked.define (resultName session.results) value).same rfl rfl rfl

theorem Linked.handle (linked : session.Linked) (line : String) :
    (session.handle style line).2.Linked := by
  have stays := (linked.changes (linked.evaluate_changes line)).1
  have handling := session.handling style line
  generalize session.evaluate line = evaluated at stays handling
  generalize session.handle style line = handled at handling ⊢
  obtain ⟨outcome, after⟩ := evaluated
  cases handling with
  | problem => exact stays.same rfl rfl rfl
  | failed | hidden => exact stays
  | shown | unprinted => exact stays.keepResult _

theorem start_numbersResults (files : FileTree) (directory home : Path) (shell : Shell) :
    (start files directory home shell).installCommands.NumbersResults [] := by
  refine .of_none (fun name result => ?_) (results_installCommands _)
  rw [lookup_installCommands (resultName_no_command result), moduleBindings_start]
  rfl

theorem Handled.invariant (handled : Handled style session kept) :
    session.Linked ∧ session.NumbersResults kept := by
  induction handled with
  | opened files directory home shell =>
      exact ⟨(start_linked files directory home shell).installCommands,
        start_numbersResults files directory home shell⟩
  | line _ text _ spares ih =>
      obtain ⟨linked, numbers⟩ := ih
      exact ⟨linked.handle text, numbers.handle linked spares⟩
  | between _ files directory events running ih =>
      obtain ⟨linked, numbers⟩ := ih
      exact ⟨linked.same rfl rfl rfl, numbers.of_same (fun _ _ => rfl) rfl⟩

def calledCommand? (session : Session) (line : String) : Option SessionCommand :=
  match Expr.read line with
  | .ok (some (.call _ [.command _ name])) =>
      match session.store.scopes.lookup? session.module name with
      | some (.library ref) =>
          match session.store.libraries[ref]? with
          | some ⟨.session command, _⟩ => some command
          | _ => none
      | _ => none
  | _ => none

theorem runOn_boundingDepth_congr {first second : Eval Value} {session : Session}
    (place : Option Location) (same : first.runOn session = second.runOn session) :
    (Eval.boundingDepth place first).runOn session =
      (Eval.boundingDepth place second).runOn session := by
  rw [Eval.boundingDepth, Eval.boundingDepth, Eval.runOn_tryCatch, Eval.runOn_tryCatch, same]

theorem evaluateSparing_command {reserved : Reserved} {session : Session} {line : String}
    {command : SessionCommand} (called : session.calledCommand? line = some command) :
    session.evaluateSparing reserved line = session.evaluate line := by
  unfold calledCommand? at called
  split at called <;> try cases called
  rename_i place p name parsed
  split at called <;> try cases called
  rename_i ref found
  split at called <;> try cases called
  rename_i shown there
  have applied (engine : Engine) :
      (Apply.apply engine (.library ref) [] place).runOn session =
        (Eval.recovering place (command.call place [])).runOn session :=
    Apply.runOn_library there engine [] place
  -- The call looks at no reserved name and no reserved entry, so no guard stops it.
  have spared (engine : Engine) :
      (Apply.sparing reserved engine (.library ref) [] place).runOn session =
        (Eval.recovering place (command.call place [])).runOn session := by
    have free : Apply.touchesEntry reserved (.library ref) [] session.store = false := by
      simp only [Apply.touchesEntry, there]
    show Eval.runOn session (if Apply.touchesEntry reserved (.library ref) [] session.store then _
      else Apply.apply engine (.library ref) [] place) = _
    rw [free]
    exact applied engine
  have called (engine : Engine) :
      (Interpret.interpret engine (.call place [.command p name]) session.module).runOn session =
        (engine.apply (.library ref) [] place).runOn session :=
    (Interpret.runOn_callNamed found engine place p []).trans (Eval.runOn_bind_ok rfl _)
  obtain ⟨depth, levels⟩ : ∃ depth, depthLimits.evaluation = depth + 2 := ⟨_, rfl⟩
  have same : ((Engine.sparingOfDepth reserved Engine.defaultPatience
        depthLimits.evaluation).interpret (.call place [.command p name]) session.module).runOn
          session =
      (Engine.default.interpret (.call place [.command p name]) session.module).runOn session := by
    rw [Engine.default, levels]
    refine Eq.trans ?_ ((called _).trans (applied _)).symm
    let engine := Engine.sparingOfDepth reserved Engine.defaultPatience (depth + 1)
    have free : Interpret.touchesName reserved engine session.module session
        (.call place [.command p name]) = false := by
      have head : (Interpret.callee engine session.module (.command p name)).runOn session =
          (.ok (.library ref), session) := Eval.runOn_bind_ok (Eval.runOn_lookup found) _
      simp only [Interpret.touchesName, head]
    show Eval.runOn session (if Interpret.touchesName reserved engine session.module session
      (.call place [.command p name]) then _
      else Interpret.interpret engine (.call place [.command p name]) session.module) = _
    rw [free]
    exact (called engine).trans (spared _)
  unfold evaluateSparing evaluate evaluateIn Engine.evaluateText
  rw [parsed]
  exact runOn_boundingDepth_congr (some place) same

theorem Handled.number (handled : Handled style session kept) {line : String}
    (followed : isFollowed (session.evaluate line).1 = true) (number : isNumber line = true) :
    Handled style (session.handle style line).2 (session.keptAfter line kept) :=
  handled.line line followed (evaluateSparing_number number session)

theorem Handled.command (handled : Handled style session kept) {line : String}
    (followed : isFollowed (session.evaluate line).1 = true)
    (called : (session.calledCommand? line).isSome = true) :
    Handled style (session.handle style line).2 (session.keptAfter line kept) :=
  have ⟨_, called⟩ := Option.isSome_iff_exists.mp called
  handled.line line followed (evaluateSparing_command called)

/-- In an interactive session whose lines are followed and spare the names of results, just the names
below the index are bound, to the values of the lines that were shown since the results were last
cleared; and what is printed for a value names the number that its line took. -/
theorem handled_numbers_results (handled : Handled style session kept) :
    session.NumbersResults kept ∧
      ∀ line value printed, (session.evaluate line).1 = .ok value →
        (session.handle style line).1 = .ok (some printed) →
          let after := (session.handle style line).2
          ∃ number shown, printed = "$" ++ resultName number ++ ": " ++ shown ∧
            after.store.display style value = .ok shown ∧ after.results = number + 1 ∧
            List.lookup (resultName number) after.moduleBindings = some value := by
  obtain ⟨linked, numbers⟩ := handled.invariant
  refine ⟨numbers, fun line value printed returned answered => ?_⟩
  have stays := (linked.changes (linked.evaluate_changes line)).1
  have handling := session.handling style line
  generalize session.evaluate line = evaluated at returned stays handling
  generalize session.handle style line = answer at answered handling ⊢
  obtain ⟨outcome, after⟩ := evaluated
  cases handling with
  | problem | failed => cases returned
  | hidden | unprinted => cases answered
  | @shown found text seen display =>
      cases returned
      cases answered
      refine ⟨after.results, text, rfl, display, rfl, ?_⟩
      rw [stays.moduleBindings_keepResult, Bindings.lookup_define_self]

/-- A number is kept under the first name, a call clears it, and the next number takes the same name
again. -/
theorem handled_numbers_results_cleared :
    let plain : Style := ⟨.other "", .other "", false, false⟩
    let opened := (start .empty [] [] (.recorded [] [])).installCommands
    let first := (opened.handle plain "5").2
    let cleared := (first.handle plain "(clearResults)").2
    let last := (cleared.handle plain "7").2
    let kept := opened.keptAfter "5" []
    let none := first.keptAfter "(clearResults)" kept
    Handled plain cleared none ∧ kept.length = 1 ∧ none = [] ∧ cleared.NumbersResults none ∧
      ∃ number shown value, "$result0: 7" = "$" ++ resultName number ++ ": " ++ shown ∧
        last.store.display plain value = .ok shown ∧ last.results = number + 1 ∧
        List.lookup (resultName number) last.moduleBindings = some value := by
  intro plain opened first cleared last kept none
  have handled : Handled plain cleared none :=
    ((Handled.opened .empty [] [] (.recorded [] [])).number (by decide +kernel)
      (show isNumber "5" = true by decide +kernel)).command (by decide +kernel) (by decide +kernel)
  have ⟨numbers, prints⟩ := handled_numbers_results handled
  have returned : (cleared.evaluate "7").1.toOption.isSome = true := by decide +kernel
  have printed : (cleared.handle plain "7").1 = .ok (some "$result0: 7") := by decide +kernel
  obtain ⟨value, returned⟩ : ∃ value, (cleared.evaluate "7").1 = .ok value := by
    cases outcome : (cleared.evaluate "7").1 with
    | ok value => exact ⟨value, rfl⟩
    | error failure =>
      rw [outcome] at returned
      cases returned
  obtain ⟨number, shown, rest⟩ := prints "7" value _ returned printed
  exact ⟨handled, by decide +kernel, List.length_eq_zero_iff.mp (by decide +kernel), numbers,
    number, shown, value, rest⟩

/-- The problem of a command whose name starts like a result is printed like a result, and no result is
bound. -/
theorem problem_printed_like_result :
    ¬∀ (style : Style) (session : Session) (kept : List Value), Handled style session kept →
      ∀ (line printed shown : String) (number : Nat),
        (session.handle style line).1 = .ok (some printed) →
        printed = "$" ++ resultName number ++ ": " ++ shown →
          let after := (session.handle style line).2
          after.results = number + 1 ∧
            (List.lookup (resultName number) after.moduleBindings).isSome = true := by
  intro named
  let plain : Style := ⟨.other "", .other "", false, false⟩
  have printed : ((start .empty [] []
      (.recorded [] [("$result7: hi", 1)])).installCommands.handle plain "(\"$result7: hi\")").1 =
        .ok (some "$result7: hi exited with status 1 at 1:1") := by decide +kernel
  obtain ⟨index, -⟩ := named plain _ [] (.opened .empty [] [] _) _ _
    "hi exited with status 1 at 1:1" 7 printed (by decide +kernel)
  revert index
  decide +kernel

end ShellLisp.Session
