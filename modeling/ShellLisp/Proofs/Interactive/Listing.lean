import ShellLisp.Proofs.Interactive.Results

/-!
# Listed definitions

The names of the module scope come and go in four ways: programs bind and remove them, results are
kept, and results or everything is cleared. Whatever is done, no name is there twice, names stay in the
order in which they came, and what an interactive session lists are the names that were bound by
`def`, `defn` or the host, as long as its lines are followed. It tells them from its own by how they
are spelled, and leaves out every name that starts like that of a result.
-/

namespace ShellLisp.Session

/-! ## Names that come and go -/

def isListed (name : String) : Bool :=
  !resultPrefix.toList.isPrefixOf name.toList && (List.lookup name sessionCommands).isNone

/-- What one step does to the names of a scope, of which some may be bound. -/
inductive NameStep (free : String → Prop) (names : List String) : List String → Prop
  | bind {name : String} (isFree : free name) :
      NameStep free names (if name ∈ names then names else names ++ [name])
  | remove (keeps : String → Bool) : NameStep free names (names.filter keeps)
  | clear : NameStep free names []

def NameSteps (free : String → Prop) : List String → List String → Prop :=
  Relation.ReflTransGen (NameStep free)

/-- Names that were there before come first and in their order, without some that are gone; those
behind them are of some kind. -/
def Continues (kind : String → Prop) (before after : List String) : Prop :=
  ∃ kept added, after = kept ++ added ∧ kept.Sublist before ∧ ∀ name ∈ added, kind name

theorem Continues.of_sublist {kind : String → Prop} {before after : List String}
    (sublist : after.Sublist before) : Continues kind before after :=
  ⟨after, [], (List.append_nil after).symm, sublist, nofun⟩

theorem Continues.refl (kind : String → Prop) (names : List String) : Continues kind names names :=
  .of_sublist (.refl names)

theorem Continues.trans {kind : String → Prop} {before between after : List String}
    (first : Continues kind before between) (second : Continues kind between after) :
    Continues kind before after := by
  obtain ⟨kept, added, rfl, older, newer⟩ := first
  obtain ⟨left, last, rfl, still, newest⟩ := second
  obtain ⟨keptLeft, addedLeft, rfl, inKept, inAdded⟩ := List.sublist_append_iff.mp still
  refine ⟨keptLeft, addedLeft ++ last, List.append_assoc .., inKept.trans older, fun name member => ?_⟩
  rcases List.mem_append.mp member with among | among
  · exact newer name (inAdded.subset among)
  · exact newest name among

namespace NameSteps
variable {free : String → Prop} {before after : List String}

theorem nodup (steps : NameSteps free before after) (nodup : before.Nodup) : after.Nodup := by
  induction steps with
  | refl => exact nodup
  | tail _ step ih =>
      cases step with
      | bind =>
          split
          · exact ih
          · rename_i absent
            exact List.nodup_append_comm.mp (List.nodup_cons.mpr ⟨absent, ih⟩)
      | remove keeps => exact ih.filter keeps
      | clear => exact List.nodup_nil

theorem continues (steps : NameSteps free before after) :
    Continues (fun name => free name ∧ isListed name = true) (before.filter isListed)
      (after.filter isListed) := by
  induction steps with
  | refl => exact .refl _ _
  | @tail between after _ step ih =>
      refine ih.trans ?_
      cases step with
      | @bind name isFree =>
          split
          · exact .refl _ _
          · refine ⟨_, _, List.filter_append .., .refl _, fun other member => ?_⟩
            obtain ⟨same, listed⟩ := List.mem_filter.mp member
            obtain rfl := List.mem_singleton.mp same
            exact ⟨isFree, listed⟩
      | remove keeps => exact .of_sublist (List.filter_sublist.filter isListed)
      | clear => exact .of_sublist (List.nil_sublist _)

end NameSteps

/-! ## Steps of a session -/

/-- The names of the module scope, in the order in which they were first bound. -/
def boundNames (session : Session) : List String := session.moduleBindings.map (·.1)

theorem names_define (name : String) (value : Value) (bindings : Bindings Value) :
    (Bindings.define name value bindings).map (·.1) =
      if name ∈ bindings.map (·.1) then bindings.map (·.1) else bindings.map (·.1) ++ [name] := by
  induction bindings with
  | nil => rfl
  | cons entry rest ih =>
      obtain ⟨n, v⟩ := entry
      by_cases same : n = name
      · simp [Bindings.define, same]
      · rw [Bindings.define, if_neg same, List.map_cons, ih, List.map_cons]
        split <;> simp_all [Ne.symm same]

theorem names_erase (name : String) (bindings : Bindings Value) :
    (Bindings.erase name bindings).map (·.1) = (bindings.map (·.1)).filter (· ≠ name) := by
  rw [Bindings.erase, List.filter_map]
  rfl

/-- Whether a name may be bound when some are left alone. One that is not listed may always be: the
session itself binds its commands and results. -/
def MayCome (names : String → Bool) (name : String) : Prop :=
  names name = false ∨ isListed name = false

def Renames (names : String → Bool) (before after : Session) : Prop :=
  NameSteps (MayCome names) before.boundNames after.boundNames

namespace Renames
variable {names : String → Bool} {before between after : Session}

theorem trans (first : Renames names before between) (second : Renames names between after) :
    Renames names before after := Relation.ReflTransGen.trans first second

theorem of_same (same : after.moduleBindings = before.moduleBindings) :
    Renames names before after := by
  rw [Renames, boundNames, boundNames, same]
  exact .refl

theorem of_modify (session : Session) (scope : Nat) {change : Bindings Value → Bindings Value}
    (steps : scope = session.module → ∀ bindings : Bindings Value,
      NameSteps (MayCome names) (bindings.map (·.1)) ((change bindings).map (·.1))) :
    Renames names session { session with
      store := { session.store with scopes := session.store.scopes.modify scope change } } := by
  rcases Scopes.bindings_modify session.store.scopes scope change session.module with
    same | ⟨here, changed⟩
  · exact .of_same same
  · have bound : boundNames { session with
        store := { session.store with scopes := session.store.scopes.modify scope change } } =
          (change session.moduleBindings).map (·.1) := congrArg (List.map Prod.fst) changed
    rw [Renames, bound]
    exact steps here.symm _

theorem define_names {name : String} (free : MayCome names name) (value : Value)
    (bindings : Bindings Value) :
    NameSteps (MayCome names) (bindings.map (·.1))
      ((Bindings.define name value bindings).map (·.1)) := by
  rw [names_define]
  exact .single (.bind free)

theorem erase_names {free : String → Prop} (name : String) (bindings : Bindings Value) :
    NameSteps free (bindings.map (·.1)) ((Bindings.erase name bindings).map (·.1)) := by
  rw [names_erase]
  exact .single (.remove _)

theorem eraseAll_names {free : String → Prop} (gone : List String) (bindings : Bindings Value) :
    NameSteps free (bindings.map (·.1))
      ((gone.foldl (fun found name => Bindings.erase name found) bindings).map (·.1)) := by
  induction gone generalizing bindings with
  | nil => exact .refl
  | cons name rest ih => exact .trans (erase_names name bindings) (ih (Bindings.erase name bindings))

theorem define (session : Session) {name : String} (free : MayCome names name) (value : Value) :
    Renames names session (session.define name value) :=
  of_modify session session.module fun _ bindings => define_names free value bindings

theorem installCommands (session : Session) : Renames names session session.installCommands := by
  have hidden : ∀ entry ∈ sessionCommands, isListed entry.1 = false := by decide
  unfold Session.installCommands
  generalize sessionCommands = commands at hidden
  induction commands generalizing session with
  | nil => exact .of_same rfl
  | cons entry rest ih =>
      obtain ⟨first, others⟩ := List.forall_mem_cons.mp hidden
      refine trans ?_ (ih (session.defineLibrary entry.1 (.session entry.2)) others)
      exact define { session with store := (session.store.newLibrary _).2 } (.inr first) _

theorem clearDefinitions (session : Session) :
    Renames names session session.clearDefinitions := by
  refine trans ?_ (installCommands { session.clear with results := 0 })
  have empty : boundNames { session.clear with results := 0 } = [] :=
    congrArg (List.map Prod.fst) (moduleBindings_clear session)
  rw [Renames, empty]
  exact .single .clear

end Renames

theorem Change.renames {reserved : Guarded} {before after : Session} (linked : before.Linked)
    (changed : before.Change reserved after) : Renames reserved.name before after := by
  cases changed with
  | outside => exact .of_same rfl
  | store changed =>
      refine .of_same ?_
      unfold moduleBindings
      rw [changed.scopes]
  | newScope parent =>
      refine .of_same ?_
      show (before.store.scopes.push (some parent) none).bindings _ = _
      rw [Scopes.bindings_push]
      rfl
  | bindLocal apart name value =>
      refine .of_modify before _ fun here => ?_
      subst here
      exact absurd linked.own apart
  | define _ free value =>
      exact .of_modify before _ fun _ bindings => Renames.define_names (.inl free) value bindings
  | @delete name _ scope =>
      rcases Scopes.delete_eq before.store.scopes scope name with same | ⟨holder, -, same⟩
      · rw [same]
        exact .of_same rfl
      · rw [same]
        exact .of_modify before _ fun _ bindings => Renames.erase_names name bindings
  | clearResults =>
      exact Renames.of_modify before before.module fun _ bindings =>
        Renames.eraseAll_names _ bindings
  | clearDefinitions => exact .clearDefinitions before

theorem Changes.renames {reserved : Guarded} {before after : Session} (linked : before.Linked)
    (made : Changes reserved before after) : Renames reserved.name before after := by
  induction made with
  | refl => exact .of_same rfl
  | tail before changed ih => exact ih.trans (changed.renames (linked.changes before).1)

/-! ## Turns of an interactive session -/

/-- What an interactive session is given: a line to handle, or a value that the host binds. -/
inductive Turn
  | line (text : String)
  | define (name : String) (value : Value)

def turned (style : Style) (session : Session) : Turn → Session
  | .line text => (session.handle style text).2
  | .define name value => session.define name value

def afterTurns (style : Style) (session : Session) (turns : List Turn) : Session :=
  turns.foldl (turned style) session

/-- Whether a turn leaves names alone: none of them comes to be bound by the host or by `def` or
`defn`, or to be removed by `delete`. -/
def Turn.Spares (names : String → Bool) (session : Session) : Turn → Prop
  | .line text => session.evaluateSparing ⟨names, fun _ _ => false⟩ text = session.evaluate text
  | .define name _ => names name = false

def Turn.isFollowed (session : Session) : Turn → Bool
  | .line text => ShellLisp.isFollowed (session.evaluate text).1
  | .define _ _ => true

def AllFollowed (style : Style) : Session → List Turn → Prop
  | _, [] => True
  | session, turn :: rest =>
      turn.isFollowed session = true ∧ AllFollowed style (session.turned style turn) rest

def AllSpare (style : Style) (names : String → Bool) : Session → List Turn → Prop
  | _, [] => True
  | session, turn :: rest =>
      turn.Spares names session ∧ AllSpare style names (session.turned style turn) rest

/-- Whether the last turn in which a name came to be bound, which was not bound before, did not leave
it alone. As no removal binds it, `def`, `defn` or the host did; and after every turn since then it is
bound. -/
def WasDefined (style : Style) (first : Session) (turns : List Turn) (name : String) : Prop :=
  ∃ earlier turn later, turns = earlier ++ turn :: later ∧
    ¬turn.Spares (· == name) (first.afterTurns style earlier) ∧
    name ∉ (first.afterTurns style earlier).boundNames ∧
    ∀ further, further <+: later →
      name ∈ (first.afterTurns style (earlier ++ turn :: further)).boundNames

variable {style : Style} {names : String → Bool} {session : Session}

theorem isListed_resultName (number : Nat) : isListed (resultName number) = false := by
  have spelled : resultPrefix.toList.isPrefixOf (resultName number).toList = true := by
    rw [toList_resultName, List.isPrefixOf_iff_prefix]
    exact List.prefix_append _ _
  rw [isListed, spelled]
  rfl

theorem Renames.keepResult (session : Session) (value : Value) :
    Renames names session (session.keepResult value).2 :=
  (Renames.define session (.inr (isListed_resultName session.results)) value).trans (.of_same rfl)

theorem Renames.handle (linked : session.Linked) {line : String}
    (spares : Turn.Spares names session (.line line)) :
    Renames names session (session.handle style line).2 := by
  have made := linked.evaluateSparing_changes ⟨names, fun _ _ => false⟩ line
  change session.evaluateSparing _ line = _ at spares
  rw [spares] at made
  have evaluated : Renames names session (session.evaluate line).2 := made.renames linked
  have handling := session.handling style line
  generalize session.evaluate line = found at evaluated handling
  generalize session.handle style line = handled at handling ⊢
  obtain ⟨outcome, after⟩ := found
  cases handling with
  | problem => exact evaluated.trans (.of_same rfl)
  | failed | hidden => exact evaluated
  | shown | unprinted => exact evaluated.trans (.keepResult _ _)

theorem Linked.turned (linked : session.Linked) (turn : Turn) : (session.turned style turn).Linked := by
  cases turn with
  | line text => exact linked.handle text
  | define name value => exact linked.define name value

theorem Linked.afterTurns (linked : session.Linked) (turns : List Turn) :
    (session.afterTurns style turns).Linked := by
  induction turns generalizing session with
  | nil => exact linked
  | cons turn rest ih => exact ih (linked.turned turn)

theorem Renames.turned (linked : session.Linked) {turn : Turn}
    (spares : turn.Spares names session) : Renames names session (session.turned style turn) := by
  cases turn with
  | line text => exact .handle linked spares
  | define name value => exact .define session (.inl spares) value

theorem Renames.afterTurns (linked : session.Linked) {turns : List Turn}
    (spare : AllSpare style names session turns) :
    Renames names session (session.afterTurns style turns) := by
  induction turns generalizing session with
  | nil => exact .of_same rfl
  | cons turn rest ih =>
      obtain ⟨first, others⟩ := spare
      exact (Renames.turned linked first).trans (ih (linked.turned turn) others)

theorem Renames.listed {before after : Session} (renames : Renames names before after) :
    Continues (fun name => names name = false) before.definitions after.definitions := by
  obtain ⟨kept, added, same, older, newer⟩ := renames.continues
  refine ⟨kept, added, same, older, fun name member => ?_⟩
  obtain ⟨free, listed⟩ := newer name member
  refine free.resolve_right ?_
  simp [listed]

/-! ## Where listed names come from -/

theorem allSpare_nothing (session : Session) (turns : List Turn) :
    AllSpare style (fun _ => false) session turns := by
  induction turns generalizing session with
  | nil => trivial
  | cons turn rest ih =>
      refine ⟨?_, ih _⟩
      cases turn with
      | line text => exact evaluateSparing_nothing session text
      | define => rfl

theorem afterTurns_append (session : Session) (first second : List Turn) :
    session.afterTurns style (first ++ second) =
      (session.afterTurns style first).afterTurns style second := List.foldl_append

theorem mem_definitions {session : Session} {name : String} :
    name ∈ session.definitions ↔ name ∈ session.boundNames ∧ isListed name = true :=
  List.mem_filter

theorem lookup_command_iff {name : String} :
    List.lookup name sessionCommands = none ↔ name ∉ sessionCommands.map (·.1) := by
  rw [List.lookup_eq_none_iff]
  refine ⟨fun apart named => ?_, fun absent entry member => bne_iff_ne.mpr ?_⟩
  · obtain ⟨entry, member, rfl⟩ := List.mem_map.mp named
    exact bne_iff_ne.mp (apart entry member) rfl
  · rintro rfl
    exact absent (List.mem_map_of_mem member)

theorem isListed_iff {name : String} : isListed name = true ↔
    name ∉ sessionCommands.map (·.1) ∧ ¬resultPrefix.toList <+: name.toList := by
  rw [isListed, Bool.and_eq_true, Option.isNone_iff_eq_none, lookup_command_iff, Bool.not_eq_true',
    ← Bool.not_eq_true, List.isPrefixOf_iff_prefix, and_comm]

theorem exists_binding (first : Session) {turns : List Turn} {name : String}
    (unbound : name ∉ first.boundNames) (bound : name ∈ (first.afterTurns style turns).boundNames) :
    ∃ earlier turn later, turns = earlier ++ turn :: later ∧
      name ∉ (first.afterTurns style earlier).boundNames ∧
      ∀ further, further <+: later →
        name ∈ (first.afterTurns style (earlier ++ turn :: further)).boundNames := by
  induction turns using List.reverseRecOn with
  | nil => exact absurd bound unbound
  | append_singleton turns last ih =>
      by_cases before : name ∈ (first.afterTurns style turns).boundNames
      · obtain ⟨earlier, turn, later, rfl, missing, stays⟩ := ih before
        refine ⟨earlier, turn, later ++ [last], by simp, missing, fun further isPrefix => ?_⟩
        rcases List.prefix_concat_iff.mp isPrefix with rfl | isPrefix
        · simpa using bound
        · exact stays further isPrefix
      · refine ⟨turns, last, [], rfl, before, fun further isPrefix => ?_⟩
        rw [List.prefix_nil.mp isPrefix]
        exact bound

theorem WasDefined.of_listed {first : Session} (linked : first.Linked) {turns : List Turn}
    {name : String} (unbound : name ∉ first.boundNames)
    (listed : name ∈ (first.afterTurns style turns).definitions) :
    WasDefined style first turns name := by
  obtain ⟨bound, isListed⟩ := mem_definitions.mp listed
  obtain ⟨earlier, turn, later, same, missing, stays⟩ := exists_binding first unbound bound
  refine ⟨earlier, turn, later, same, fun spares => ?_, missing, stays⟩
  -- Were it left alone, the turn could not have added it to what is listed.
  have alone : Renames (· == name) _ ((first.afterTurns style earlier).turned style turn) :=
    .turned (linked.afterTurns earlier) spares
  obtain ⟨kept, added, after, older, newer⟩ := alone.listed
  have there := stays [] List.nil_prefix
  rw [afterTurns_append] at there
  have member : name ∈ kept ++ added := after ▸ mem_definitions.mpr ⟨there, isListed⟩
  rcases List.mem_append.mp member with among | among
  · exact missing (mem_definitions.mp (older.subset among)).1
  · have apart : (name == name) = false := newer name among
    simp at apart

/-! ## New sessions -/

variable {files : FileTree} {directory home : Path} {shell : Shell}

theorem opened_unbound {name : String} (listed : isListed name = true) :
    name ∉ (start files directory home shell).installCommands.boundNames := by
  have unbound : List.lookup name (start files directory home shell).installCommands.moduleBindings =
      none := by
    rw [lookup_installCommands (lookup_command_iff.mpr (isListed_iff.mp listed).1),
      moduleBindings_start]
    rfl
  intro bound
  obtain ⟨entry, member, rfl⟩ := List.mem_map.mp bound
  exact bne_iff_ne.mp (List.lookup_eq_none_iff.mp unbound entry member) rfl

theorem opened_linked :
    (start files directory home shell).installCommands.Linked :=
  (start_linked files directory home shell).installCommands

theorem boundNames_nodup (turns : List Turn) :
    ((start files directory home shell).installCommands.afterTurns style turns).boundNames.Nodup := by
  have empty : (start files directory home shell).boundNames = [] :=
    congrArg (List.map Prod.fst) (moduleBindings_start files directory home shell)
  have steps : Renames (fun _ => false) (start files directory home shell)
      ((start files directory home shell).installCommands.afterTurns style turns) :=
    (Renames.installCommands _).trans (.afterTurns opened_linked (allSpare_nothing _ turns))
  refine NameSteps.nodup steps ?_
  rw [empty]
  exact List.nodup_nil

theorem prefix_of_isResultName {name : String} (result : isResultName name = true) :
    resultPrefix.toList <+: name.toList := by
  unfold isResultName at result
  split at result
  · rename_i digits behind
    obtain ⟨spelled, same, equal⟩ := List.dropPrefix?_eq_some_iff.mp behind
    rw [same, ← eq_of_beq equal]
    exact List.prefix_append _ _
  · cases result

theorem runOn_replies (names : List String) (session : Session) :
    (forIn names PUnit.unit fun name _ => do
      Eval.emit (.reply name)
      pure (ForInStep.yield PUnit.unit) : Eval PUnit).runOn session =
      (.ok PUnit.unit,
        { session with events := session.events ++ (names.map Event.reply).toArray }) := by
  induction names generalizing session with
  | nil =>
      rw [List.map_nil, Array.append_empty]
      rfl
  | cons name rest ih =>
      rw [List.forIn_cons, bind_assoc]
      have written : (Eval.emit (.reply name)).runOn session =
          (.ok PUnit.unit, session.record (.reply name)) := rfl
      refine (Eval.runOn_bind_ok written _).trans ?_
      refine (ih (session.record (.reply name))).trans ?_
      simp [Session.record]

theorem runOn_listDefinitions (place : Location) (session : Session) :
    (SessionCommand.listDefinitions.call place []).runOn session =
      (.ok .null, { session with
        events := session.events ++ (session.definitions.map Event.reply).toArray }) :=
  Eval.runOn_bind_ok (runOn_replies session.definitions session) _

/-- In an interactive session that is given lines to handle, which are followed, and values to bind, the
listed names are in the order of the names that are bound, each once. They are those that came to be bound by `def`,
`defn` or the host, but for the commands of the session and for every name that starts like that of a
result. So they are all the names that are neither commands nor results as long as no other name starts
like a result. Turns that leave names alone list none of these newly, and what they list newly comes
behind what stays. -/
theorem definitions_listed (style : Style) (files : FileTree) (directory home : Path) (shell : Shell)
    (turns : List Turn)
    (_ : AllFollowed style (start files directory home shell).installCommands turns) :
    let opened := (start files directory home shell).installCommands
    let session := opened.afterTurns style turns
    session.definitions.Nodup ∧
    session.definitions.Sublist session.boundNames ∧
    (∀ name, name ∈ session.definitions ↔
      name ∈ session.boundNames ∧ WasDefined style opened turns name ∧
        name ∉ sessionCommands.map (·.1) ∧ ¬resultPrefix.toList <+: name.toList) ∧
    ((∀ name ∈ session.boundNames, resultPrefix.toList <+: name.toList → isResultName name = true) →
      session.definitions = session.boundNames.filter fun name =>
        name ∉ sessionCommands.map (·.1) ∧ isResultName name = false) ∧
    (∀ earlier later names, turns = earlier ++ later →
      AllSpare style names (opened.afterTurns style earlier) later →
        Continues (fun name => names name = false) (opened.afterTurns style earlier).definitions
          session.definitions) ∧
    ∀ place, (SessionCommand.listDefinitions.call place []).runOn session =
      (.ok .null, { session with
        events := session.events ++ (session.definitions.map Event.reply).toArray }) := by
  intro opened session
  refine ⟨(boundNames_nodup turns).filter _, List.filter_sublist, fun name => ⟨fun listed => ?_, ?_⟩,
    fun spelled => List.filter_congr fun name bound => ?_, ?_,
    fun place => runOn_listDefinitions place session⟩
  · obtain ⟨bound, isListed⟩ := mem_definitions.mp listed
    exact ⟨bound, .of_listed opened_linked (opened_unbound isListed) listed, isListed_iff.mp isListed⟩
  · rintro ⟨bound, -, other⟩
    exact mem_definitions.mpr ⟨bound, isListed_iff.mpr other⟩
  · refine Bool.eq_iff_iff.mpr (isListed_iff.trans ?_)
    rw [decide_eq_true_iff, ← Bool.not_eq_true]
    exact and_congr_right fun _ => not_congr ⟨spelled name bound, prefix_of_isResultName⟩
  · rintro earlier later names rfl spare
    -- Each turn renames at most what it names, and so do all turns that come after the earlier
    -- ones.
    have renames : Renames names (opened.afterTurns style earlier) session := by
      show Renames names _ (opened.afterTurns style (earlier ++ later))
      rw [afterTurns_append]
      exact .afterTurns (opened_linked.afterTurns earlier) spare
    exact renames.listed

/-- A name bound in a line and one bound by the host are listed, and a third that the host binds after
a result was kept comes behind them. -/
theorem definitions_listed_mixed :
    let plain : Style := ⟨.other "", .other "", false, false⟩
    let opened := (start .empty [] [] (.recorded [] [])).installCommands
    let earlier : List Turn := [.line "(def $x 1)", .define "y" .null]
    let later : List Turn := [.line "7", .define "z" .null]
    let before := opened.afterTurns plain earlier
    let session := opened.afterTurns plain (earlier ++ later)
    session.boundNames =
      ["exit", "clearResults", "clearDefs", "listDefs", "x", "y", "result0", "z"] ∧
    (∀ name ∈ session.boundNames, resultPrefix.toList <+: name.toList → isResultName name = true) ∧
    session.definitions = (session.boundNames.filter fun name =>
      name ∉ sessionCommands.map (·.1) ∧ isResultName name = false) ∧
    AllFollowed plain opened (earlier ++ later) ∧
    AllSpare plain (· != "z") before later ∧
    Continues (fun name => (name != "z") = false) before.definitions session.definitions ∧
    WasDefined plain opened (earlier ++ later) "x" := by
  intro plain opened earlier later before session
  have names : session.boundNames =
      ["exit", "clearResults", "clearDefs", "listDefs", "x", "y", "result0", "z"] := by
    decide +kernel
  have spelled : ∀ name ∈ session.boundNames,
      resultPrefix.toList <+: name.toList → isResultName name = true := by
    rw [names]
    decide +kernel
  have spare : AllSpare plain (· != "z") before later :=
    ⟨evaluateSparing_number (show isNumber "7" = true by decide +kernel) before, rfl, trivial⟩
  have listed : "x" ∈ session.definitions := by decide +kernel
  have followed : AllFollowed plain opened (earlier ++ later) :=
    ⟨by decide +kernel, rfl, by decide +kernel, rfl, trivial⟩
  obtain ⟨-, -, exact, all, behind, -⟩ :=
    definitions_listed plain .empty [] [] (.recorded [] []) (earlier ++ later) followed
  exact ⟨names, spelled, all spelled, followed, spare, behind earlier later _ rfl spare,
    ((exact "x").mp listed).2.1⟩

/-- A name that starts like that of a result is not listed, though a line defines it and no result can
ever have it. -/
theorem definitions_unlisted :
    let plain : Style := ⟨.other "", .other "", false, false⟩
    let opened := (start .empty [] [] (.recorded [] [])).installCommands
    let session := opened.afterTurns plain [.line "(def $results 1)"]
    "results" ∉ opened.boundNames ∧ "results" ∈ session.boundNames ∧
      "results" ∉ sessionCommands.map (·.1) ∧ isResultName "results" = false ∧
      session.definitions = [] := by
  decide +kernel

end ShellLisp.Session
