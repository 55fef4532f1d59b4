import ShellLisp.Proofs.Reading.RoundTrip
import ShellLisp.Proofs.Splicing.Meaning

/-!
# Long chains

A chain of `;` is read as a sequence inside a sequence for each operator, and evaluating it goes a
level deeper for each. Behind the last pass it is one sequence. A chain that is long enough goes too
deep before the pass and not after it, which is what the pass is for.
-/

namespace ShellLisp

namespace Expr

variable {text : String} {count : Nat}

/-! ## Reading a chain -/

def chainItems (text : String) (count : Nat) : List Expr :=
  .ofText .nowhere text ::
    (List.replicate count [.value .nowhere (.word ";"), .ofText .nowhere text]).flatten

def nestedChain (text : String) : Nat → Expr
  | 0 => .ofText .nowhere text
  | count + 1 => .call .nowhere
      [.command .nowhere sequenceName, nestedChain text count, .ofText .nowhere text]

theorem chainItems_succ (text : String) (count : Nat) :
    chainItems text (count + 1) =
      chainItems text count ++ [.value .nowhere (.word ";"), .ofText .nowhere text] := by
  simp [chainItems, List.replicate_succ']

theorem mem_chainItems {e : Expr} (member : e ∈ chainItems text count) :
    e = .ofText .nowhere text ∨ e = .value .nowhere (.word ";") := by
  induction count with
  | zero => exact .inl (List.mem_singleton.mp member)
  | succ count ih =>
      rw [chainItems_succ] at member
      rcases List.mem_append.mp member with before | last
      · exact ih before
      · simp only [List.mem_cons, List.not_mem_nil, or_false] at last
        exact last.symm

theorem legible_chainItems : ∀ e ∈ chainItems text count, e.Everywhere Legible := by
  intro e member
  rcases mem_chainItems member with rfl | rfl
  · exact legible_ofText .nowhere text
  · obtain ⟨spelled, same⟩ := @readBack_operator ";" (by decide) .nowhere _ rfl
    exact everywhere_value.mpr ⟨trivial, spelled, same⟩

theorem regroup_chainItems (text : String) (count : Nat) :
    regroup (chainItems text (count + 1)) =
      .ok [.command .nowhere sequenceName, group (chainItems text count) .nowhere,
        .ofText .nowhere text] := by
  have filled : (chainItems text count).isEmpty = false := rfl
  rw [chainItems_succ, regroup, splitLast?_append rfl rfl]
  simp only [filled, Bool.false_eq_true, if_false, List.isEmpty_cons]
  rfl

theorem withPipes_group_chainItems (text : String) (count : Nat) :
    withPipes (group (chainItems text count) .nowhere) = .ok (nestedChain text count) := by
  have leaf : withPipes (.ofText .nowhere text) = .ok (.ofText .nowhere text) := by
    simp only [ofText, withPipes]
  induction count with
  | zero => exact leaf
  | succ count ih =>
      show withPipes (.call .nowhere (chainItems text (count + 1))) = _
      rw [withPipes_call, regroup_chainItems]
      simp only [bind, Except.bind, List.mapM_cons, List.mapM_nil, ih, leaf, withPipes]
      rfl

theorem withMembers_nestedChain (text : String) (count : Nat) :
    withMembers (nestedChain text count) = .ok (nestedChain text count) := by
  have head : withMembers (.command .nowhere sequenceName) =
      .ok (.command .nowhere sequenceName) :=
    withMembers_command_of_resolved ⟨by decide, by decide⟩
  have leaf : withMembers (.ofText .nowhere text) = .ok (.ofText .nowhere text) := rfl
  induction count with
  | zero => exact leaf
  | succ count ih =>
      rw [nestedChain, withMembers_call (by rintro _ _ ⟨⟩; decide)]
      simp only [bind, Except.bind, List.mapM_cons, List.mapM_nil, head, ih, leaf]
      rfl

theorem height_nestedChain (text : String) (count : Nat) :
    (nestedChain text count).height = count + 1 := by
  induction count with
  | zero => rfl
  | succ count ih =>
      simp only [nestedChain, height, heightAll, ih, ofText]
      omega

theorem spliced_nestedChain (text : String) (count : Nat) :
    let tree := (nestedChain text count).withSequences
    tree.sequence?.getD [tree] = List.replicate (count + 1) (.ofText .nowhere text) := by
  induction count with
  | zero => rfl
  | succ count ih =>
      rw [nestedChain, withSequences_sequence, List.map_cons, splice_cons, ih,
        List.replicate_succ' (n := count + 1)]
      rfl

theorem withSequences_nestedChain (text : String) (count : Nat) :
    (nestedChain text (count + 1)).withSequences =
      .call .nowhere (.command .nowhere sequenceName ::
        List.replicate (count + 2) (.ofText .nowhere text)) := by
  have arguments := spliced_nestedChain text (count + 1)
  rw [nestedChain, withSequences_sequence] at arguments ⊢
  rw [← arguments]
  rfl

theorem passes_chainItems (text : String) {count : Nat} (short : count + 2 ≤ depthLimits.trees) :
    (Expr.call .nowhere (chainItems text (count + 1))).passes =
      .ok ⟨.call .nowhere (chainItems text (count + 1)), nestedChain text (count + 1),
        nestedChain text (count + 1), (nestedChain text (count + 1)).withSequences⟩ := by
  have marked : (Expr.call .nowhere (chainItems text (count + 1))).withCommands =
      .call .nowhere (chainItems text (count + 1)) := by
    rw [withCommands, withCommandsAll_eq_map, map_eq_self]
    · rfl
    · intro e member
      rcases mem_chainItems member with rfl | rfl <;> rfl
  have piped : withPipes (.call .nowhere (chainItems text (count + 1))) =
      .ok (nestedChain text (count + 1)) := withPipes_group_chainItems text (count + 1)
  have fits : (nestedChain text (count + 1)).checkDepth depthLimits.trees =
      .ok (nestedChain text (count + 1)) := by
    rw [checkDepth, height_nestedChain, if_neg (by omega)]
  simp only [passes, withPipesWithin, withMembersWithin, marked, piped, fits,
    withMembers_nestedChain, bind, Except.bind, pure, Except.pure]

theorem eq_sequence_of_placeless {e : Expr} {arguments : List Expr}
    (same : e.placeless = .call .nowhere (.command .nowhere sequenceName :: arguments)) :
    ∃ place commandPlace items,
      e = .call place (.command commandPlace sequenceName :: items) ∧
        items.map placeless = arguments := by
  have found : e.sequence?.map (List.map placeless) = some arguments := by
    rw [← sequence?_placeless, same]
    simp [sequence?]
  obtain ⟨items, there, rfl⟩ := Option.map_eq_some_iff.mp found
  obtain ⟨place, commandPlace, rfl⟩ := eq_call_of_sequence? there
  exact ⟨place, commandPlace, items, rfl, rfl⟩

theorem eq_ofText_of_placeless {e : Expr} (same : e.placeless = .ofText .nowhere text) :
    ∃ place, e = .ofText place text := by
  cases e <;> cases same
  exact ⟨_, rfl⟩

theorem ofSource_chain (text : String) (count : Nat) :
    ∃ parsed, ofSource (Expr.call .nowhere (chainItems text count)).text = .ok (some parsed) ∧
      parsed.placeless = .call .nowhere (chainItems text count) := by
  have flat : nestingAll (chainItems text count) = 0 := nestingAll_of_flat fun e member => by
    rcases mem_chainItems member with rfl | rfl <;> rfl
  have shown : (chainItems text count).map shown = chainItems text count := by
    refine map_eq_self fun e member => ?_
    rcases mem_chainItems member with rfl | rfl <;> rfl
  have shallow : (Expr.call .nowhere (chainItems text count)).nesting ≤ depthLimits.brackets := by
    rw [nesting, flat]
    decide
  have legible : (Expr.call .nowhere (chainItems text count)).Everywhere Legible :=
    legible_call (List.cons_ne_nil _ _) legible_chainItems
  obtain ⟨parsed, done, same⟩ := ofSource_text legible rfl shallow
  refine ⟨parsed, done, ?_⟩
  rw [same, Expr.shown, shownAll_eq_map, shown]

end Expr

open ShellLisp.Expr (chainItems nestedChain sequenceName)

/-! ## Evaluating a chain -/

variable {text : String} {scope : Nat} {session : Session}

theorem Interpret.runOn_values_cons_failed {engine : Engine} {e : Expr} {arguments : List Expr}
    {failure : Failure} {after : Session}
    (first : (engine.interpret e scope).runOn session = (.error failure, after)) :
    (Interpret.values engine scope (e :: arguments)).runOn session = (.error failure, after) := by
  unfold Interpret.values
  rw [List.mapM_cons, Eval.runOn_bind, first]

theorem run_nestedChain {engine : Nat → Engine} {ref : Nat}
    (bottom : ∀ e, ((engine 0).interpret e scope).runOn session = (.error .tooDeep, session))
    (sequence : ∀ depth place commandPlace arguments,
      ((engine (depth + 1)).interpret
        (.call place (.command commandPlace sequenceName :: arguments)) scope).runOn session =
        (do
          let found ← Interpret.values (engine depth) scope arguments
          (engine depth).apply (.library ref) found place).runOn session)
    {e : Expr} {depth count : Nat} (same : e.placeless = nestedChain text count)
    (deep : depth ≤ count) :
    ((engine depth).interpret e scope).runOn session = (.error .tooDeep, session) := by
  induction depth generalizing e count with
  | zero => exact bottom e
  | succ depth ih =>
      obtain ⟨fewer, rfl⟩ := Nat.exists_eq_succ_of_ne_zero (show count ≠ 0 by omega)
      obtain ⟨place, commandPlace, items, rfl, items_same⟩ := Expr.eq_sequence_of_placeless same
      obtain ⟨inner, rest, rfl, first, -⟩ := List.map_eq_cons_iff.mp items_same
      have failed := ih first (by omega)
      rw [sequence, Eval.runOn_bind, Interpret.runOn_values_cons_failed failed]

theorem runOn_values_texts {patience depth count : Nat} {items : List Expr}
    (same : items.map Expr.placeless = List.replicate count (.ofText .nowhere text)) :
    (Interpret.values (Engine.ofDepth patience (depth + 1)) scope items).runOn session =
      (.ok (List.replicate count (.string text)), session) := by
  induction count generalizing items with
  | zero =>
      obtain rfl := List.map_eq_nil_iff.mp same
      rfl
  | succ count ih =>
      obtain ⟨first, rest, rfl, leaf, others⟩ := List.map_eq_cons_iff.mp same
      obtain ⟨place, rfl⟩ := Expr.eq_ofText_of_placeless leaf
      exact Interpret.runOn_values_cons rfl (ih others)

/-- A chain with more operators than evaluation may go deep goes too deep before the last pass, and
has its value after it. -/
theorem longChain_spliced (text : String) {count : Nat}
    (long : depthLimits.evaluation ≤ count + 1) (short : count + 2 ≤ depthLimits.trees) :
    ∃ parsed stages,
      Expr.ofSource (Expr.call .nowhere (chainItems text (count + 1))).text = .ok (some parsed) ∧
      parsed.passes = .ok stages ∧
      KeepsSequences Engine.defaultPatience depthLimits.evaluation freshSession stages.members 1 ∧
      (Engine.default.interpret stages.members 1).runOn freshSession =
        (.error .tooDeep, freshSession) ∧
      (Engine.default.interpret stages.sequences 1).runOn freshSession =
        (.ok (.string text), freshSession) := by
  obtain ⟨parsed, parsing, same⟩ := Expr.ofSource_chain text (count + 1)
  have done := Expr.passes_chainItems text short
  rw [← same] at done
  obtain ⟨stages, staged, equal⟩ := Expr.exists_of_follows (Expr.follows_passes parsed) done
  have nested : stages.members.placeless = nestedChain text (count + 1) :=
    congrArg Expr.Passes.members equal
  have flat := (congrArg Expr.Passes.sequences equal).trans
    (Expr.withSequences_nestedChain text count)
  obtain ⟨place, commandPlace, items, flattened, texts⟩ := Expr.eq_sequence_of_placeless flat
  have function : freshSession.store.functionAt? 19 = some (.core .sequence) := rfl
  have knows : freshSession.store.knowsSequences 1 = true := by
    simp [Store.knowsSequences, lookup?_freshSession, function]
  have before : (Engine.default.interpret stages.members 1).runOn freshSession =
      (.error .tooDeep, freshSession) :=
    run_nestedChain (fun _ => rfl)
      (fun _ _ _ _ => Interpret.runOn_callNamed lookup?_freshSession _ _ _ _) nested long
  have steady : ((Engine.steady Engine.defaultPatience depthLimits.evaluation).interpret
      stages.members 1).runOn freshSession = (.error .tooDeep, freshSession) :=
    run_nestedChain (fun _ => rfl)
      (fun _ _ _ _ => (Engine.runOn_steady _ _ _ knows).trans
        (Interpret.runOn_callNamed lookup?_freshSession _ _ _ _)) nested long
  refine ⟨parsed, stages, parsing, staged, steady.trans before.symm, before, ?_⟩
  rw [flattened]
  refine (runOn_ofDepth_sequence lookup?_freshSession function (runOn_values_texts texts)).trans ?_
  simp [List.getLastD_eq_getLast?, List.getLast?_replicate]

/-- A chain of five hundred and eleven texts. -/
theorem longChain_differs :
    ∃ parsed stages,
      Expr.ofSource (Expr.call .nowhere (chainItems "a" 510)).text = .ok (some parsed) ∧
      parsed.passes = .ok stages ∧
      KeepsSequences Engine.defaultPatience depthLimits.evaluation freshSession stages.members 1 ∧
      (Engine.default.interpret stages.members 1).runOn freshSession =
        (.error .tooDeep, freshSession) ∧
      (Engine.default.interpret stages.sequences 1).runOn freshSession =
        (.ok (.string "a"), freshSession) :=
  longChain_spliced "a" (by decide) (by decide)

end ShellLisp
