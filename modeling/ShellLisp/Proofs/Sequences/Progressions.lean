import Mathlib.Algebra.Order.Field.Rat
import Mathlib.Data.Rat.Floor
import ShellLisp.Proofs.Sequences.SinglePass

/-!
# How far a range of integers goes

The numbers of a range lie as far apart as its step says, and those that come before its end are given
out: as many as the way to the end takes steps, a last short one counted. Asked again, a range that has
an end gives nothing any more, while one without an end goes on for ever.
-/

namespace ShellLisp

/-! ## Counting the steps -/

/-- Whether a number comes before another one on the way that a step goes. -/
def ComesBefore (step n stop : Int) : Prop := 0 < step ∧ n < stop ∨ step < 0 ∧ stop < n

/-- How many steps it takes to come from a number to another or past it. -/
def stepsBetween (start stop step : Int) : Nat := ⌈((stop - start : Int) : ℚ) / step⌉.toNat

variable {step : Int}

theorem comesBefore_iff (nonzero : step ≠ 0) (start stop : Int) (k : Nat) :
    ComesBefore step (start + k * step) stop ↔ k < stepsBetween start stop step := by
  have counted : k < stepsBetween start stop step ↔ (k : ℚ) < ((stop - start : Int) : ℚ) / step := by
    rw [stepsBetween, Int.lt_toNat, Int.lt_ceil, Int.cast_natCast]
  rw [counted, ComesBefore]
  rcases Int.lt_or_gt_of_ne nonzero with down | up
  · rw [lt_div_iff_of_neg (Int.cast_lt_zero.mpr down)]
    norm_cast
    omega
  · rw [lt_div_iff₀ (Int.cast_pos.mpr up)]
    norm_cast
    omega

theorem comesBefore_start (nonzero : step ≠ 0) (start stop : Int) :
    ComesBefore step start stop ↔ 0 < stepsBetween start stop step := by
  simpa using comesBefore_iff nonzero start stop 0

theorem stepsBetween_add (nonzero : step ≠ 0) {start stop : Int}
    (before : ComesBefore step start stop) :
    stepsBetween start stop step = stepsBetween (start + step) stop step + 1 := by
  have some := (comesBefore_start nonzero start stop).mp before
  have shifted (k : Nat) :
      k < stepsBetween (start + step) stop step ↔ k + 1 < stepsBetween start stop step := by
    have same : start + step + k * step = start + ((k + 1 : Nat) : Int) * step := by
      push_cast
      ring
    rw [← comesBefore_iff nonzero, ← comesBefore_iff nonzero, same]
  have least := shifted (stepsBetween (start + step) stop step)
  have most := shifted (stepsBetween start stop step - 1)
  omega

/-- The numbers between two others are those that come before the end, one step after the other. -/
theorem numbersBetween_eq (nonzero : step ≠ 0) (start stop : Int) :
    numbersBetween start stop step =
      (List.range (stepsBetween start stop step)).map fun k : Nat => start + k * step := by
  induction start using numbersBetween.induct stop step with
  | case1 start before ih =>
      have later : (List.range (stepsBetween (start + step) stop step)).map
            ((fun k : Nat => start + k * step) ∘ Nat.succ) =
          (List.range (stepsBetween (start + step) stop step)).map
            fun k : Nat => start + step + k * step := by
        refine List.map_congr_left fun k _ => ?_
        simp only [Function.comp_apply, Nat.cast_succ]
        ring
      rw [numbersBetween, if_pos before, ih, stepsBetween_add nonzero before, List.range_succ_eq_map,
        List.map_cons, List.map_map, later]
      simp
  | case2 start past =>
      have none : stepsBetween start stop step = 0 :=
        Nat.eq_zero_of_not_pos ((comesBefore_start nonzero start stop).not.mp past)
      rw [numbersBetween, if_neg past, none]
      rfl

theorem Number.isZero_int (n : Int) : (Number.int n).isZero = decide (n = 0) := by
  show (Binary64.ofInt n).isZero = _
  cases n with
  | ofNat n => cases n <;> rfl
  | negSucc n => rfl

/-! ## Asking again and again -/

namespace Engine

/-- Asks a lazy sequence for an element as many times as given. -/
def ask (engine : Engine) (ref : Nat) : Nat → Eval (List (Option Value))
  | 0 => return []
  | times + 1 => do
      let first ← engine.advance ref
      return first :: (← ask engine ref times)

variable {session : Session} {ref : Nat} {sequence : LazySequence} {elements : List Value}
  {last : SequenceState}

theorem runOn_ask_succ {engine : Engine} {between after : Session} {times : Nat}
    {first : Option Value} {rest : List (Option Value)}
    (asked : (engine.advance ref).runOn session = (.ok first, between))
    (further : (engine.ask ref times).runOn between = (.ok rest, after)) :
    (engine.ask ref (times + 1)).runOn session = (.ok (first :: rest), after) :=
  (Eval.runOn_bind_ok asked _).trans (Eval.runOn_bind_ok further _)

theorem runOn_ask (lower : Engine) (there : session.store.sequences[ref]? = some sequence)
    (isRange : sequence.IsRange) (pulls : sequence.state.Pulls elements last) (times : Nat)
    (known : times ≤ elements.length ∨ last.pull = .ok none) :
    ∃ after, (lower.deeper.ask ref times).runOn session =
      (.ok ((List.range times).map fun k => elements[k]?), after) := by
  induction times generalizing session sequence elements last with
  | zero => exact ⟨session, rfl⟩
  | succ times ih =>
      rw [List.range_succ_eq_map, List.map_cons, List.map_map]
      generalize is : sequence.state = state at pulls
      cases pulls with
      | nil =>
          have ended : sequence.state.pull = .ok none := by
            rw [is]
            exact known.resolve_left (Nat.not_succ_le_zero times)
          obtain ⟨after, further⟩ := ih (Engine.sequence_withState there .finished)
            ⟨.inr rfl, isRange.still⟩ (.nil _) (.inr rfl)
          exact ⟨after,
            runOn_ask_succ (LazySequence.runOn_advance_none lower there isRange ended) further⟩
      | @cons state next last element rest pulled later =>
          subst is
          have behind : LazySequence.IsRange { sequence with state := next } :=
            ⟨.inl (SequenceState.isRange_of_pull pulled).2, isRange.still⟩
          obtain ⟨after, further⟩ := ih (Engine.sequence_withState there next) behind later
            (known.imp_left Nat.le_of_succ_le_succ)
          exact ⟨after,
            runOn_ask_succ (LazySequence.runOn_advance_some lower there isRange.still pulled) further⟩

end Engine

/-! ## Ranges that are made -/

namespace Sequences

theorem runOn_newSequence (session : Session) (label : String) (state : SequenceState) :
    ∃ ref made, (Eval.newSequence label state).runOn session = (.ok (.sequence ref), made) ∧
      made.store.sequences[ref]? = some ⟨.string label, state, false⟩ :=
  ⟨session.store.sequences.size, _, rfl, Array.getElem?_push_size⟩

theorem runOn_range_step (nonzero : step ≠ 0) (place : Location) (start stop : Int)
    (session : Session) :
    (range place [.int start, .int stop, .int step]).runOn session =
      (Eval.newSequence "range" (.stepping (.int start) (.int stop) (.int step) false)).runOn
        session := by
  show Eval.runOn session (if (Number.int step).isZero then _ else _) = _
  rw [Number.isZero_int]
  simp [nonzero]

/-- A range of integers with an end gives the numbers from its start on, a step apart, as many as it
takes steps to come to the end; these come before the end and no further one does, so that there are
none if the end does not lie ahead. After them it gives nothing, however often it is asked. A range
without an end gives every number from its start on. -/
theorem range_gives_integers (engine lower : Engine) (place : Location) (session : Session)
    (start : Int) :
    (∀ stop step : Int, step ≠ 0 →
      (∃ ref made, (LibraryFunction.call engine place [.int start, .int stop, .int step]
          (.array .range)).runOn session = (.ok (.sequence ref), made) ∧
        ∀ times, ∃ after, (lower.deeper.ask ref times).runOn made =
          (.ok ((List.range times).map fun k =>
            if k < stepsBetween start stop step then some (.int (start + k * step)) else none),
            after)) ∧
      (∀ k : Nat, k < stepsBetween start stop step ↔ ComesBefore step (start + k * step) stop) ∧
      (¬ComesBefore step start stop → stepsBetween start stop step = 0)) ∧
    ∃ ref made, (LibraryFunction.call engine place [.int start] (.array .range)).runOn session =
        (.ok (.sequence ref), made) ∧
      ∀ times, ∃ after, (lower.deeper.ask ref times).runOn made =
        (.ok ((List.range times).map fun k : Nat => some (.int (start + k))), after) := by
  refine ⟨fun stop step nonzero => ⟨?_, fun k => (comesBefore_iff nonzero start stop k).symm,
    fun past => ?_⟩, ?_⟩
  · obtain ⟨ref, made, run, there⟩ := runOn_newSequence session "range"
      (.stepping (.int start) (.int stop) (.int step) false)
    obtain ⟨last, pulls, ended⟩ :=
      @SequenceState.pulls_numbersBetween step nonzero stop start false start rfl
    refine ⟨ref, made, (runOn_range_step nonzero place start stop session).trans run,
      fun times => ?_⟩
    obtain ⟨after, asked⟩ := Engine.runOn_ask lower there ⟨.inl rfl, rfl⟩ pulls times (.inr ended)
    refine ⟨after, asked.trans (congrArg (fun given => (Except.ok given, after)) ?_)⟩
    refine List.map_congr_left fun k _ => ?_
    rw [numbersBetween_eq nonzero, List.map_map, List.getElem?_map]
    split
    · rename_i inside
      rw [List.getElem?_range inside]
      rfl
    · rename_i outside
      rw [List.getElem?_eq_none (by simpa using outside)]
      rfl
  · exact Nat.eq_zero_of_not_pos ((comesBefore_start nonzero start stop).not.mp past)
  · obtain ⟨ref, made, run, there⟩ := runOn_newSequence session "range" (.counting (.int start))
    refine ⟨ref, made, run, fun times => ?_⟩
    obtain ⟨after, asked⟩ := Engine.runOn_ask lower there ⟨.inl rfl, rfl⟩
      (SequenceState.pulls_counting start times) times (.inl (by simp))
    refine ⟨after, asked.trans (congrArg (fun given => (Except.ok given, after)) ?_)⟩
    refine List.map_congr_left fun k inside => ?_
    simp [List.mem_range.mp inside]

/-- From ten down past zero in steps of three: four numbers, and then nothing twice. -/
theorem range_gives_integers_down : ∃ ref made after,
    (LibraryFunction.call (Engine.ofDepth 100 1) ⟨1, 1⟩ [.int 10, .int (-1), .int (-3)]
        (.array .range)).runOn threeNumbers = (.ok (.sequence ref), made) ∧
      ((Engine.ofDepth 100 1).ask ref 6).runOn made =
        (.ok [some (.int 10), some (.int 7), some (.int 4), some (.int 1), none, none], after) := by
  obtain ⟨⟨ref, made, run, asks⟩, -⟩ :=
    (range_gives_integers (Engine.ofDepth 100 1) (Engine.ofDepth 100 0) ⟨1, 1⟩ threeNumbers 10).1
      (-1) (-3) (by decide)
  obtain ⟨after, asked⟩ := asks 6
  have four : stepsBetween 10 (-1) (-3) = 4 := by decide +kernel
  rw [four] at asked
  exact ⟨ref, made, after, run, asked⟩

end Sequences

end ShellLisp
