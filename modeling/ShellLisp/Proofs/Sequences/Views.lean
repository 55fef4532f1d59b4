import ShellLisp.Evaluation
import ShellLisp.Proofs.Sequences.Supplies

/-!
# What views supply

A view of a sequence that supplies a list supplies what its functions make of that list. Functions
are known by what they give for the elements of a description, in every session that has come from a
given one, and they have no side effects.
-/

namespace ShellLisp

theorem Eval.of_bind_ok {α β : Type} {session after : Session} {action : Eval α} {next : α → Eval β}
    {b : β} (run : (action >>= next).runOn session = (.ok b, after)) :
    ∃ a between, action.runOn session = (.ok a, between) ∧
      (next a).runOn between = (.ok b, after) := by
  rw [runOn_bind] at run
  cases first : action.runOn session with
  | mk outcome between =>
      rw [first] at run
      cases outcome with
      | error failure => cases run
      | ok a => exact ⟨a, between, rfl, run⟩

variable {D : Type} {desc : Description D}

/-! ## Functions without side effects -/

namespace Engine

/-- A function gives a value of one element for every value of another one. -/
def Maps (engine : Engine) (desc : Description D) (base : Session) (function : Value) (d e : D) :
    Prop :=
  ∀ (now : Session) v place, base.Extends now → desc.holds now.store v d →
    ∃ w after, (engine.apply function [v] place).runOn now = (.ok w, after) ∧
      now.Grows ∅ after ∧ desc.holds after.store w e

/-- A function decides whether an element is kept. -/
def Judges (engine : Engine) (desc : Description D) (base : Session) (function : Value) (d : D)
    (keep : Bool) : Prop :=
  ∀ (now : Session) v place, base.Extends now → desc.holds now.store v d →
    ∃ w after, (engine.apply function [v] place).runOn now = (.ok w, after) ∧
      now.Grows ∅ after ∧ after.store.truthy w = keep

/-- A function gives something with elements for every value of an element. If this is a lazy
sequence, then it and those that it asks are new, so that no one else asks them. -/
def Spreads (engine : Engine) (desc : Description D) (base : Session) (function : Value) (d : D)
    (list : List D) : Prop :=
  ∀ (now : Session) v place, base.Extends now → desc.holds now.store v d →
    ∃ w after, (engine.apply function [v] place).runOn now = (.ok w, after) ∧ now.Grows ∅ after ∧
      (desc.Elements after w list ∨ ∃ ref owned, w = .sequence ref ∧
        (∀ ref ∈ owned, now.store.sequences.size ≤ ref) ∧
        Supplies desc engine.next true owned after (.sequence ref) list)

theorem Spreads.supplied {engine : Engine} {base now : Session} {function v : Value} {d : D}
    {list : List D} (spreads : engine.Spreads desc base function d list)
    (extended : base.Extends now) (holds : desc.holds now.store v d) (place : Location) :
    ∃ w after owned, (engine.apply function [v] place).runOn now = (.ok w, after) ∧
      now.Grows ∅ after ∧ w.isIterable = true ∧
      (∀ ref ∈ owned, now.store.sequences.size ≤ ref) ∧
      Supplies desc engine.next true owned after (Cursor.entries after.store w) list := by
  obtain ⟨w, after, applied, grown, elements | ⟨ref, owned, rfl, new, supplies⟩⟩ :=
    spreads now v place extended holds
  · exact ⟨w, after, ∅, applied, grown, elements.isIterable, fun _ => False.elim,
      elements.supplies engine⟩
  · exact ⟨.sequence ref, after, owned, applied, grown, rfl, new, supplies⟩

end Engine

/-! ## Asking a sequence -/

namespace Engine
variable {engine : Engine} {session after : Session} {ref : Nat} {v : Value} {cursor : Cursor}

theorem advance_of_next
    (run : (engine.next (.sequence ref)).runOn session = (.ok (some (v, cursor)), after)) :
    (engine.advance ref).runOn session = (.ok (some v), after) ∧ cursor = .sequence ref := by
  obtain ⟨found, between, advanced, rest⟩ := Eval.of_bind_ok run
  cases found with
  | none => cases rest
  | some element =>
      cases rest
      exact ⟨advanced, rfl⟩

theorem advance_of_next_none
    (run : (engine.next (.sequence ref)).runOn session = (.ok none, after)) :
    (engine.advance ref).runOn session = (.ok none, after) := by
  obtain ⟨found, between, advanced, rest⟩ := Eval.of_bind_ok run
  cases found with
  | none =>
      cases rest
      exact advanced
  | some element => cases rest

theorem next_of_advance {found : Option Value}
    (run : (engine.advance ref).runOn session = (.ok found, after)) :
    (engine.next (.sequence ref)).runOn session =
      (.ok (found.map (·, .sequence ref)), after) := Eval.runOn_bind_ok run _

end Engine

/-! ## Views that compute -/

namespace LazySequence
variable {lower : Engine} {closed : Bool} {owned : Set Nat} {base session : Session} {source : Nat}
  {function : Value} {place : Location} {list : List D}

theorem compute_mapped (supplies : Supplies desc lower.next closed owned session (.sequence source)
      list) {image : D → D} (maps : ∀ d ∈ list, lower.Maps desc base function d (image d))
    (extended : base.Extends session) :
    Supplies desc (compute lower) closed owned session (.mapped source function place)
      (list.map image) := by
  induction list generalizing session owned with
  | nil =>
      refine ⟨supplies.present, fun isClosed now growing => ?_⟩
      obtain ⟨after, run, grew⟩ := supplies.2 isClosed now growing
      exact ⟨after, Eval.runOn_bind_ok (Engine.advance_of_next_none run) _, grew⟩
  | cons d rest ih =>
      refine ⟨supplies.present, fun now growing => ?_⟩
      obtain ⟨v, next, between, later, run, grew, holds, fresh, further⟩ := supplies.2 now growing
      obtain ⟨advanced, rfl⟩ := Engine.advance_of_next run
      have extended' := (extended.trans growing).trans grew
      obtain ⟨w, after, applied, grown, holds'⟩ :=
        maps d (List.mem_cons_self ..) between v place extended' holds
      -- What the call of the function adds is owned by no one, so the source still supplies the
      -- rest.
      refine ⟨w, .mapped source function place, after, later, ?_, grew.andThen grown, holds', fresh, ?_⟩
      · exact (Eval.runOn_bind_ok advanced _).trans (Eval.runOn_bind_ok applied _)
      · exact ih (further.beside grown fun _ => False.elim)
          (fun d member => maps d (List.mem_cons_of_mem _ member)) (extended'.trans grown)

theorem advanceFiltered_supplied
    (supplies : Supplies desc lower.next closed owned session (.sequence source) list)
    {keep : D → Bool} (judges : ∀ d ∈ list, lower.Judges desc base function d (keep d))
    (extended : base.Extends session) {bound : Nat} (patient : list.length < bound) :
    (list.filter keep = [] → closed = true → ∃ after,
      (advanceFiltered lower source function place bound).runOn session = (.ok none, after) ∧
        session.Grows owned after) ∧
    ∀ d rest, list.filter keep = d :: rest → ∃ v after later left,
      (advanceFiltered lower source function place bound).runOn session = (.ok (some v), after) ∧
        session.Grows owned after ∧ desc.holds after.store v d ∧
        (∀ ref ∈ later, ref ∈ owned ∨ session.store.sequences.size ≤ ref) ∧
        Supplies desc lower.next closed later after (.sequence source) left ∧
        left.filter keep = rest ∧ left <:+ list := by
  induction list generalizing session owned bound with
  | nil =>
      obtain ⟨bound, rfl⟩ := Nat.exists_eq_succ_of_ne_zero (Nat.ne_of_gt patient)
      refine ⟨fun _ isClosed => ?_, nofun⟩
      obtain ⟨after, run, grew⟩ := supplies.2 isClosed session (.refl _ session)
      exact ⟨after, Eval.runOn_bind_ok (Engine.advance_of_next_none run) _, grew⟩
  | cons first others ih =>
      obtain ⟨bound, rfl⟩ := Nat.exists_eq_succ_of_ne_zero (Nat.ne_of_gt (Nat.zero_lt_of_lt patient))
      obtain ⟨v, next, between, later, run, grew, holds, fresh, further⟩ := supplies.next
      obtain ⟨advanced, rfl⟩ := Engine.advance_of_next run
      obtain ⟨w, after, applied, grown, verdict⟩ :=
        judges first (List.mem_cons_self ..) between v place (extended.trans grew) holds
      have unrolled : (advanceFiltered lower source function place (bound + 1)).runOn session =
          Eval.runOn after (if keep first then return some v
            else advanceFiltered lower source function place bound) := by
        refine (Eval.runOn_bind_ok advanced _).trans ((Eval.runOn_bind_ok applied _).trans ?_)
        rw [← verdict]
        rfl
      have supplies' := further.beside grown fun _ => False.elim
      rw [unrolled]
      by_cases kept : keep first = true
      · rw [if_pos kept, List.filter_cons_of_pos kept]
        refine ⟨nofun, fun d rest same => ?_⟩
        cases same
        exact ⟨v, after, later, others, rfl, grew.andThen grown,
          desc.grows grown.extension.store holds, fresh, supplies', rfl, List.suffix_cons _ _⟩
      -- The element is passed over: both changes are made before what the others lead to.
      · rw [if_neg kept, List.filter_cons_of_neg kept]
        obtain ⟨ends, gives⟩ := ih supplies'
          (fun d member => judges d (List.mem_cons_of_mem _ member))
          ((extended.trans grew).trans grown) (Nat.lt_of_succ_lt_succ patient)
        have whole := grew.andThen grown
        refine ⟨fun nothing isClosed => ?_, fun d rest same => ?_⟩
        · obtain ⟨last, ended, grows⟩ := ends nothing isClosed
          exact ⟨last, ended, whole.onward fresh grows⟩
        · obtain ⟨x, last, latest, left, found, grows, holds', fresh', rest', same', suffix⟩ :=
            gives d rest same
          exact ⟨x, last, latest, left, found, whole.onward fresh grows, holds',
            whole.fresh_onward fresh fresh', rest', same', suffix.trans (List.suffix_cons _ _)⟩

theorem compute_filtered (supplies : Supplies desc lower.next closed owned session (.sequence source)
      list) {keep : D → Bool} (judges : ∀ d ∈ list, lower.Judges desc base function d (keep d))
    (extended : base.Extends session) (patient : list.length < lower.patience) :
    Supplies desc (compute lower) closed owned session (.filtered source function place)
      (list.filter keep) := by
  generalize same : list.filter keep = kept
  induction kept generalizing list session owned with
  | nil =>
      refine ⟨supplies.present, fun isClosed now growing => ?_⟩
      obtain ⟨ends, -⟩ := advanceFiltered_supplied (supplies.grows growing) judges
        (extended.trans growing) patient
      obtain ⟨after, run, grew⟩ := ends same isClosed
      exact ⟨after, Eval.runOn_bind_ok run _, grew⟩
  | cons d rest ih =>
      refine ⟨supplies.present, fun now growing => ?_⟩
      obtain ⟨-, gives⟩ := advanceFiltered_supplied (supplies.grows growing) judges
        (extended.trans growing) patient
      obtain ⟨v, after, later, left, run, grew, holds, fresh, further, same', suffix⟩ :=
        gives d rest same
      exact ⟨v, .filtered source function place, after, later, Eval.runOn_bind_ok run _, grew, holds,
        fresh, ih further (fun d member => judges d (suffix.subset member))
          ((extended.trans growing).trans grew) (Nat.lt_of_le_of_lt suffix.length_le patient) same'⟩

/-- Asking comes to an element of a list, the others of which are left in a cursor and the source. -/
def GivesFlattened (desc : Description D) (lower : Engine) (closed : Bool) (owned : Set Nat)
    (session : Session) (source : Nat) (list : List D) (spread : D → List D)
    (asking : Eval (Option (Value × Cursor))) (d : D) (rest : List D) : Prop :=
  ∃ v cursor after later within left others,
    asking.runOn session = (.ok (some (v, cursor)), after) ∧ session.Grows owned after ∧
      desc.holds after.store v d ∧
      (∀ ref ∈ later ∪ within, ref ∈ owned ∨ session.store.sequences.size ≤ ref) ∧
      Supplies desc lower.next closed later after (.sequence source) left ∧
      Supplies desc lower.next true within after cursor others ∧ (∀ ref ∈ later, ref ∉ within) ∧
      others ++ left.flatMap spread = rest ∧ left <:+ list

theorem advanceFlattened_left {inside : Set Nat} {inner : Cursor} {e : D} {first : List D}
    (supplies : Supplies desc lower.next closed owned session (.sequence source) list)
    (begins : Supplies desc lower.next true inside session inner (e :: first))
    (apart : ∀ ref ∈ owned, ref ∉ inside) (spread : D → List D) (bound : Nat) :
    GivesFlattened desc lower closed (owned ∪ inside) session source list spread
      (advanceFlattened lower source function place (bound + 1) inner) e
      (first ++ list.flatMap spread) := by
  obtain ⟨v, cursor, after, within, run, grew, holds, fresh, further⟩ := begins.next
  refine ⟨v, cursor, after, owned, within, list, first, Eval.runOn_bind_ok run _,
    grew.weaken Set.subset_union_right, holds, fun ref member => ?_,
    supplies.beside grew fun ref member owns => apart ref owns member, further,
    fun ref owns member => ?_, rfl, List.suffix_refl _⟩
  · rcases member with owns | member
    · exact .inl (.inl owns)
    · exact (fresh ref member).imp .inr id
  · rcases fresh ref member with old | new
    · exact apart ref owns old
    · exact Nat.not_le.mpr (supplies.present ref owns) new

/-- A result that has no more elements is left for the next one. -/
theorem advanceFlattened_onward {inside : Set Nat} {inner : Cursor} {d : D} {rest first : List D}
    (supplies : Supplies desc lower.next closed owned session (.sequence source) (d :: rest))
    (begins : Supplies desc lower.next true inside session inner ([] : List D))
    (apart : ∀ ref ∈ owned, ref ∉ inside) (spreads : lower.Spreads desc base function d first)
    (extended : base.Extends session) (place : Location) (bound : Nat) :
    ∃ after later within cursor,
      (advanceFlattened lower source function place (bound + 1) inner).runOn session =
        (advanceFlattened lower source function place bound cursor).runOn after ∧
      session.Grows (owned ∪ inside) after ∧
      (∀ ref ∈ later ∪ within, ref ∈ owned ∪ inside ∨ session.store.sequences.size ≤ ref) ∧
      Supplies desc lower.next closed later after (.sequence source) rest ∧
      Supplies desc lower.next true within after cursor first ∧ ∀ ref ∈ later, ref ∉ within := by
  obtain ⟨between, ended, grew⟩ := begins.stop
  have supplies' := supplies.beside grew fun ref member owns => apart ref owns member
  obtain ⟨v, next, behind, later, run, grown, holds, fresh, further⟩ := supplies'.next
  obtain ⟨advanced, rfl⟩ := Engine.advance_of_next run
  obtain ⟨w, after, within, applied, made, iterable, new, inner'⟩ :=
    spreads.supplied ((extended.trans grew).trans grown) holds place
  have whole : session.Grows (owned ∪ inside) after :=
    ((grew.weaken Set.subset_union_right).trans grown fun ref _ member => .inl member).andThen made
  refine ⟨after, later, within, Cursor.entries after.store w, ?_, whole, ?_,
    further.beside made fun _ => False.elim, inner', fun ref member recent => ?_⟩
  · refine (Eval.runOn_bind_ok ended _).trans ((Eval.runOn_bind_ok advanced _).trans
      ((Eval.runOn_bind_ok applied _).trans ?_))
    rw [Arguments.iterable, if_pos iterable]
    rfl
  · rintro ref (member | member)
    · exact (fresh ref member).imp .inl (Nat.le_trans grew.store.more)
    · exact .inr (Nat.le_trans (grew.store.more.trans grown.store.more) (new ref member))
  · exact Nat.not_le.mpr (further.present ref member) (new ref recent)

theorem advanceFlattened_supplied {inside : Set Nat} {inner : Cursor} {first : List D}
    (supplies : Supplies desc lower.next closed owned session (.sequence source) list)
    (begins : Supplies desc lower.next true inside session inner first)
    (apart : ∀ ref ∈ owned, ref ∉ inside) {spread : D → List D}
    (spreads : ∀ d ∈ list, lower.Spreads desc base function d (spread d))
    (extended : base.Extends session) {bound : Nat} (patient : list.length < bound) :
    (first ++ list.flatMap spread = [] → closed = true → ∃ after,
      (advanceFlattened lower source function place bound inner).runOn session =
          (.ok none, after) ∧ session.Grows (owned ∪ inside) after) ∧
    ∀ d rest, first ++ list.flatMap spread = d :: rest →
      GivesFlattened desc lower closed (owned ∪ inside) session source list spread
        (advanceFlattened lower source function place bound inner) d rest := by
  -- Each turn of the loop uses up one element of the source, hence the induction on these.
  induction list generalizing session owned inside inner first bound with
  | nil =>
      obtain ⟨bound, rfl⟩ := Nat.exists_eq_succ_of_ne_zero (Nat.ne_of_gt patient)
      cases first with
      | nil =>
          refine ⟨fun _ isClosed => ?_, nofun⟩
          obtain ⟨between, ended, grew⟩ := begins.stop
          have supplies' := supplies.beside grew fun ref member owns => apart ref owns member
          obtain ⟨after, run, grown⟩ := supplies'.2 isClosed between (.refl _ between)
          refine ⟨after, ?_, (grew.weaken Set.subset_union_right).trans grown
            fun ref _ member => .inl member⟩
          exact (Eval.runOn_bind_ok ended _).trans
            (Eval.runOn_bind_ok (Engine.advance_of_next_none run) _)
      | cons e first =>
          refine ⟨nofun, fun d rest same => ?_⟩
          cases same
          exact advanceFlattened_left supplies begins apart spread bound
  | cons d rest ih =>
      obtain ⟨bound, rfl⟩ := Nat.exists_eq_succ_of_ne_zero (Nat.ne_of_gt (Nat.zero_lt_of_lt patient))
      cases first with
      | nil =>
          obtain ⟨after, later, within, cursor, unrolled, whole, older, further, inner', apart'⟩ :=
            advanceFlattened_onward supplies begins apart (spreads d (List.mem_cons_self ..)) extended
              place bound
          obtain ⟨ends, gives⟩ := ih further inner' apart'
            (fun d member => spreads d (List.mem_cons_of_mem _ member)) (extended.trans whole)
            (Nat.lt_of_succ_lt_succ patient)
          rw [unrolled, List.nil_append, List.flatMap_cons]
          refine ⟨fun nothing isClosed => ?_, fun x others same => ?_⟩
          · obtain ⟨last, stopped, grows⟩ := ends nothing isClosed
            exact ⟨last, stopped, whole.onward older grows⟩
          · obtain ⟨y, cursor, last, later', within', left, others', found, grows, holds', fresh',
              source', inner'', apart'', same', suffix⟩ := gives x others same
            exact ⟨y, cursor, last, later', within', left, others', unrolled.trans found,
              whole.onward older grows, holds', whole.fresh_onward older fresh', source', inner'',
              apart'', same', suffix.trans (List.suffix_cons _ _)⟩
      | cons e first =>
          refine ⟨nofun, fun x others same => ?_⟩
          cases same
          exact advanceFlattened_left supplies begins apart spread bound

theorem compute_flattened {inside : Set Nat} {inner : Cursor} {first : List D}
    (supplies : Supplies desc lower.next closed owned session (.sequence source) list)
    (begins : Supplies desc lower.next true inside session inner first)
    (apart : ∀ ref ∈ owned, ref ∉ inside) {spread : D → List D}
    (spreads : ∀ d ∈ list, lower.Spreads desc base function d (spread d))
    (extended : base.Extends session) (patient : list.length < lower.patience) :
    Supplies desc (compute lower) closed (owned ∪ inside) session
      (.flattened source function place inner) (first ++ list.flatMap spread) := by
  have present : session.Present (owned ∪ inside) := fun ref member =>
    member.elim (supplies.present ref) (begins.present ref)
  have stays {now : Session} (growing : session.Grows (owned ∪ inside)ᶜ now) :
      Supplies desc lower.next closed owned now (.sequence source) list ∧
        Supplies desc lower.next true inside now inner first :=
    ⟨supplies.grows (growing.weaken fun _ out owns => out (.inl owns)),
      begins.grows (growing.weaken fun _ out owns => out (.inr owns))⟩
  -- One list is left of the open row and of all rows behind it; it gets shorter at every element.
  generalize same : first ++ list.flatMap spread = whole
  induction whole generalizing list session owned inside inner first with
  | nil =>
      refine ⟨present, fun isClosed now growing => ?_⟩
      obtain ⟨supplies', begins'⟩ := stays growing
      obtain ⟨ends, -⟩ := advanceFlattened_supplied supplies' begins' apart spreads
        (extended.trans growing) patient
      obtain ⟨after, run, grew⟩ := ends same isClosed
      exact ⟨after, Eval.runOn_bind_ok run _, grew⟩
  | cons d rest ih =>
      refine ⟨present, fun now growing => ?_⟩
      obtain ⟨supplies', begins'⟩ := stays growing
      obtain ⟨-, gives⟩ := advanceFlattened_supplied supplies' begins' apart spreads
        (extended.trans growing) patient
      obtain ⟨v, cursor, after, later, within, left, others, run, grew, holds, fresh, further, inner',
        apart', same', suffix⟩ := gives d rest same
      refine ⟨v, .flattened source function place cursor, after, later ∪ within,
        Eval.runOn_bind_ok run _, grew, holds, fresh, ?_⟩
      refine ih further inner' apart' (fun d member => spreads d (suffix.subset member))
        ((extended.trans growing).trans grew) (Nat.lt_of_le_of_lt suffix.length_le patient) ?_ ?_ same'
      · exact fun ref member => member.elim (further.present ref) (inner'.present ref)
      · exact fun growing =>
          ⟨further.grows (growing.weaken fun _ out owns => out (.inl owns)),
            inner'.grows (growing.weaken fun _ out owns => out (.inr owns))⟩

end LazySequence

/-! ## From states to sequences -/

/-- Whether a sequence computes its elements one at a time from those of another. -/
def SequenceState.isComputed : SequenceState → Bool
  | .mapped .. | .filtered .. | .flattened .. => true
  | _ => false

namespace LazySequence
variable {lower : Engine} {closed : Bool} {owned : Set Nat} {session after : Session} {ref : Nat}
  {label : Value} {state next : SequenceState} {list : List D} {v : Value}

theorem isComputed_compute (computed : state.isComputed = true)
    (run : (compute lower state).runOn session = (.ok (some (v, next)), after)) :
    next.isComputed = true := by
  cases state with
  | mapped source function place =>
      obtain ⟨found, between, -, rest⟩ := Eval.of_bind_ok run
      cases found with
      | none => cases rest
      | some element =>
          obtain ⟨w, last, -, given⟩ := Eval.of_bind_ok rest
          cases given
          rfl
  | filtered source function place =>
      obtain ⟨found, between, -, given⟩ := Eval.of_bind_ok run
      cases found <;> cases given
      rfl
  | flattened source function place inner =>
      obtain ⟨found, between, -, given⟩ := Eval.of_bind_ok run
      cases found <;> cases given
      rfl
  | counting | stepping | skipping | finished => cases computed

def mark (session : Session) (ref : Nat) (running : Bool) : Session :=
  { session with
    store := session.store.modifySequence ref fun sequence => { sequence with running } }

theorem mark_grows (session : Session) (ref : Nat) (running : Bool) :
    session.Grows {ref} (mark session ref running) := .onStore (.modifySequence _ ref _)

theorem withState_grows (session : Session) (ref : Nat) (state : SequenceState) :
    session.Grows {ref} (session.withState ref state) := .onStore (.modifySequence _ ref _)

/-- The session after a sequence has computed an element, or found that there is none. -/
def settle (session : Session) (ref : Nat) (state : SequenceState) : Session :=
  (mark session ref false).withState ref state

theorem settle_grows (session : Session) (ref : Nat) (state : SequenceState) :
    session.Grows {ref} (settle session ref state) :=
  (mark_grows session ref false).trans (withState_grows _ ref state) fun _ _ member => member

theorem sequence_mark {running marked : Bool}
    (there : session.store.sequences[ref]? = some ⟨label, state, running⟩) :
    (mark session ref marked).store.sequences[ref]? = some ⟨label, state, marked⟩ := by
  simp [mark, Store.modifySequence, Array.getElem?_modify, there]

theorem sequence_settle (there : session.store.sequences[ref]? = some ⟨label, state, true⟩) :
    (settle session ref next).store.sequences[ref]? = some ⟨label, next, false⟩ :=
  Store.sequence_withState (sequence_mark there)

theorem runOn_advance_computed {found : Option (Value × SequenceState)}
    (computed : state.isComputed = true)
    (there : session.store.sequences[ref]? = some ⟨label, state, false⟩)
    (run : (compute lower state).runOn (mark session ref true) = (.ok found, after)) :
    (advance lower ref).runOn session =
      (.ok (found.map (·.1)), settle after ref ((found.map (·.2)).getD .finished)) := by
  have begins : (advance lower ref).runOn session =
      (advanceComputed lower ref state).runOn session := by
    unfold advance
    rw [runOn_stateOf_bind there]
    cases state with
    | mapped | filtered | flattened => rfl
    | counting | stepping | skipping | finished => cases computed
  have finished : (finishing ref (compute lower state)).runOn (mark session ref true) =
      (.ok found, after) := by
    unfold finishing
    rw [Eval.runOn_tryCatch, run]
  rw [begins]
  unfold advanceComputed
  rw [runOn_isRunning_bind there]
  refine (Eval.runOn_bind_ok finished _).trans ?_
  cases found with
  | none => rfl
  | some step => rfl

theorem grows_mark (growing : session.Grows (owned ∪ {ref})ᶜ after) (apart : ref ∉ owned) :
    session.Grows ownedᶜ (mark after ref true) := by
  refine (growing.weaken fun _ out owns => out (.inl owns)).trans (mark_grows after ref true) ?_
  rintro other - rfl
  exact apart

theorem grows_settle (grew : (mark session ref true).Grows owned after) (state : SequenceState) :
    session.Grows (owned ∪ {ref}) (settle after ref state) := by
  have first := (mark_grows session ref true).weaken (Set.subset_union_right (s := owned))
  exact (first.trans grew fun _ _ member => .inl member).trans (settle_grows after ref state)
    fun _ _ member => .inr member

theorem present_insert (supplied : session.Present owned)
    (there : session.store.sequences[ref]? = some ⟨label, state, false⟩) :
    session.Present (owned ∪ {ref}) := by
  rintro other (member | rfl)
  · exact supplied other member
  · exact (Array.getElem?_eq_some_iff.mp there).1

/-- A sequence supplies what is supplied to its state. -/
theorem supplies_computed (computed : state.isComputed = true)
    (supplies : Supplies desc (compute lower) closed owned session state list)
    (there : session.store.sequences[ref]? = some ⟨label, state, false⟩) (apart : ref ∉ owned) :
    Supplies desc lower.deeper.next closed (owned ∪ {ref}) session (.sequence ref) list := by
  induction list generalizing session owned state with
  | nil =>
      refine ⟨present_insert supplies.present there, fun isClosed now growing => ?_⟩
      have there' := growing.store.sequences ref _ (fun out => out (.inr rfl)) there
      obtain ⟨after, run, grew⟩ := supplies.2 isClosed _ (grows_mark growing apart)
      have advanced : (lower.deeper.advance ref).runOn now = _ :=
        runOn_advance_computed computed there' run
      exact ⟨_, Engine.next_of_advance advanced, grows_settle grew _⟩
  | cons d rest ih =>
      refine ⟨present_insert supplies.present there, fun now growing => ?_⟩
      have there' := growing.store.sequences ref _ (fun out => out (.inr rfl)) there
      have older : ref < now.store.sequences.size := (Array.getElem?_eq_some_iff.mp there').1
      obtain ⟨v, next, after, later, run, grew, holds, fresh, further⟩ :=
        supplies.2 _ (grows_mark growing apart)
      have advanced : (lower.deeper.advance ref).runOn now = _ :=
        runOn_advance_computed computed there' run
      have settled := settle_grows after ref next
      -- The sequence is older than anything that its state can own after the step.
      have apart' : ref ∉ later := fun member =>
        (fresh ref member).elim apart
          (Nat.not_le.mpr (by simpa [mark, Store.modifySequence] using older))
      refine ⟨v, .sequence ref, _, later ∪ {ref}, Engine.next_of_advance advanced,
        grows_settle grew _, desc.grows settled.extension.store holds, ?_, ?_⟩
      · rintro other (member | rfl)
        · refine (fresh other member).imp .inl fun new => ?_
          simpa [mark, Store.modifySequence] using new
        · exact .inl (.inr rfl)
      · refine ih (isComputed_compute computed run) (further.beside settled ?_)
          (sequence_settle (grew.store.sequences ref _ apart (sequence_mark there'))) apart'
        rintro other rfl
        exact apart'

/-! ## Views that skip -/

section
variable {source skip : Nat}
  (supplies : Supplies desc lower.next closed owned session (.sequence source) list)
  (there : session.store.sequences[ref]? = some ⟨label, .skipping source skip, false⟩)
  (apart : ref ∉ owned)
include supplies there apart

/-- The elements to be skipped are asked for, and the one behind them is given. -/
theorem advanceSkipping_supplied :
    (list.drop skip = [] → closed = true → ∃ after,
      (advanceSkipping lower ref source skip).runOn session = (.ok none, after) ∧
        session.Grows (owned ∪ {ref}) after) ∧
    ∀ d rest, list.drop skip = d :: rest → ∃ v after later,
      (advanceSkipping lower ref source skip).runOn session = (.ok (some v), after) ∧
        session.Grows (owned ∪ {ref}) after ∧ desc.holds after.store v d ∧
        (∀ other ∈ later, other ∈ owned ∨ session.store.sequences.size ≤ other) ∧
        Supplies desc lower.next closed later after (.sequence source) rest ∧
        after.store.sequences[ref]? = some ⟨label, .skipping source 0, false⟩ := by
  induction skip generalizing list session owned with
  | zero =>
      refine ⟨fun nothing isClosed => ?_, fun d rest same => ?_⟩
      · cases nothing
        obtain ⟨after, run, grew⟩ := supplies.2 isClosed session (.refl _ session)
        exact ⟨after, Engine.advance_of_next_none run, grew.weaken Set.subset_union_left⟩
      · cases same
        obtain ⟨v, next, after, later, run, grew, holds, fresh, further⟩ := supplies.next
        obtain ⟨advanced, rfl⟩ := Engine.advance_of_next run
        exact ⟨v, after, later, advanced, grew.weaken Set.subset_union_left, holds, fresh, further,
          grew.store.sequences ref _ apart there⟩
  | succ skip ih =>
      cases list with
      | nil =>
          refine ⟨fun _ isClosed => ?_, nofun⟩
          obtain ⟨after, run, grew⟩ := supplies.2 isClosed session (.refl _ session)
          exact ⟨after, Eval.runOn_bind_ok (Engine.advance_of_next_none run) _,
            grew.weaken Set.subset_union_left⟩
      | cons first others =>
          obtain ⟨v, next, between, later, run, grew, holds, fresh, further⟩ := supplies.next
          obtain ⟨advanced, rfl⟩ := Engine.advance_of_next run
          have older : ref < session.store.sequences.size := (Array.getElem?_eq_some_iff.mp there).1
          have apart' : ref ∉ later := fun member =>
            (fresh ref member).elim apart (Nat.not_le.mpr older)
          -- The sequence notes the skipped element, which is no concern of its source.
          have moved := withState_grows between ref (.skipping source skip)
          have unrolled : (advanceSkipping lower ref source (skip + 1)).runOn session =
              (advanceSkipping lower ref source skip).runOn
                (between.withState ref (.skipping source skip)) :=
            Eval.runOn_bind_ok advanced _
          have whole : session.Grows (owned ∪ {ref})
              (between.withState ref (.skipping source skip)) :=
            (grew.weaken Set.subset_union_left).trans moved fun _ _ member => .inr member
          have fresh' : ∀ other ∈ later ∪ {ref},
              other ∈ owned ∪ {ref} ∨ session.store.sequences.size ≤ other := by
            rintro other (member | rfl)
            · exact (fresh other member).imp .inl id
            · exact .inl (.inr rfl)
          obtain ⟨ends, gives⟩ := ih
            (further.beside moved fun other same member => apart' (same ▸ member))
            (Store.sequence_withState (grew.store.sequences ref _ apart there)) apart'
          rw [unrolled, List.drop_succ_cons]
          refine ⟨fun nothing isClosed => ?_, fun d rest same => ?_⟩
          · obtain ⟨last, stopped, grown⟩ := ends nothing isClosed
            exact ⟨last, stopped, whole.onward fresh' grown⟩
          · obtain ⟨w, last, latest, found, grown, holds', fresh'', rest', cell⟩ := gives d rest same
            exact ⟨w, last, latest, found, whole.onward fresh' grown, holds',
              whole.fresh_onward fresh fresh'', rest', cell⟩

end

theorem runOn_advance_skipping {source skip : Nat} {found : Option Value}
    (there : session.store.sequences[ref]? = some ⟨label, .skipping source skip, false⟩)
    (run : (advanceSkipping lower ref source skip).runOn session = (.ok found, after)) :
    (advance lower ref).runOn session =
      (.ok found, if found.isSome then after else after.withState ref .finished) := by
  have finished : (finishing ref (advanceSkipping lower ref source skip)).runOn session =
      (.ok found, after) := by
    unfold finishing
    rw [Eval.runOn_tryCatch, run]
  unfold advance
  rw [runOn_stateOf_bind there]
  refine (Eval.runOn_bind_ok finished _).trans ?_
  cases found <;> rfl

theorem supplies_skipping {source skip : Nat}
    (supplies : Supplies desc lower.next closed owned session (.sequence source) list)
    (there : session.store.sequences[ref]? = some ⟨label, .skipping source skip, false⟩)
    (apart : ref ∉ owned) :
    Supplies desc lower.deeper.next closed (owned ∪ {ref}) session (.sequence ref)
      (list.drop skip) := by
  have stays {now : Session} (growing : session.Grows (owned ∪ {ref})ᶜ now) :
      Supplies desc lower.next closed owned now (.sequence source) list ∧
        now.store.sequences[ref]? = some ⟨label, .skipping source skip, false⟩ :=
    ⟨supplies.grows (growing.weaken fun _ out owns => out (.inl owns)),
      growing.store.sequences ref _ (fun out => out (.inr rfl)) there⟩
  have present := present_insert supplies.present there
  -- What is left to skip is zero behind the first element, so the induction is on the rest of the
  -- list.
  generalize same : list.drop skip = left
  induction left generalizing list skip session owned with
  | nil =>
      refine ⟨present, fun isClosed now growing => ?_⟩
      obtain ⟨supplies', there'⟩ := stays growing
      obtain ⟨ends, -⟩ := advanceSkipping_supplied supplies' there' apart
      obtain ⟨after, run, grew⟩ := ends same isClosed
      have advanced : (lower.deeper.advance ref).runOn now = _ := runOn_advance_skipping there' run
      exact ⟨_, Engine.next_of_advance advanced,
        grew.trans (withState_grows after ref .finished) fun _ _ member => .inr member⟩
  | cons d rest ih =>
      refine ⟨present, fun now growing => ?_⟩
      obtain ⟨supplies', there'⟩ := stays growing
      have older : ref < now.store.sequences.size := (Array.getElem?_eq_some_iff.mp there').1
      obtain ⟨-, gives⟩ := advanceSkipping_supplied supplies' there' apart
      obtain ⟨v, after, later, run, grew, holds, fresh, further, cell⟩ := gives d rest same
      have advanced : (lower.deeper.advance ref).runOn now = _ := runOn_advance_skipping there' run
      have apart' : ref ∉ later := fun member =>
        (fresh ref member).elim apart (Nat.not_le.mpr older)
      refine ⟨v, .sequence ref, after, later ∪ {ref}, Engine.next_of_advance advanced, grew, holds,
        ?_, ?_⟩
      · rintro other (member | rfl)
        · exact (fresh other member).imp .inl id
        · exact .inl (.inr rfl)
      · exact ih further cell apart' (fun growing =>
          ⟨further.grows (growing.weaken fun _ out owns => out (.inl owns)),
            growing.store.sequences ref _ (fun out => out (.inr rfl)) cell⟩)
          (present_insert further.present cell) rfl

/-! ## Ranges of integers -/

theorem supplies_range {numbers : List Int} {last : SequenceState}
    (there : session.store.sequences[ref]? = some ⟨label, state, false⟩)
    (isRange : state.isRange = true) (pulls : state.Pulls (numbers.map Value.int) last)
    (ends : closed = true → last.pull = .ok none) :
    Supplies desc lower.deeper.next closed {ref} session (.sequence ref)
      (numbers.map desc.number) := by
  have present : session.Present {ref} := by
    rintro other rfl
    exact (Array.getElem?_eq_some_iff.mp there).1
  induction numbers generalizing session state with
  | nil =>
      cases pulls
      refine ⟨present, fun isClosed now growing => ?_⟩
      have there' := growing.store.sequences ref _ (fun out => out rfl) there
      have advanced : (lower.deeper.advance ref).runOn now = _ :=
        runOn_advance_none lower there' ⟨.inl isRange, rfl⟩ (ends isClosed)
      exact ⟨_, Engine.next_of_advance advanced, withState_grows now ref .finished⟩
  | cons n rest ih =>
      cases pulls with
      | @cons _ next _ _ _ pulled further =>
          refine ⟨present, fun now growing => ?_⟩
          have there' := growing.store.sequences ref _ (fun out => out rfl) there
          have advanced : (lower.deeper.advance ref).runOn now = _ :=
            runOn_advance_some lower there' rfl pulled
          have moved := withState_grows now ref next
          refine ⟨.int n, .sequence ref, _, {ref}, Engine.next_of_advance advanced, moved,
            desc.holds_number _ n, fun _ member => .inl member, ?_⟩
          refine ih (Store.sequence_withState there') (SequenceState.isRange_of_pull pulled).2 further ?_
          rintro other rfl
          exact Nat.lt_of_lt_of_le (Array.getElem?_eq_some_iff.mp there').1 moved.store.more

end LazySequence

theorem Engine.supplies_ended (engine : Engine) (session : Session) :
    Supplies desc engine.next true ∅ session .ended [] :=
  ⟨fun _ => False.elim, fun _ now _ => ⟨now, rfl, .refl ∅ now⟩⟩

end ShellLisp
