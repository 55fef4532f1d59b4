import ShellLisp.Proofs.Failing.Texts
import ShellLisp.Proofs.Reading.Joining
import ShellLisp.Proofs.Reading.Located
import ShellLisp.Proofs.Reading.Passes

/-!
# Where reading fails

Whatever text cannot be read, the problem is told at a place where something is written. Parsing puts
every expression at the place of one of its tokens, and the passes keep to the places they find; only
the function that joins the statements of a program stands nowhere, and nothing is ever wrong with it.
-/

namespace ShellLisp

variable {known : Location → Prop}

/-- A problem that reading a text may have, at a place that is known. -/
def Failure.Blames (known : Location → Prop) : Failure → Prop
  | .problem found => found.cause.kind ∈ [.reading, .type, .arity] ∧
      ∃ place, found.place = some place ∧ known place
  | _ => True

theorem Failure.blames_at {place : Location} {cause : Cause} (here : known place)
    (kind : cause.kind ∈ [ProblemKind.reading, .type, .arity]) :
    (Failure.at place cause).Blames known := ⟨kind, place, rfl, here⟩

theorem Failure.blames_reading {place : Location} {cause : Cause} (here : known place)
    (kind : cause.kind = .reading) : (Failure.at place cause).Blames known :=
  blames_at here (kind ▸ List.mem_cons_self)

/-! ## Results with a property -/

/-- A result whose value has one property, or whose failure has another. -/
structure Gives {α : Type} (good : α → Prop) (bad : Failure → Prop) (result : Except Failure α) :
    Prop where
  value : ∀ a, result = .ok a → good a
  failure : FailsOnly bad result

namespace Gives
variable {α β : Type} {good : α → Prop} {next : β → Prop} {bad : Failure → Prop}

theorem ok {a : α} (has : good a) : Gives good bad (.ok a) :=
  ⟨fun _ same => Except.ok.inj same ▸ has, .ok a⟩

theorem error {failure : Failure} (allowed : bad failure) :
    Gives good bad (.error failure : Except Failure α) :=
  ⟨by rintro _ ⟨⟩, .error allowed⟩

theorem ite {first second : Except Failure α} {condition : Prop} [Decidable condition]
    (whenTrue : condition → Gives good bad first) (whenFalse : ¬condition → Gives good bad second) :
    Gives good bad (if condition then first else second) := by
  split
  · rename_i holds
    exact whenTrue holds
  · rename_i fails
    exact whenFalse fails

theorem bind {first : Except Failure α} {then_ : α → Except Failure β}
    (gives : Gives good bad first) (each : ∀ a, good a → Gives next bad (then_ a)) :
    Gives next bad (first >>= then_) := by
  cases first with
  | ok a => exact each a (gives.value a rfl)
  | error failure => exact error (gives.failure failure rfl)

theorem mapM {items : List β} {action : β → Except Failure α}
    (each : ∀ item ∈ items, Gives good bad (action item)) :
    Gives (∀ a ∈ ·, good a) bad (items.mapM action) := by
  induction items with
  | nil => exact ok (List.forall_mem_nil _)
  | cons item rest ih =>
      rw [List.mapM_cons]
      refine (each item List.mem_cons_self).bind fun a has => ?_
      refine (ih fun other member => each other (List.mem_cons_of_mem _ member)).bind fun found all => ?_
      exact ok (List.forall_mem_cons.mpr ⟨has, all⟩)

end Gives

/-! ## Parsing -/

def Expr.Located (known : Location → Prop) : Expr → Prop := Expr.Everywhere fun node => known node.place

namespace Expr

theorem Located.here {e : Expr} (located : e.Located known) : known e.place :=
  located e e.self_mem_nodes

theorem located_call {place : Location} {body : List Expr} (here : known place)
    (inside : ∀ e ∈ body, e.Located known) : (Expr.call place body).Located known :=
  everywhere_call.mpr ⟨here, inside⟩

theorem located_ofForm {opener : Char} {place : Location} {body : List Expr} (here : known place)
    (inside : ∀ e ∈ body, e.Located known) : (ofForm opener place body).Located known := by
  unfold ofForm
  split
  · exact located_call here inside
  · split
    · exact everywhere_array.mpr ⟨here, inside⟩
    · exact everywhere_map.mpr ⟨here, inside⟩

theorem located_statement {row : List Expr} (filled : row ≠ [])
    (inside : ∀ e ∈ row, e.Located known) :
    (statement row).Located known ∧ (statement row).isBareWord = false := by
  rcases row with - | ⟨e, - | ⟨second, rest⟩⟩
  · exact absurd rfl filled
  · have located := inside e List.mem_cons_self
    rw [statement]
    split
    · exact ⟨located_call located.here (List.forall_mem_singleton.mpr located), rfl⟩
    · rename_i long
      exact ⟨located, by simpa using long⟩
  · have first := inside e List.mem_cons_self
    exact ⟨located_call first.here inside, rfl⟩

end Expr

theorem located_of_reads {tokens : List Token} {items : List Expr} (reads : Reads tokens items)
    (all : ∀ token ∈ tokens, known token.place) : ∀ e ∈ items, e.Located known := by
  induction reads with
  | nil => exact List.forall_mem_nil _
  | @leaf token rest e others leaf _ ih =>
      obtain ⟨first, later⟩ := List.forall_mem_cons.mp all
      refine List.forall_mem_cons.mpr ⟨everywhere_of_leaf? leaf ?_, ih later⟩
      rwa [place_of_leaf? leaf]
  | @form opener place closing inside rest body others _ _ _ innerIh laterIh =>
      obtain ⟨here, further⟩ := List.forall_mem_cons.mp all
      have inner := innerIh fun token member => further token (by simp [member])
      have later := laterIh fun token member => further token (by simp [member])
      exact List.forall_mem_cons.mpr ⟨Expr.located_ofForm here inner, later⟩

theorem located_of_readsLines {tokens : List Token} {items : List Expr}
    (reads : ReadsLines tokens items) (all : ∀ token ∈ tokens, known token.place) :
    ∀ e ∈ items, e.Located known := by
  induction reads with
  | nil => exact List.forall_mem_nil _
  | row _ row ih =>
      obtain ⟨before, here⟩ := List.forall_mem_append.mp all
      exact List.forall_mem_append.mpr ⟨ih before, located_of_reads row here⟩
  | newline _ _ ih => exact ih (List.forall_mem_append.mp all).1

namespace Parsing

/-- A step fails at the place of its token, or at that of the bracket that opened a form. -/
theorem step_blames {state : Parsing} {tokens : List Token} {token : Token}
    (read : state.ReadFrom tokens) (before : ∀ t ∈ tokens, known t.place) (here : known token.place) :
    FailsOnly (Failure.Blames known) (state.step token) := by
  have closes {form : OpenForm} (opened : known form.place) :
      FailsOnly (Failure.Blames known) form.close := by
    unfold OpenForm.close
    refine .ite (.ite (.error ?_) (.ok _)) (.ite (.ok _) (.ite (.error ?_) (.ok _)))
    all_goals exact Failure.blames_reading opened rfl
  unfold step
  split
  · unfold bracket
    refine .ite (.ok _) ?_
    cases read with
    | outside => exact .error (Failure.blames_reading here rfl)
    | @inside form outer line lines earlier inner opening around reads =>
        refine .ite (FailsOnly.map _ (closes ?_)) (.error (Failure.blames_reading here rfl))
        exact before ⟨.bracket form.opener, form.place⟩ (by simp)
  · unfold newline
    split
    · exact .ok _
    · exact .error (Failure.blames_reading here rfl)
  · split
    · exact .ok _
    · exact .ok _

theorem foldlM_stepWithin_blames (limit : Nat) {state : Parsing} {earlier tokens : List Token}
    (read : state.ReadFrom earlier) (before : ∀ t ∈ earlier, known t.place)
    (all : ∀ t ∈ tokens, known t.place) :
    Gives (fun after => after.ReadFrom (earlier ++ tokens)) (Failure.Blames known)
      (tokens.foldlM (stepWithin limit) state) := by
  induction tokens generalizing state earlier with
  | nil => exact .ok (by rwa [List.append_nil])
  | cons token rest ih =>
      obtain ⟨here, later⟩ := List.forall_mem_cons.mp all
      have step : Gives (fun after => after.ReadFrom (earlier ++ [token])) (Failure.Blames known)
          (state.stepWithin limit token) := by
        refine ⟨fun after done => read.step (stepWithin_ok done), ?_⟩
        exact (step_blames read before here).bind fun _ _ => .ite (.error trivial) (.ok _)
      rw [List.foldlM_cons]
      refine step.bind fun next reads => ?_
      have further := ih reads
        (List.forall_mem_append.mpr ⟨before, List.forall_mem_singleton.mpr here⟩) later
      rwa [List.append_assoc] at further

theorem finish_blames {state : Parsing} {tokens : List Token} (read : state.ReadFrom tokens)
    (all : ∀ t ∈ tokens, known t.place) :
    Gives (∀ e ∈ ·, e.Located known ∧ e.isBareWord = false) (Failure.Blames known)
      (state.finish (Expr.lastPlace tokens)) := by
  cases read with
  | @inside form outer line lines before inner opening around reads =>
      refine .error (Failure.blames_reading ?_ rfl)
      obtain ⟨last, same⟩ := Option.ne_none_iff_exists'.mp
        (by simp : (before ++ ⟨.bracket form.opener, form.place⟩ :: inner).getLast? ≠ none)
      rw [Expr.lastPlace, same]
      exact all last (List.mem_of_getLast? same)
  | @outside line lines _ reads =>
      have located := located_of_readsLines reads all
      refine .ok fun e member => ?_
      obtain ⟨row, inRows, rfl⟩ := List.mem_map.mp member
      obtain ⟨among, filled⟩ := List.mem_filter.mp inRows
      obtain ⟨items, inLines, rfl⟩ := List.mem_map.mp among
      refine Expr.located_statement (by simpa using filled) fun e inside => located e ?_
      exact List.mem_flatMap.mpr ⟨items, inLines, inside⟩

end Parsing

namespace Expr

/-! ## The passes over expressions -/

theorem located_markHead {body : List Expr} (inside : ∀ e ∈ body, e.Located known) :
    ∀ e ∈ markHead body, e.Located known := by
  unfold markHead
  split
  · obtain ⟨head, rest⟩ := List.forall_mem_cons.mp inside
    exact List.forall_mem_cons.mpr ⟨everywhere_command.mpr head.here, rest⟩
  · exact inside

theorem located_withCommands {e : Expr} (located : e.Located known) :
    e.withCommands.Located known := by
  induction e using Expr.induction with
  | call place body ih =>
      obtain ⟨here, inside⟩ := everywhere_call.mp located
      rw [withCommands, withCommandsAll_eq_map]
      exact located_call here (located_markHead
        (List.forall_mem_map.mpr fun e member => ih e member (inside e member)))
  | array place body ih =>
      obtain ⟨here, inside⟩ := everywhere_array.mp located
      rw [withCommands, withCommandsAll_eq_map]
      exact everywhere_array.mpr
        ⟨here, List.forall_mem_map.mpr fun e member => ih e member (inside e member)⟩
  | map place body ih =>
      obtain ⟨here, inside⟩ := everywhere_map.mp located
      rw [withCommands, withCommandsAll_eq_map]
      exact everywhere_map.mpr
        ⟨here, List.forall_mem_map.mpr fun e member => ih e member (inside e member)⟩
  | value | command | reference => simpa only [withCommands] using located

theorem located_group {items : List Expr} {place : Location} (here : known place)
    (inside : ∀ e ∈ items, e.Located known) : (group items place).Located known := by
  have start : known ((items.head?.map Expr.place).getD place) := by
    cases items with
    | nil => exact here
    | cons first rest => exact (inside first List.mem_cons_self).here
  have grouped := located_call start (located_markHead inside)
  unfold group
  split
  · split
    · exact grouped
    · exact inside _ List.mem_cons_self
  · exact grouped

theorem located_items {split : Split} (here : known split.place)
    (left : ∀ e ∈ split.left, e.Located known) (right : ∀ e ∈ split.right, e.Located known) :
    ∀ e ∈ split.items, e.Located known := by
  have before := located_group here left
  unfold Split.items
  dsimp only
  split
  · refine List.forall_mem_cons.mpr ⟨everywhere_command.mpr here, ?_⟩
    exact List.forall_mem_cons.mpr
      ⟨before, List.forall_mem_singleton.mpr (located_group here right)⟩
  · split
    · exact List.forall_mem_singleton.mpr before
    · rename_i target rest same
      rw [same] at right
      obtain ⟨first, others⟩ := List.forall_mem_cons.mp right
      split
      · exact located_markHead (List.forall_mem_cons.mpr
          ⟨first, List.forall_mem_cons.mpr ⟨before, others⟩⟩)
      · exact located_markHead (List.forall_mem_cons.mpr
          ⟨first, List.forall_mem_append.mpr ⟨others, List.forall_mem_singleton.mpr before⟩⟩)

theorem regroup_blames {body : List Expr} (inside : ∀ e ∈ body, e.Located known) :
    Gives (∀ e ∈ ·, e.Located known) (Failure.Blames known) (regroup body) := by
  unfold regroup
  split
  · exact .ok inside
  · rename_i split found
    obtain ⟨e, rfl, -, place⟩ := append_of_splitLast? found
    obtain ⟨left, behind⟩ := List.forall_mem_append.mp inside
    obtain ⟨item, right⟩ := List.forall_mem_cons.mp behind
    have here : known split.place := place ▸ item.here
    refine .ite (fun _ => .error (Failure.blames_reading here rfl)) fun _ => ?_
    refine .ite (fun _ => .error (Failure.blames_reading here rfl)) fun _ => ?_
    exact .ok (located_items here left right)

theorem withPipes_blames {e : Expr} (located : e.Located known) :
    Gives (Located known) (Failure.Blames known) e.withPipes := by
  induction size : e.size using Nat.strongRecOn generalizing e with
  | ind bound ih =>
      subst size
      cases e with
      | call place body =>
          obtain ⟨here, inside⟩ := everywhere_call.mp located
          rw [withPipes_call]
          have grouped := regroup_blames inside
          cases done : regroup body with
          | error failure => exact .error (grouped.failure failure done)
          | ok items =>
              refine (Gives.mapM fun e member => ?_).bind fun inner each =>
                .ok (located_call here each)
              exact ih e.size (size_mem_regroup place done member)
                (grouped.value items done e member) rfl
      | array place body =>
          obtain ⟨here, inside⟩ := everywhere_array.mp located
          rw [withPipes_array]
          refine (Gives.mapM fun e member => ?_).bind fun inner each =>
            .ok (everywhere_array.mpr ⟨here, each⟩)
          exact ih e.size (Nat.lt_succ_of_le (size_le_sizeAll member)) (inside e member) rfl
      | map place body =>
          obtain ⟨here, inside⟩ := everywhere_map.mp located
          rw [withPipes_map]
          refine (Gives.mapM fun e member => ?_).bind fun inner each =>
            .ok (everywhere_map.mpr ⟨here, each⟩)
          exact ih e.size (Nat.lt_succ_of_le (size_le_sizeAll member)) (inside e member) rfl
      | value | command | «variable» =>
          simp only [withPipes]
          exact .ok located

theorem keys_blames {place : Location} (here : known place) (parts : List String) :
    FailsOnly (Failure.Blames known) (keys place parts) :=
  .ite (.error (Failure.blames_at here (by decide))) (.ok _)

theorem memberLookup_blames {place : Location} (here : known place) (name : String) :
    FailsOnly (Failure.Blames known) (memberLookup place name) := by
  unfold memberLookup
  split
  · exact .error (Failure.blames_at here (by decide))
  · exact .ite (.error (Failure.blames_at here (by decide)))
      ((keys_blames here _).bind fun _ _ => .ok _)

theorem withMembers_blames {e : Expr} (located : e.Located known) :
    FailsOnly (Failure.Blames known) e.withMembers := by
  induction e using Expr.induction with
  | call place body ih =>
      obtain ⟨here, inside⟩ := everywhere_call.mp located
      rcases memberCall_or_other body with ⟨commandPlace, name, arguments, rfl, member⟩ | other
      · have head : known commandPlace := Located.here (inside _ List.mem_cons_self)
        rw [withMembers_call_of_member member]
        have items : FailsOnly (Failure.Blames known)
            (memberItems place commandPlace name arguments) :=
          .ite (.error (Failure.blames_at here (by simp [Cause.kind])))
            ((keys_blames head _).bind fun _ _ => .ok _)
        refine items.bind fun parts _ => ?_
        exact (FailsOnly.mapM fun e argument => ih e (List.mem_cons_of_mem _ argument)
          (inside e (List.mem_cons_of_mem _ argument))).bind fun inner _ => .ok _
      · rw [withMembers_call other]
        exact (FailsOnly.mapM fun e argument => ih e argument (inside e argument)).bind
          fun inner _ => .ok _
  | array place body ih =>
      obtain ⟨-, inside⟩ := everywhere_array.mp located
      rw [withMembers, withMembersAll_eq_mapM]
      exact (FailsOnly.mapM fun e member => ih e member (inside e member)).bind fun inner _ => .ok _
  | map place body ih =>
      obtain ⟨-, inside⟩ := everywhere_map.mp located
      rw [withMembers, withMembersAll_eq_mapM]
      exact (FailsOnly.mapM fun e member => ih e member (inside e member)).bind fun inner _ => .ok _
  | value place literal => exact .ok _
  | command place name =>
      rw [withMembers]
      exact .ite (memberLookup_blames located.here name) (.ok _)
  | reference place name =>
      rw [withMembers]
      exact .ite (memberLookup_blames located.here name) (.ok _)

/-! ## Programs -/

/-- A program whose statements have a property: one statement, or several under the function that
joins them, which stands nowhere. -/
inductive ProgramOf (known : Location → Prop) (good : Expr → Prop) : Expr → Prop
  | one {e : Expr} (is : good e) : ProgramOf known good e
  | several {place : Location} {statements : List Expr} (here : known place)
      (each : ∀ e ∈ statements, good e) :
      ProgramOf known good (.call place (.command .nowhere sequenceName :: statements))

def LocatedLine (known : Location → Prop) (e : Expr) : Prop :=
  e.Located known ∧ e.isBareWord = false

theorem programOf_program {statements : List Expr}
    (each : ∀ e ∈ statements, e.LocatedLine known) :
    ∀ e ∈ program statements, ProgramOf known (LocatedLine known) e := by
  rcases statements with - | ⟨first, - | ⟨second, rest⟩⟩
  · rintro _ ⟨⟩
  · rintro _ ⟨⟩
    exact .one (each first List.mem_cons_self)
  · rintro _ ⟨⟩
    exact .several (each first List.mem_cons_self).1.here each

theorem programOf_withCommands {e : Expr} (program : ProgramOf known (LocatedLine known) e) :
    ProgramOf known (LocatedLine known) e.withCommands := by
  have line {e : Expr} (is : e.LocatedLine known) : e.withCommands.LocatedLine known :=
    ⟨located_withCommands is.1, (isBareWord_withCommands e).trans is.2⟩
  cases program with
  | one is => exact .one (line is)
  | several here each =>
      have head : (Expr.command .nowhere sequenceName).withCommands =
          .command .nowhere sequenceName := by simp only [withCommands]
      rw [withCommands, withCommandsAll_eq_map, List.map_cons, head]
      exact .several here (List.forall_mem_map.mpr fun e member => line (each e member))

theorem programOf_withPipes {e : Expr} (program : ProgramOf known (LocatedLine known) e) :
    Gives (ProgramOf known (Located known)) (Failure.Blames known) e.withPipes := by
  cases program with
  | one is =>
      have gives := withPipes_blames is.1
      exact ⟨fun tree done => .one (gives.value tree done), gives.failure⟩
  | @several place statements here each =>
      -- No statement is an operator, so the joined statements are not split.
      have free : ∀ e ∈ .command .nowhere sequenceName :: statements, e.operator? = none := by
        refine List.forall_mem_cons.mpr ⟨rfl, fun e member => ?_⟩
        have long : e.bareWord? = none := by simpa [isBareWord] using (each e member).2
        rw [operator?, long]
        rfl
      have head : (Expr.command .nowhere sequenceName).withPipes =
          .ok (.command .nowhere sequenceName) := by simp only [withPipes]
      have items : Gives (fun items => ∃ rest, items = .command .nowhere sequenceName :: rest ∧
            ∀ e ∈ rest, e.Located known) (Failure.Blames known)
          ((.command .nowhere sequenceName :: statements).mapM withPipes) := by
        rw [List.mapM_cons, head]
        exact (Gives.mapM fun e member => withPipes_blames (each e member).1).bind
          fun rest located => .ok ⟨rest, rfl, located⟩
      rw [withPipes_call, regroup, splitLast?_eq_none free]
      refine items.bind fun inner is => .ok ?_
      obtain ⟨rest, rfl, located⟩ := is
      exact .several here located

theorem programOf_withMembers {e : Expr} (program : ProgramOf known (Located known) e) :
    FailsOnly (Failure.Blames known) e.withMembers := by
  cases program with
  | one is => exact withMembers_blames is
  | @several place statements here each =>
      have plain : isMemberCommand sequenceName = false := by decide
      have other : ∀ place name, (Expr.command .nowhere sequenceName :: statements).head? =
          some (.command place name) → isMemberCommand name = false := by
        rintro _ _ ⟨⟩
        exact plain
      rw [withMembers_call other]
      refine (FailsOnly.mapM fun e member => ?_).bind fun inner _ => .ok _
      rcases List.mem_cons.mp member with rfl | statement
      · exact .ok _
      · exact withMembers_blames (each e statement)

theorem desugar_blames {e : Expr} (program : ProgramOf known (LocatedLine known) e) :
    FailsOnly (Failure.Blames known) e.desugar := by
  have pipes : Gives (ProgramOf known (Located known)) (Failure.Blames known)
      (e.withCommands.withPipesWithin depthLimits.trees) :=
    (programOf_withPipes (programOf_withCommands program)).bind fun _ is =>
      .ite (fun _ => .error trivial) fun _ => .ok is
  have members {e : Expr} (is : ProgramOf known (Located known) e) :
      FailsOnly (Failure.Blames known) (e.withMembersWithin depthLimits.trees) :=
    (programOf_withMembers is).bind fun _ _ => .ite (.error trivial) (.ok _)
  have passes : FailsOnly (Failure.Blames known) e.passes :=
    pipes.failure.bind fun piped done => (members (pipes.value piped done)).bind fun _ _ => .ok _
  exact passes.bind fun stages _ => .ok stages.sequences

theorem statementsWithin_blames (limit : Nat) {tokens : List Token}
    (all : ∀ token ∈ tokens, known token.place) :
    Gives (∀ e ∈ ·, e.LocatedLine known) (Failure.Blames known) (statementsWithin limit tokens) :=
  (Parsing.foldlM_stepWithin_blames limit .start (List.forall_mem_nil _) all).bind
    fun _ read => Parsing.finish_blames read all

/-- Once a text is cut into tokens, it fails to be read at the place of one of them. -/
theorem read_blames {source : String} {tokens : List Token} (lexed : Token.lex source = .ok tokens)
    (all : ∀ token ∈ tokens, known token.place) :
    FailsOnly (Failure.Blames known) (read source) := by
  have statements : statementsOf source = statementsWithin depthLimits.brackets tokens := by
    rw [statementsOf, lexed]
    rfl
  have parses := statementsWithin_blames depthLimits.brackets all
  rw [← statements] at parses
  rw [read, ofSource_eq_program]
  refine (parses.failure.map program).bind fun found same => ?_
  cases found with
  | none => exact .ok none
  | some e =>
      cases done : statementsOf source with
      | error failure => rw [done] at same; cases same
      | ok lines =>
          rw [done] at same
          have is := programOf_program (parses.value lines done) e (Except.ok.inj same)
          exact (desugar_blames is).bind fun tree _ => .ok (some tree)

end Expr

end ShellLisp
