import ShellLisp.Proofs.Reading.Grammar
import ShellLisp.Proofs.Reading.Legible
import ShellLisp.Proofs.Reading.Places

/-!
# Reading what was written

The written form of a tree that was read, before or after the passes, is read as the same tree, its
places aside, as long as its brackets are not nested too deep.
-/

namespace ShellLisp.Expr

/-! ## Trees that differ in places only -/

theorem sameAll_of_map {first second : List Expr}
    (each : ∀ b ∈ second, ∀ a : Expr, a.placeless = b.placeless → a.same b = true)
    (equal : first.map placeless = second.map placeless) : sameAll first second = true := by
  induction second generalizing first with
  | nil =>
      cases first with
      | nil => rfl
      | cons a rest => cases equal
  | cons b others ih =>
      cases first with
      | nil => cases equal
      | cons a rest =>
          obtain ⟨head, tail⟩ := List.cons.inj equal
          rw [sameAll, each b (by simp) a head, ih (fun x member => each x (by simp [member])) tail]
          rfl

theorem same_of_placeless {a b : Expr} (selfSame : b.Everywhere SelfSame)
    (equal : a.placeless = b.placeless) : a.same b = true := by
  induction b using Expr.induction generalizing a with
  | call place body ih =>
      obtain ⟨-, below⟩ := everywhere_call.mp selfSame
      cases a <;>
        simp only [placeless, placelessAll_eq_map, Expr.call.injEq, reduceCtorEq] at equal
      exact sameAll_of_map (fun b member a => ih b member (below b member)) equal.2
  | array place body ih =>
      obtain ⟨-, below⟩ := everywhere_array.mp selfSame
      cases a <;>
        simp only [placeless, placelessAll_eq_map, Expr.array.injEq, reduceCtorEq] at equal
      exact sameAll_of_map (fun b member a => ih b member (below b member)) equal.2
  | map place body ih =>
      obtain ⟨-, below⟩ := everywhere_map.mp selfSame
      cases a <;>
        simp only [placeless, placelessAll_eq_map, Expr.map.injEq, reduceCtorEq] at equal
      exact sameAll_of_map (fun b member a => ih b member (below b member)) equal.2
  | value place literal =>
      have self := everywhere_value.mp selfSame
      cases a <;> cases equal
      exact self
  | command place name => cases a <;> cases equal; simp [same]
  | reference place name => cases a <;> cases equal; simp [same]

/-! ## What a written tree shows -/

theorem isBareWord_shown (e : Expr) : e.shown.isBareWord = e.isBareWord := by
  cases e with
  | value place literal => cases literal <;> rfl
  | _ => rfl

theorem shown_of_unmarked {e : Expr} (plain : e.Everywhere fun node => node.kind ≠ .command) :
    e.shown = e.placeless := by
  induction e using Expr.induction with
  | call place body ih =>
      obtain ⟨-, below⟩ := everywhere_call.mp plain
      rw [shown, placeless, shownAll_eq_map, placelessAll_eq_map,
        List.map_congr_left fun e member => ih e member (below e member)]
  | array place body ih =>
      obtain ⟨-, below⟩ := everywhere_array.mp plain
      rw [shown, placeless, shownAll_eq_map, placelessAll_eq_map,
        List.map_congr_left fun e member => ih e member (below e member)]
  | map place body ih =>
      obtain ⟨-, below⟩ := everywhere_map.mp plain
      rw [shown, placeless, shownAll_eq_map, placelessAll_eq_map,
        List.map_congr_left fun e member => ih e member (below e member)]
  | value place literal => rfl
  | command place name => exact absurd rfl (everywhere_command.mp plain)
  | reference place name => rfl

/-- The commands that writing hides are found again at the heads of calls. -/
theorem withCommands_shown {e : Expr} (placed : e.Placed) :
    e.shown.withCommands = e.withCommands.placeless := by
  induction e using Expr.induction with
  | call place body ih =>
      obtain ⟨node, below⟩ := everywhere_call.mp placed.2
      rw [shown, withCommands, withCommands, placeless, shownAll_eq_map, withCommandsAll_eq_map,
        withCommandsAll_eq_map, placelessAll_eq_map, List.map_map]
      cases body with
      | nil => rfl
      | cons head rest =>
          have others : rest.map (withCommands ∘ shown) =
              (rest.map withCommands).map placeless := by
            rw [List.map_map]
            exact List.map_congr_left fun e member =>
              ih e (by simp [member]) ⟨node e member, below e (by simp [member])⟩
          have first : head.shown.withCommands.asHead = head.withCommands.asHead.placeless := by
            -- Only at the head may a command stand: there the word that is written becomes one
            -- again.
            by_cases command : head.kind = .command
            · cases head <;> first | rfl | cases command
            · rw [ih head (by simp) ⟨command, below head (by simp)⟩, asHead_placeless]
          rw [List.map_cons, List.map_cons, markHead_cons, markHead_cons, List.map_cons, others]
          simp only [Function.comp_apply, first]
  | array place body ih =>
      obtain ⟨node, below⟩ := everywhere_array.mp placed.2
      simp only [shown, withCommands, placeless, shownAll_eq_map, withCommandsAll_eq_map,
        placelessAll_eq_map, List.map_map]
      congr 1
      exact List.map_congr_left fun e member => ih e member ⟨node e member, below e member⟩
  | map place body ih =>
      obtain ⟨node, below⟩ := everywhere_map.mp placed.2
      simp only [shown, withCommands, placeless, shownAll_eq_map, withCommandsAll_eq_map,
        placelessAll_eq_map, List.map_map]
      congr 1
      exact List.map_congr_left fun e member => ih e member ⟨node e member, below e member⟩
  | value place literal => cases literal <;> rfl
  | command place name => exact absurd rfl placed.1
  | reference place name => rfl

/-! ## Reading the written form -/

theorem deepest_of_lexemes {e : Expr} {tokens : List Token}
    (said : Token.lexemes tokens = e.lexemes) : deepest 0 (Token.lexemes tokens) = e.nesting := by
  have nested := e.deepest_lexemes 0 []
  rw [List.append_nil, ← said] at nested
  rw [nested, Nat.zero_add]
  exact Nat.max_eq_left (Nat.zero_le _)

/-- A text that is lexed as the brackets and leaves of a tree is parsed as what the tree shows. -/
theorem ofSource_of_lexemes {source : String} {tokens : List Token} {e : Expr}
    (lexed : Token.lex source = .ok tokens) (said : Token.lexemes tokens = e.lexemes)
    (legible : e.Everywhere Legible) (long : e.isBareWord = false)
    (shallow : e.nesting ≤ depthLimits.brackets) :
    ∃ found, ofSource source = .ok (some found) ∧ found.placeless = e.shown := by
  obtain ⟨found, same, reads⟩ :=
    readAs_lexemes (fun node member => (legible node member).counted) said
  refine ⟨found, ?_, same⟩
  have plain : found.isBareWord = false := by
    rw [← isBareWord_placeless, same, isBareWord_shown, long]
  rw [ofSource, lexed]
  simp only [bind, Except.bind]
  rw [parseWithin_eq_parse (newlinesOutside_lex lexed) (deepest_of_lexemes said ▸ shallow), parse,
    reads]
  simp [bind, Except.bind, ofParsing, Parsing.add, Parsing.start, Parsing.finishedLines, statement,
    plain, program]

theorem ofSource_of_lexemes_of_deep {source : String} {tokens : List Token} {e : Expr}
    (lexed : Token.lex source = .ok tokens) (said : Token.lexemes tokens = e.lexemes)
    (legible : e.Everywhere Legible) (deep : depthLimits.brackets < e.nesting) :
    ofSource source = .error .tooDeep := by
  have row := row_lexemes fun node member => (legible node member).counted
  rw [ofSource, lexed]
  exact parseWithin_of_row (newlinesOutside_lex lexed) (spoken_of_lexemes said ▸ row)
    (deepest_of_lexemes said ▸ deep)

theorem ofSource_text {e : Expr} (legible : e.Everywhere Legible) (long : e.isBareWord = false)
    (shallow : e.nesting ≤ depthLimits.brackets) :
    ∃ found, ofSource e.text = .ok (some found) ∧ found.placeless = e.shown := by
  obtain ⟨tokens, lexed, said⟩ := lex_text fun node member => (legible node member).spelled
  exact ofSource_of_lexemes lexed said legible long shallow

theorem ofSource_text_of_deep {e : Expr} (legible : e.Everywhere Legible)
    (deep : depthLimits.brackets < e.nesting) : ofSource e.text = .error .tooDeep := by
  obtain ⟨tokens, lexed, said⟩ := lex_text fun node member => (legible node member).spelled
  exact ofSource_of_lexemes_of_deep lexed said legible deep

theorem exists_of_follows {α β : Type} {change : α → β} {first : Except Failure α}
    {second : Except Failure β} {b : β} (follows : Follows change first second)
    (done : second = .ok b) : ∃ a, first = .ok a ∧ change a = b := by
  subst done
  cases first with
  | error failure => cases follows
  | ok a => exact ⟨a, rfl, (Option.some.inj follows).symm⟩

theorem desugar_shown {e found tree : Expr} (placed : e.Placed) (same : found.placeless = e.shown)
    (done : e.desugar = .ok tree) :
    ∃ again, found.desugar = .ok again ∧ again.placeless = tree.placeless := by
  refine exists_of_follows (follows_desugar found) ?_
  have marked : found.placeless.withCommands = e.placeless.withCommands := by
    rw [same, withCommands_shown placed, withCommands_placeless]
  rw [desugar_eq_of_withCommands marked]
  exact (follows_desugar e).exists_ok done

theorem read_of_ofSource {source : String} {e tree : Expr} (parsed : ofSource source = .ok (some e))
    (done : e.desugar = .ok tree) : read source = .ok (some tree) := by
  rw [read, parsed]
  simp only [bind, Except.bind, done]
  rfl

theorem read_text_of_desugar {e tree : Expr} (legible : e.Everywhere Legible)
    (long : e.isBareWord = false) (placed : e.Placed) (done : e.desugar = .ok tree)
    (shallow : e.nesting ≤ depthLimits.brackets) :
    ∃ again, read e.text = .ok (some again) ∧ again.placeless = tree.placeless := by
  obtain ⟨found, parsed, same⟩ := ofSource_text legible long shallow
  obtain ⟨again, desugared, equal⟩ := desugar_shown placed same done
  exact ⟨again, read_of_ofSource parsed desugared, equal⟩

theorem read_text_of_deep {e : Expr} (legible : e.Everywhere Legible)
    (deep : depthLimits.brackets < e.nesting) : read e.text = .error .tooDeep := by
  rw [read, ofSource_text_of_deep legible deep]
  rfl

/-! ## Programs -/

theorem isBareWord_statement {line : List Expr} : (statement line).isBareWord = false := by
  unfold statement
  split
  · rename_i e
    cases word : e.isBareWord with
    | true => rfl
    | false => simpa using word
  · rfl

theorem legible_statement {line : List Expr} (some : line ≠ [])
    (items : ∀ e ∈ line, e.Everywhere Legible) : (statement line).Everywhere Legible := by
  unfold statement
  split
  · split
    · exact legible_call some items
    · exact items _ (by simp)
  · exact legible_call some items

theorem unmarked_statement {line : List Expr}
    (items : ∀ e ∈ line, e.Everywhere fun node => node.kind ≠ .command) :
    (statement line).Everywhere fun node => node.kind ≠ .command := by
  unfold statement
  split
  · split
    · exact everywhere_call.mpr ⟨nofun, items⟩
    · exact items _ (by simp)
  · exact everywhere_call.mpr ⟨nofun, items⟩

theorem legible_of_ofSource {source : String} {e : Expr} (parsed : ofSource source = .ok (some e)) :
    e.Everywhere Legible ∧ e.isBareWord = false := by
  unfold ofSource at parsed
  obtain ⟨tokens, lexed, done⟩ := exists_of_bind_ok parsed
  have outcome := parseWithin_outcome forms_unmarked depthLimits.brackets (leaves_unmarked lexed)
    (newlinesOutside_lex lexed)
  rw [done] at outcome
  obtain ⟨-, lines, filled, program, -⟩ := outcome
  have statements : ∀ item ∈ lines.map statement,
      item.Everywhere Legible ∧ item.isBareWord = false := by
    refine List.forall_mem_map.mpr fun line member => ⟨?_, isBareWord_statement⟩
    obtain ⟨some, unmarked⟩ := filled line member
    exact legible_statement some fun e inside node below => (unmarked e inside node below).1
  unfold Expr.program at program
  split at program
  · cases program
  · rename_i single
    cases program
    exact statements e (by simp [single])
  · rename_i first rest _ several
    cases program
    refine ⟨legible_call (List.cons_ne_nil _ _) ?_, rfl⟩
    refine List.forall_mem_cons.mpr ⟨legible_sequenceName .nowhere, fun item member => ?_⟩
    exact (statements item (several ▸ member)).1

theorem lines_step {state after : Parsing} {token : Token}
    (plain : token.lexeme.isNewline = false) (done : state.step token = .ok after) :
    after.lines = state.lines := by
  have lines_add : ∀ (state : Parsing) (e : Expr), (state.add e).lines = state.lines := by
    intro state e
    unfold Parsing.add
    split <;> rfl
  unfold Parsing.step at done
  split at done
  · unfold Parsing.bracket at done
    split at done
    · cases done
      rfl
    · split at done
      · split at done
        · rename_i form outer _ _
          cases action : form.close with
          | error failure => simp [action, Except.map] at done
          | ok e =>
              simp only [action, Except.map, Except.ok.injEq] at done
              rw [← done, lines_add]
        · cases done
      · cases done
  · rename_i newline
    rw [newline] at plain
    cases plain
  · split at done <;> cases done
    · exact lines_add _ _
    · rfl

theorem lines_foldlM_step {tokens : List Token} {state after : Parsing}
    (plain : ∀ token ∈ tokens, token.lexeme.isNewline = false)
    (done : tokens.foldlM Parsing.step state = .ok after) : after.lines = state.lines := by
  induction tokens generalizing state with
  | nil =>
      cases done
      rfl
  | cons token rest ih =>
      obtain ⟨first, others⟩ := List.forall_mem_cons.mp plain
      rw [List.foldlM_cons] at done
      obtain ⟨next, step, later⟩ := exists_of_bind_ok done
      rw [ih others later, lines_step first step]

theorem unmarked_of_single {source : String} {tokens : List Token}
    (lexed : Token.lex source = .ok tokens)
    (plain : ∀ token ∈ tokens, token.lexeme.isNewline = false) {e : Expr}
    (parsed : ofSource source = .ok (some e)) :
    e.Everywhere fun node => node.kind ≠ .command := by
  rw [ofSource, lexed] at parsed
  have run := Parsing.foldlM_stepWithin_outcome forms_unmarked depthLimits.brackets .start
    (leaves_unmarked lexed) (newlinesOutside_lex lexed)
  obtain ⟨state, action, ended⟩ :=
    exists_of_bind_ok (show parseWithin depthLimits.brackets tokens = .ok (some e) from parsed)
  rw [action] at run
  obtain ⟨formed, -⟩ := run
  have single := lines_foldlM_step plain (foldlM_step_of_stepWithin action)
  obtain ⟨forms, line, lines⟩ := state
  cases single
  have items : ∀ e ∈ line.reverse, e.Everywhere fun node => node.kind ≠ .command :=
    fun e member node below => (formed.line e (List.mem_reverse.mp member) node below).2
  unfold ofParsing at ended
  split at ended
  · cases ended
  · simp only [Except.ok.injEq, Parsing.finishedLines, List.reverse_cons, List.reverse_nil,
      List.nil_append, List.map_cons, List.map_nil] at ended
    cases line with
    | nil => cases ended
    | cons last before =>
        rw [List.filter_cons_of_pos (by simp), List.filter_nil] at ended
        cases ended
        exact unmarked_statement items

/-! ## The passes make no bare word -/

theorem isBareWord_memberLookup {place : Location} {name : String} {tree : Expr}
    (done : memberLookup place name = .ok tree) : tree.isBareWord = false := by
  unfold memberLookup at done
  split at done
  · cases done
  · dsimp only at done
    split at done
    · cases done
    · obtain ⟨path, -, made⟩ := exists_of_bind_ok done
      cases made
      rfl

theorem isBareWord_withMembers {e tree : Expr} (long : e.isBareWord = false)
    (done : e.withMembers = .ok tree) : tree.isBareWord = false := by
  cases e with
  | call place body =>
      unfold withMembers at done
      split at done
      · split at done <;> obtain ⟨_, -, rest⟩ := exists_of_bind_ok done <;>
          obtain ⟨_, -, made⟩ := exists_of_bind_ok rest <;> cases made <;> rfl
      · obtain ⟨_, -, made⟩ := exists_of_bind_ok done
        cases made
        rfl
      all_goals contradiction
  | array place body =>
      obtain ⟨_, -, made⟩ := exists_of_bind_ok done
      cases made
      rfl
  | map place body =>
      obtain ⟨_, -, made⟩ := exists_of_bind_ok done
      cases made
      rfl
  | value place literal =>
      cases done
      exact long
  | command place name => cases long
  | «variable» place name =>
      rw [withMembers] at done
      split at done
      · exact isBareWord_memberLookup done
      · cases done
        rfl

theorem isBareWord_desugar {e tree : Expr} (long : e.isBareWord = false)
    (done : e.desugar = .ok tree) : tree.isBareWord = false := by
  obtain ⟨piped, read, pipes, members, -, rfl⟩ := stages_of_desugar done
  have joined : piped.isBareWord = false := by
    rw [eq_grouped_of_withPipes pipes, isBareWord_grouped, isBareWord_withCommands, long]
  have resolved := isBareWord_withMembers joined members
  rwa [isBareWord, bareWord?_withSequences]

/-! ## The statement -/

/-- What is written for a program's tree, before or after the passes, is read as the program is,
unless its brackets are nested too deep. The tree of a single line is parsed as it was written. -/
theorem read_text {source : String} {tree : Expr} (done : read source = .ok (some tree)) :
    ∃ parsed, ofSource source = .ok (some parsed) ∧
      (∀ e ∈ [parsed, tree],
        if e.nesting ≤ depthLimits.brackets then
          ∃ again, read e.text = .ok (some again) ∧ again.placeless = tree.placeless ∧
            again.same tree = true
        else read e.text = .error .tooDeep) ∧
      ∀ tokens, Token.lex source = .ok tokens →
        (∀ token ∈ tokens, token.lexeme.isNewline = false) →
        parsed.nesting ≤ depthLimits.brackets →
        ∃ again, ofSource parsed.text = .ok (some again) ∧ again.placeless = parsed.placeless ∧
          again.same parsed = true := by
  unfold read at done
  obtain ⟨result, parsing, rest⟩ := exists_of_bind_ok done
  cases result with
  | none => cases rest
  | some parsed =>
      obtain ⟨found, desugared, made⟩ := exists_of_bind_ok rest
      cases made
      obtain ⟨legible, long⟩ := legible_of_ofSource parsing
      have placed := placed_of_ofSource parsing
      have treeLegible := legible_desugar legible desugared
      obtain ⟨⟨kind, normal⟩, height⟩ := normal_of_desugar placed desugared
      have treePlaced : tree.Placed := ⟨kind, fun node below => (normal node below).commands⟩
      have selfSame : tree.Everywhere SelfSame := fun node below => (treeLegible node below).same
      have written : ∀ e : Expr, e.Everywhere Legible → e.isBareWord = false → e.Placed →
          e.desugar = .ok tree →
          if e.nesting ≤ depthLimits.brackets then
            ∃ again, read e.text = .ok (some again) ∧ again.placeless = tree.placeless ∧
              again.same tree = true
          else read e.text = .error .tooDeep := by
        intro e legible long placed desugared
        split
        · rename_i shallow
          obtain ⟨again, readAgain, equal⟩ :=
            read_text_of_desugar legible long placed desugared shallow
          exact ⟨again, readAgain, equal, same_of_placeless selfSame equal⟩
        · rename_i deep
          exact read_text_of_deep legible (Nat.lt_of_not_le deep)
      refine ⟨parsed, parsing, ?_, ?_⟩
      · refine List.forall_mem_cons.mpr ⟨written parsed legible long placed desugared, ?_⟩
        refine List.forall_mem_singleton.mpr (written tree treeLegible ?_ treePlaced ?_)
        · exact isBareWord_desugar long desugared
        · exact desugar_of_normal normal height
      · intro tokens lexed plain shallow
        obtain ⟨again, parsedAgain, shows⟩ := ofSource_text legible long shallow
        rw [shown_of_unmarked (unmarked_of_single lexed plain parsing)] at shows
        exact ⟨again, parsedAgain, shows,
          same_of_placeless (fun node below => (legible node below).same) shows⟩

theorem pipedProgram_read_again :
    read "ls $a.b | f ; g ; (.k $x)" = .ok (some pipedProgram) ∧
      ∃ again, read pipedProgram.text = .ok (some again) ∧ again.same pipedProgram = true := by
  have done : read "ls $a.b | f ; g ; (.k $x)" = .ok (some pipedProgram) := by cbv
  obtain ⟨parsed, -, written, -⟩ := read_text done
  have tree := written pipedProgram (by simp)
  rw [if_pos (by decide)] at tree
  obtain ⟨again, readAgain, -, same⟩ := tree
  exact ⟨done, again, readAgain, same⟩

/-! ## A line that is read and whose tree is too deep to be read again -/

/-- The items of `a | a | … | a` with so many operators. -/
def pipeline (count : Nat) : List Expr :=
  .value .nowhere (.word "a") ::
    (List.replicate count
      [.value .nowhere (.word "|"), .value .nowhere (.word "a")]).flatten

def piped : Nat → Expr
  | 0 => .call .nowhere [.command .nowhere "a"]
  | count + 1 => .call .nowhere [.command .nowhere "a", piped count]

theorem pipeline_succ (count : Nat) :
    pipeline (count + 1) =
      pipeline count ++ [.value .nowhere (.word "|"), .value .nowhere (.word "a")] := by
  simp [pipeline, List.replicate_succ']

theorem mem_pipeline {count : Nat} {e : Expr} (member : e ∈ pipeline count) :
    e = .value .nowhere (.word "a") ∨ e = .value .nowhere (.word "|") := by
  induction count with
  | zero => exact .inl (List.mem_singleton.mp member)
  | succ count ih =>
      rw [pipeline_succ] at member
      rcases List.mem_append.mp member with before | last
      · exact ih before
      · simp only [List.mem_cons, List.not_mem_nil, or_false] at last
        exact last.symm

theorem legible_pipeline {count : Nat} : ∀ e ∈ pipeline count, e.Everywhere Legible := by
  intro e member
  rcases mem_pipeline member with rfl | rfl
  · have spelled : Spells ['a'] (.word "a") := spells_word (by decide) nofun (by cbv)
    exact everywhere_value.mpr ⟨trivial, spelled, by simp [SelfSame, Literal.same]⟩
  · obtain ⟨spelled, same⟩ := @readBack_operator "|" (by decide) .nowhere _ rfl
    exact everywhere_value.mpr ⟨trivial, spelled, same⟩

theorem splitLast?_append {place : Location} {name : String} {e : Expr}
    (operator : operators.contains name = true) (item : e.operator? = none) (left : List Expr) :
    splitLast? (left ++ [.value place (.word name), e]) = some ⟨left, place, name, [e]⟩ := by
  induction left with
  | nil =>
      have last : (Expr.value place (.word name)).operator? = some name := by
        simpa [operator?, bareWord?] using operator
      simp only [List.nil_append, splitLast?, item, last, Option.map_some, Option.map_none]
      rfl
  | cons e rest ih => rw [List.cons_append, splitLast?, ih]

theorem regroup_pipeline (count : Nat) :
    regroup (markHead (pipeline (count + 1))) =
      .ok [.command .nowhere "a", .call .nowhere (markHead (pipeline count))] := by
  have last : markHead (pipeline (count + 1)) = markHead (pipeline count) ++
      [.value .nowhere (.word "|"), .value .nowhere (.word "a")] := by
    rw [pipeline_succ]
    rfl
  have left : group (markHead (pipeline count)) .nowhere =
      .call .nowhere (markHead (pipeline count)) := by
    cases count <;> rfl
  have filled : (markHead (pipeline count)).isEmpty = false := rfl
  rw [last, regroup, splitLast?_append rfl rfl]
  simp only [filled, Bool.false_eq_true, if_false, List.isEmpty_cons]
  rw [Split.items, left]
  rfl

theorem withPipes_pipeline (count : Nat) :
    withPipes (.call .nowhere (markHead (pipeline count))) = .ok (piped count) := by
  induction count with
  | zero =>
      have single : regroup (markHead (pipeline 0)) = .ok [.command .nowhere "a"] := rfl
      rw [withPipes_call, single]
      simp only [bind, Except.bind, List.mapM_cons, List.mapM_nil, withPipes]
      rfl
  | succ count ih =>
      rw [withPipes_call, regroup_pipeline]
      simp only [bind, Except.bind, List.mapM_cons, List.mapM_nil, ih, withPipes]
      rfl

theorem normal_piped (count : Nat) : (piped count).Everywhere NodeNormal := by
  have head : (Expr.command .nowhere "a").Everywhere NodeNormal :=
    everywhere_command.mpr ⟨trivial, trivial, trivial, ⟨by decide, by decide⟩,
      sequenceFlat_of_none rfl⟩
  induction count with
  | zero =>
      refine everywhere_call.mpr ⟨⟨nofun, ?_, ?_, trivial, sequenceFlat_of_none rfl⟩,
        List.forall_mem_singleton.mpr head⟩
      · rintro _ ⟨⟩ _
        rfl
      · exact List.forall_mem_singleton.mpr rfl
  | succ count ih =>
      have inner : (piped count).operator? = none ∧ (piped count).kind ≠ .command := by
        cases count <;> exact ⟨rfl, nofun⟩
      refine everywhere_call.mpr ⟨⟨List.forall_mem_singleton.mpr inner.2, ?_, ?_, trivial,
        sequenceFlat_of_none rfl⟩,
        List.forall_mem_cons.mpr ⟨head, List.forall_mem_singleton.mpr ih⟩⟩
      · rintro _ ⟨⟩ _
        rfl
      · exact List.forall_mem_cons.mpr ⟨rfl, List.forall_mem_singleton.mpr inner.1⟩

theorem height_piped (count : Nat) : (piped count).height = count + 2 := by
  induction count with
  | zero => rfl
  | succ count ih =>
      simp only [piped, height, heightAll, ih]
      omega

theorem nesting_piped (count : Nat) : (piped count).nesting = count + 1 := by
  induction count with
  | zero => rfl
  | succ count ih =>
      simp only [piped, nesting, nestingAll, ih]
      omega

theorem withCommands_pipeline (count : Nat) :
    (Expr.call .nowhere (pipeline count)).withCommands =
      .call .nowhere (markHead (pipeline count)) := by
  rw [withCommands, withCommandsAll_eq_map, map_eq_self]
  intro e member
  rcases mem_pipeline member with rfl | rfl <;> rfl

theorem desugar_pipeline {count : Nat} (shallow : count + 2 ≤ depthLimits.trees) :
    (Expr.call .nowhere (pipeline count)).desugar = .ok (piped count) := by
  have fits : (piped count).checkDepth depthLimits.trees = .ok (piped count) := by
    rw [checkDepth, height_piped, if_neg (by omega)]
  simp only [desugar, passes, withPipesWithin, withMembersWithin, withCommands_pipeline,
    withPipes_pipeline, fits, withMembers_of_normal (normal_piped count),
    withSequences_of_normal (normal_piped count), bind, Except.bind, pure, Except.pure]

theorem nesting_placeless (e : Expr) : e.placeless.nesting = e.nesting := by
  have row : ∀ body : List Expr, (∀ e ∈ body, e.placeless.nesting = e.nesting) →
      nestingAll (body.map placeless) = nestingAll body := by
    intro body each
    induction body with
    | nil => rfl
    | cons e rest ih =>
        rw [List.map_cons, nestingAll, nestingAll, each e (by simp),
          ih fun x member => each x (by simp [member])]
  induction e using Expr.induction with
  | call place body ih => rw [placeless, placelessAll_eq_map, nesting, nesting, row body ih]
  | array place body ih => rw [placeless, placelessAll_eq_map, nesting, nesting, row body ih]
  | map place body ih => rw [placeless, placelessAll_eq_map, nesting, nesting, row body ih]
  | value place literal => rfl
  | command place name => rfl
  | reference place name => rfl

theorem bodyChars_pipeline (count : Nat) :
    bodyChars (pipeline count) =
      'a' :: (List.replicate count [' ', '|', ' ', 'a']).flatten := by
  have rest : restChars (List.replicate count
        [.value .nowhere (.word "|"), .value .nowhere (.word "a")]).flatten =
      (List.replicate count [' ', '|', ' ', 'a']).flatten := by
    induction count with
    | zero => rfl
    | succ count ih =>
        rw [List.replicate_succ, List.flatten_cons, List.replicate_succ, List.flatten_cons, ← ih]
        rfl
  rw [pipeline, bodyChars, rest]
  rfl

theorem addAll_outside (line : List Expr) (lines : List (List Expr)) (items : List Expr) :
    Parsing.addAll ⟨[], line, lines⟩ items = ⟨[], items.reverse ++ line, lines⟩ := by
  induction items generalizing line with
  | nil => rfl
  | cons e rest ih =>
      show Parsing.addAll ⟨[], e :: line, lines⟩ rest = _
      rw [ih]
      simp

theorem nestingAll_of_flat {body : List Expr} (flat : ∀ e ∈ body, e.nesting = 0) :
    nestingAll body = 0 := by
  induction body with
  | nil => rfl
  | cons e rest ih =>
      rw [nestingAll, flat e (by simp), ih fun x member => flat x (by simp [member])]
      rfl

theorem ofSource_bodyChars {body : List Expr} (filled : body ≠ [])
    (legible : ∀ e ∈ body, e.Everywhere Legible)
    (shallow : nestingAll body ≤ depthLimits.brackets) :
    ∃ items, ofSource (String.ofList (bodyChars body)) = .ok (some (statement items)) ∧
      items.map placeless = body.map shown := by
  have spoken := says_bodyChars (fun e member _ _ _ ends later =>
    says_chars (fun node below => (legible e member node below).spelled) ends later)
    ends_nil (.nil 0)
  rw [List.append_nil, List.append_nil] at spoken
  obtain ⟨tokens, lexed, said⟩ :=
    lex_of_says spoken (noNewline_lexemesAll fun e _ => e.noNewline_lexemes)
  obtain ⟨items, same, adds⟩ := readAs_row
    (fun e member _ => readAs_lexemes fun node below => (legible e member node below).counted) said
  have fits : deepest 0 (Token.lexemes tokens) ≤ depthLimits.brackets := by
    have nested : max 0 (deepest 0 (lexemesAll body ++ [])) =
        max (0 + nestingAll body) (deepest 0 []) :=
      deepest_lexemesAll (fun e _ => e.deepest_lexemes) 0 []
    rw [List.append_nil, ← said, Nat.zero_max] at nested
    rw [nested]
    exact Nat.max_le.mpr ⟨by omega, Nat.zero_le _⟩
  have line : items.isEmpty = false := by
    cases items with
    | nil => exact absurd (List.map_eq_nil_iff.mp same.symm) filled
    | cons => rfl
  refine ⟨items, ?_, same⟩
  rw [ofSource, lexed]
  simp only [bind, Except.bind]
  rw [parseWithin_eq_parse (newlinesOutside_lex lexed) fits, parse, adds, Parsing.start,
    addAll_outside]
  simp only [bind, Except.bind, ofParsing, Parsing.finishedLines, List.append_nil,
    List.reverse_cons, List.reverse_nil, List.nil_append, List.map_cons, List.map_nil,
    List.reverse_reverse]
  rw [List.filter_cons_of_pos (by simp [line]), List.filter_nil]
  rfl

theorem ofSource_pipeline (count : Nat) :
    ∃ found, ofSource (String.ofList (bodyChars (pipeline (count + 1)))) = .ok (some found) ∧
      found.placeless = .call .nowhere (pipeline (count + 1)) := by
  have flat : nestingAll (pipeline (count + 1)) = 0 := nestingAll_of_flat fun e member => by
    rcases mem_pipeline member with rfl | rfl <;> rfl
  have shown : (pipeline (count + 1)).map shown = pipeline (count + 1) := by
    refine map_eq_self fun e member => ?_
    rcases mem_pipeline member with rfl | rfl <;> rfl
  have filled : pipeline (count + 1) ≠ [] := List.cons_ne_nil _ _
  obtain ⟨items, parsed, same⟩ :=
    ofSource_bodyChars filled legible_pipeline (flat ▸ Nat.zero_le _)
  have several : statement items = .call ((items.head?.map place).getD .nowhere) items := by
    have length : items.length = (pipeline (count + 1)).length := by
      simpa using congrArg List.length same
    match items with
    | [] => cases length
    | [e] => simp [pipeline] at length
    | first :: second :: rest => rfl
  refine ⟨statement items, parsed, ?_⟩
  rw [several, placeless, placelessAll_eq_map, same, shown]

/-- A line of seven hundred pipes is read, and its tree is written with too many brackets. -/
theorem pipeline_not_read_again :
    let source := String.ofList ('a' :: (List.replicate 700 [' ', '|', ' ', 'a']).flatten)
    ∃ tree, read source = .ok (some tree) ∧ read tree.text = .error .tooDeep := by
  obtain ⟨parsed, parsing, same⟩ := ofSource_pipeline 699
  have desugared : parsed.placeless.desugar = .ok (piped 700) := by
    rw [same]
    exact desugar_pipeline (by decide)
  obtain ⟨tree, made, equal⟩ := exists_of_follows (follows_desugar parsed) desugared
  rw [bodyChars_pipeline] at parsing
  refine ⟨tree, read_of_ofSource parsing made, ?_⟩
  refine read_text_of_deep (legible_desugar (legible_of_ofSource parsing).1 made) ?_
  rw [← nesting_placeless, equal, nesting_piped]
  decide

end ShellLisp.Expr
