import ShellLisp.Editor
import ShellLisp.Proofs.Indexing.Definitions
import ShellLisp.Proofs.Indexing.Diagnostics
import ShellLisp.Proofs.Parsing.Pieces

/-!
# What is shown over definitions

The index counts lines by newlines, as the lexer does, and the editor cuts a text into lines at every
line boundary. Over the name of a definition the editor finds that name, and describes the
definition, where the two rules agree on the lines up to there, where the white space before the name
is such that it ends words, and where the name has no second dollar sign in front.
-/

namespace ShellLisp
open Text

/-! ## Lines -/

/-- A text whose lines end in newlines only, or in carriage returns directly before them. -/
def OnlyNewlines (text : List Char) : Prop :=
  ∀ front c back, text = front ++ c :: back → isLineEnd c = true →
    c = '\n' ∨ c = '\r' ∧ back.head? = some '\n'

theorem onlyNewlines_of_forall {text : List Char} (all : ∀ c ∈ text, isLineEnd c = true → c = '\n') :
    OnlyNewlines text := by
  rintro front c back rfl ends
  exact .inl (all c (by simp) ends)

theorem OnlyNewlines.behind (front : List Char) {back : List Char} (only : OnlyNewlines (front ++ back)) :
    OnlyNewlines back := by
  rintro before c rest rfl ends
  exact only (front ++ before) c rest (by simp) ends

theorem OnlyNewlines.noLineEnd {text : List Char} (only : OnlyNewlines text) (oneLine : '\n' ∉ text) :
    ∀ c ∈ text, isLineEnd c = false := by
  intro c member
  obtain ⟨front, back, rfl⟩ := List.append_of_mem member
  rw [Bool.eq_false_iff]
  intro ends
  rcases only front c back rfl ends with rfl | ⟨-, next⟩
  · exact oneLine member
  · obtain ⟨rest, rfl⟩ := List.head?_eq_some_iff.mp next
    exact oneLine (by simp)

theorem collectLines_lines {lines : List Char} (only : OnlyNewlines (lines ++ ['\n']))
    (line : List Char) : ∃ more, more.length = lines.count '\n' + 1 ∧
      ∀ rest, collectLines (lines ++ '\n' :: rest) line [] = more ++ collectLines rest [] [] := by
  -- The open line grows by what is no line end, and every newline ends one line.
  induction lines generalizing line with
  | nil =>
      refine ⟨[line.reverse], rfl, fun rest => ?_⟩
      rw [List.nil_append, collectLines_newline, collectLines_found]
      rfl
  | cons c lines ih =>
      have later : OnlyNewlines (lines ++ ['\n']) := only.behind [c]
      by_cases carriage : c = '\r'
      · -- The newline that follows ends the line.
        subst carriage
        obtain ⟨more, length, collects⟩ := ih later line
        refine ⟨more, by simpa using length, fun rest => ?_⟩
        rw [← collects rest]
        have next : (lines ++ ['\n']).head? = some '\n' :=
          ((only [] '\r' _ rfl (by decide)).resolve_left (by decide)).2
        cases lines with
        | nil => exact collectLines_return rest line []
        | cons first others =>
            cases next
            exact collectLines_return _ line []
      · cases ends : isLineEnd c with
        | true =>
            obtain rfl : c = '\n' := (only [] c _ rfl ends).resolve_right fun both => carriage both.1
            obtain ⟨more, length, collects⟩ := ih later []
            refine ⟨line.reverse :: more, by simp [length], fun rest => ?_⟩
            rw [List.cons_append, collectLines_newline, collectLines_found, collects rest]
            rfl
        | false =>
            obtain ⟨more, length, collects⟩ := ih later (c :: line)
            refine ⟨more, ?_, fun rest => ?_⟩
            · have other : c ≠ '\n' := by rintro rfl; cases ends
              simpa [List.count_cons_of_ne other] using length
            · rw [List.cons_append, collectLines_inside ends, collects rest]

theorem collectLines_open {line : List Char} (open_ : line ≠ []) (rest : List Char) :
    ∃ more, more <+: rest ∧ (collectLines rest line []).head? = some (line.reverse ++ more) := by
  induction rest generalizing line with
  | nil =>
      refine ⟨[], List.prefix_rfl, ?_⟩
      rw [collectLines, if_neg (by simp [open_])]
      simp
  | cons c rest ih =>
      by_cases pair : c = '\r' ∧ rest.head? = some '\n'
      · obtain ⟨rfl, next⟩ := pair
        obtain ⟨more, rfl⟩ := List.head?_eq_some_iff.mp next
        refine ⟨[], List.nil_prefix, ?_⟩
        rw [collectLines_return, collectLines_newline, collectLines_found]
        simp
      · have single : c = '\r' → rest.head? ≠ some '\n' := fun same next => pair ⟨same, next⟩
        cases ends : isLineEnd c with
        | true =>
            refine ⟨[], List.nil_prefix, ?_⟩
            rw [collectLines_lineEnd ends single, collectLines_found]
            simp
        | false =>
            obtain ⟨more, starts, head⟩ := ih (List.cons_ne_nil c line)
            refine ⟨c :: more, List.cons_prefix_cons.mpr ⟨rfl, starts⟩, ?_⟩
            rw [collectLines_inside ends, head]
            simp

/-- The line of a text around some characters, and their column in it, are those that their place
says, where lines end in newlines only. -/
theorem line_of_place {before word : List Char} (only : OnlyNewlines (before ++ word))
    (oneLine : '\n' ∉ word) (filled : word ≠ []) (after : List Char) :
    ∃ start more, more <+: after ∧ (∀ c ∈ start.getLast?, c ∈ before.getLast?) ∧
      start.length = (placeBehind before).column - 1 ∧
      (lines (before ++ (word ++ after)))[(placeBehind before).line - 1]? =
        some (start ++ (word ++ more)) := by
  have open_ : ∀ start : List Char, '\n' ∉ start → OnlyNewlines (start ++ word) →
      ∃ more, more <+: after ∧
        (lines (start ++ (word ++ after))).head? = some (start ++ (word ++ more)) := by
    intro start single only
    have inside := only.noLineEnd (by simp [single, oneLine])
    obtain ⟨more, starts, head⟩ :=
      collectLines_open (show (start ++ word).reverse ≠ [] by simp [filled]) after
    refine ⟨more, starts, ?_⟩
    rw [lines, ← List.append_assoc, collectLines_oneLine inside, List.append_nil, head]
    simp
  -- The first line starts with the text; any other starts behind the last newline in front.
  rcases lastLine_cases before with single | ⟨earlier, last, rfl, single⟩
  · obtain ⟨more, starts, head⟩ := open_ before single only
    refine ⟨before, more, starts, fun c member => member, ?_, ?_⟩
    · rw [placeBehind_oneLine single, Nat.add_sub_cancel]
    · rw [placeBehind_oneLine single, ← head, List.head?_eq_getElem?]
      rfl
  · have behind : OnlyNewlines (last ++ word) := by
      refine OnlyNewlines.behind (earlier ++ ['\n']) ?_
      simpa using only
    have ahead : OnlyNewlines (earlier ++ ['\n']) := by
      rintro front c back same ends
      refine (only front c (back ++ (last ++ word)) ?_ ends).imp_right fun ⟨carriage, next⟩ => ?_
      · rw [← List.cons_append, ← List.append_assoc, ← same]
        simp
      · refine ⟨carriage, ?_⟩
        cases back with
        | nil =>
            -- The last character here is the newline itself.
            have final := congrArg List.getLast? same
            simp [carriage] at final
        | cons first rest => exact next
    obtain ⟨found, length, collects⟩ := collectLines_lines ahead []
    obtain ⟨more, starts, head⟩ := open_ last single behind
    refine ⟨last, more, starts, fun c member => ?_, ?_, ?_⟩
    · have some : last ≠ [] := by rintro rfl; cases member
      rwa [List.getLast?_append_of_ne_nil _ (List.cons_ne_nil _ _), List.getLast?_cons_of_ne_nil some]
    · rw [placeBehind_lines single, Nat.add_sub_cancel]
    · rw [placeBehind_lines single, lines, List.append_assoc, List.cons_append, collects,
        Nat.add_sub_assoc (by omega), ← length, List.getElem?_append_right (Nat.le_refl _),
        Nat.sub_self, ← head, List.head?_eq_getElem?]
      rfl

/-! ## Words -/

theorem separatesWords_eq : separatesWords = isWordBreak := by
  funext c
  simp only [separatesWords, isWordBreak, List.contains_eq_mem, List.mem_cons, List.not_mem_nil,
    or_false, decide_eq_decide]
  grind

theorem wordAround_start {start word more : List Char} (inside : ∀ c ∈ word, separatesWords c = false)
    (before : ∀ c ∈ start.getLast?, separatesWords c = true)
    (behind : ∀ c ∈ more.head?, separatesWords c = true) :
    wordAround (start ++ (word ++ more)) start.length = word := by
  have nothing : start.reverse.takeWhile (!separatesWords ·) = [] := by
    cases shape : start.reverse with
    | nil => rfl
    | cons c rest =>
        have last : c ∈ start.getLast? := by rw [List.getLast?_eq_head?_reverse, shape]; rfl
        exact List.takeWhile_cons_of_neg (by simp [before c last])
  have rest : more.takeWhile (!separatesWords ·) = [] := by
    cases more with
    | nil => rfl
    | cons c rest => exact List.takeWhile_cons_of_neg (by simp [behind c rfl])
  rw [wordAround, List.take_left, List.drop_left, nothing,
    List.takeWhile_append_of_pos fun c member => by simp [inside c member], rest]
  simp

/-! ## Where definitions are written -/

theorem Sliced.of_append {before text : List Char} {front tokens : List Token}
    (sliced : Sliced before text (front ++ tokens)) :
    ∃ earlier behind, text = earlier ++ behind ∧ Sliced (before ++ earlier) behind tokens := by
  induction front generalizing before text with
  | nil => exact ⟨[], text, rfl, by simpa using sliced⟩
  | cons token front ih =>
      cases sliced with
      | @token before gap slice rest lexeme others skipped spelled later =>
          obtain ⟨earlier, behind, rfl, further⟩ := ih later
          exact ⟨gap ++ (slice ++ earlier), behind, by simp, by simpa using further⟩

theorem isBlank_of_skipped {gap rest : List Char} (skipped : Skipped gap rest)
    (stops : ∀ c ∈ rest.head?, c ≠ '\n') (some : rest ≠ []) : ∀ c ∈ gap.getLast?, isBlank c = true := by
  induction skipped with
  | nothing => rintro c ⟨⟩
  | @blank c gap rest is later ih =>
      cases gap with
      | nil => rintro _ ⟨⟩; exact is
      | cons next others =>
          rw [List.getLast?_cons_of_ne_nil (List.cons_ne_nil _ _)]
          exact ih stops some
  | @comment text gap rest oneLine wholeLine later ih =>
      cases gap with
      | nil =>
          -- A comment goes on to the end of its line, which no token starts with.
          obtain ⟨c, behind, rfl⟩ := List.exists_cons_of_ne_nil some
          exact absurd (wholeLine c rfl) (stops c rfl)
      | cons next others =>
          rw [← List.cons_append, List.getLast?_append_of_ne_nil _ (List.cons_ne_nil _ _)]
          exact ih stops some

theorem ofTokens?_eq_some {tokens : List Token} {entry : SymbolEntry}
    (found : SymbolEntry.ofTokens? tokens = some entry) :
    ∃ opening head place rest, tokens = opening :: head :: ⟨.variable entry.name, place⟩ :: rest ∧
      (head.lexeme = .word "def" ∨ head.lexeme = .word "defn") ∧
      (entry.line, entry.column) = place.zeroBased := by
  unfold SymbolEntry.ofTokens? at found
  split at found
  · rename_i opening head name rest
    split at found
    · rename_i kind text bracket word named
      cases found
      refine ⟨opening, head, name.place, rest, ?_, ?_, rfl⟩
      · obtain ⟨lexeme, place⟩ := name
        cases named
        rfl
      · unfold SymbolKind.ofWord? at word
        split at word
        · rename_i written same
          rw [same]
          split at word
          · rename_i is
            exact .inl (congrArg Lexeme.word is)
          · split at word
            · rename_i is
              exact .inr (congrArg Lexeme.word is)
            · cases word
        · cases word
    · cases found
  · cases found

theorem mem_of_mem_latest {entries : List SymbolEntry} {entry : SymbolEntry}
    (member : entry ∈ SymbolEntry.latest entries) : entry ∈ entries := by
  obtain ⟨name, -, found⟩ := List.mem_filterMap.mp member
  simpa using List.mem_of_find?_eq_some found

theorem find?_latest {entries : List SymbolEntry} {entry : SymbolEntry}
    (member : entry ∈ SymbolEntry.latest entries) :
    (SymbolEntry.latest entries).find? (·.name = entry.name) = some entry := by
  have unique : ∀ e ∈ SymbolEntry.latest entries,
      entries.reverse.find? (·.name = e.name) = some e := by
    intro e among
    obtain ⟨name, -, found⟩ := List.mem_filterMap.mp among
    obtain rfl : e.name = name := by simpa using List.find?_some found
    exact found
  cases search : (SymbolEntry.latest entries).find? (·.name = entry.name) with
  | none => exact absurd (decide_eq_true rfl) (List.find?_eq_none.mp search entry member)
  | some e =>
      have same : e.name = entry.name := by simpa using List.find?_some search
      have last := unique e (List.mem_of_find?_eq_some search)
      rw [same, unique entry member] at last
      exact last.symm

theorem collectSymbols_eq_latest (tokens : List Token) :
    collectSymbols [] tokens = SymbolEntry.latest (Token.definitions tokens) := by
  rw [collectSymbols_eq_foldl, foldl_putSymbol]

theorem sliced_of_lexTolerant {source : String} {tokens : List Token}
    (lexed : Token.lexTolerant source.toList = .ok tokens) :
    ∃ shown hidden, source.toList = shown ++ hidden ∧ Sliced [] shown tokens ∧
      ∀ c ∈ hidden.head?, isWordBreak c = true := by
  have outcome := lexTolerant_outcome source
  cases whole : Token.lex source with
  | ok found =>
      rw [whole] at outcome
      obtain rfl := Except.ok.inj (lexed.symm.trans outcome)
      exact ⟨source.toList, [], by simp, (lex_sliced whole).1, nofun⟩
  | error failure =>
      rw [whole] at outcome
      cases failure with
      | problem problem =>
          obtain ⟨kept, before, quote, rest, unclosed, -, tolerant⟩ := outcome
          have earlier : Token.lex (String.ofList before) = .ok tokens := by
            rw [Token.lex, String.toList_ofList, unclosed.lexChars_before, ← tolerant, lexed]
          refine ⟨before, quote :: rest, unclosed.whole, ?_, ?_⟩
          · have sliced := (lex_sliced earlier).1
            rwa [String.toList_ofList] at sliced
          · rintro _ ⟨⟩
            rcases unclosed.isQuote with rfl | rfl <;> decide
      | _ =>
          rw [outcome.1] at lexed
          cases lexed

theorem Document.exists_tokens {text : String} {document : Document}
    (opened : Document.ofText text = .ok document) :
    document.text = text ∧ ∃ tokens, Token.lexTolerant text.toList = .ok tokens ∧
      document.index.symbols = SymbolEntry.latest (Token.definitions tokens) := by
  unfold Document.ofText at opened
  cases indexed : DocumentIndex.ofText text with
  | error failure => rw [indexed] at opened; cases opened
  | ok index =>
      rw [indexed] at opened
      cases opened
      refine ⟨rfl, ?_⟩
      unfold DocumentIndex.ofText at indexed
      obtain ⟨tokens, lexed, rest⟩ := exists_of_bind_ok indexed
      refine ⟨tokens, lexed, ?_⟩
      rw [← collectSymbols_eq_latest]
      dsimp only at rest
      split at rest <;> cases rest <;> rfl

/-- A symbol's name stands in the text with its dollar sign, at the place that the index has, behind
white space and in front of something that ends words. -/
theorem Document.exists_written {text : String} {document : Document}
    (opened : Document.ofText text = .ok document) {entry : SymbolEntry}
    (member : entry ∈ document.index.symbols) :
    ∃ before after, text.toList = before ++ ('$' :: entry.name.toList ++ after) ∧
      (entry.line, entry.column) = (placeBehind before).zeroBased ∧
      (∃ last ∈ before.getLast?, isBlank last = true) ∧
      (∀ c ∈ '$' :: entry.name.toList, isWordBreak c = false) ∧
      ∀ c ∈ after.head?, isWordBreak c = true := by
  obtain ⟨-, tokens, lexed, symbols⟩ := Document.exists_tokens opened
  rw [symbols] at member
  obtain ⟨tail, suffix, found⟩ := List.mem_filterMap.mp (mem_of_mem_latest member)
  obtain ⟨front, rfl⟩ := (List.mem_tails _ _).mp suffix
  obtain ⟨opening, head, place, rest, rfl, defines, place_eq⟩ := ofTokens?_eq_some found
  obtain ⟨shown, hidden, whole, sliced, broken⟩ := sliced_of_lexTolerant lexed
  obtain ⟨earlier, behind, rfl, fromOpening⟩ := sliced.of_append
  cases fromOpening with
  | @token _ gap slice _ _ _ _ _ fromHead =>
  cases fromHead with
  | @token _ headGap headSlice _ headLexeme _ _ headSpelled fromName =>
  cases fromName with
  | @token _ nameGap nameSlice after _ _ skipped spelled _ =>
  -- The name is a word that starts with a dollar sign and goes on to the end of the word.
  obtain ⟨rfl, unbroken, longest⟩ : nameSlice = '$' :: entry.name.toList ∧
      (∀ c ∈ entry.name.toList, isWordBreak c = false) ∧
      ∀ c ∈ after.head?, isWordBreak c = true := by
    cases spelled with
    | word starts unbroken longest read spelling =>
        obtain ⟨rfl, rfl⟩ := List.cons.inj (Option.some.inj spelling)
        exact ⟨rfl, unbroken, longest⟩
  -- The word in front of the gap ends there, so the gap is not empty.
  have apart : nameGap ≠ [] := by
    rintro rfl
    have word : ∀ text, headLexeme = .word text → text ∉ operators →
        ∀ c ∈ ([] ++ ('$' :: entry.name.toList ++ after)).head?, isWordBreak c = true := by
      rintro text rfl other
      cases headSpelled with
      | operator is => exact absurd is other
      | word starts unbroken longest => exact longest
    have dollar : isWordBreak '$' = true := by
      rcases defines with same | same
      · exact word "def" same (by decide) '$' rfl
      · exact word "defn" same (by decide) '$' rfl
    cases dollar
  have blank : ∀ c ∈ nameGap.getLast?, isBlank c = true := by
    refine isBlank_of_skipped skipped ?_ (by simp)
    rintro _ ⟨⟩
    decide
  refine ⟨[] ++ earlier ++ gap ++ slice ++ headGap ++ headSlice ++ nameGap, after ++ hidden, ?_,
    place_eq, ?_, ?_, ?_⟩
  · rw [whole]
    simp
  · obtain ⟨last, is⟩ := Option.isSome_iff_exists.mp (List.getLast?_isSome.mpr apart)
    exact ⟨last, by rw [List.getLast?_append_of_ne_nil _ apart, is]; rfl, blank last is⟩
  · exact List.forall_mem_cons.mpr ⟨by decide, unbroken⟩
  · cases after with
    | nil => exact broken
    | cons c others => exact longest

/-! ## What the editor shows -/

theorem no_library_dollar : ∀ entry ∈ librarySummaries, entry.1.toList.head? ≠ some '$' := by
  decide +kernel

theorem librarySummary?_dollar (name : String) : librarySummary? ("$" ++ name) = none := by
  rw [librarySummary?, List.lookup_eq_none_iff]
  intro entry member
  rw [bne_iff_ne]
  intro same
  refine no_library_dollar entry member ?_
  rw [← same, String.toList_append]
  rfl

theorem Document.describe?_symbol {document : Document} {text : String}
    (opened : Document.ofText text = .ok document) {entry : SymbolEntry}
    (member : entry ∈ document.index.symbols) (single : entry.name.toList.head? ≠ some '$') :
    document.describe? ("$" ++ entry.name) =
      some (entry.signature ++ ": " ++ entry.kind.name ++ " defined at " ++
        (Location.mk (entry.line + 1) (entry.column + 1)).text) := by
  obtain ⟨-, tokens, -, symbols⟩ := Document.exists_tokens opened
  have bare : ("$" ++ entry.name).toList.dropWhile (· = '$') = entry.name.toList := by
    rw [String.toList_append]
    refine (List.dropWhile_cons_of_pos (by decide)).trans ?_
    cases shape : entry.name.toList with
    | nil => rfl
    | cons c rest =>
        rw [shape] at single
        exact List.dropWhile_cons_of_neg (by simpa using single)
  rw [Document.describe?, librarySummary?_dollar]
  dsimp only
  rw [bare, String.ofList_toList, DocumentIndex.symbol?, symbols, find?_latest (symbols ▸ member)]
  rfl

/-- The name of every symbol stands in the document, with its dollar sign, where the index says. If
the lines up to there end in newlines only, and the white space before the name is a separator of
words, the word at that place is the name with its dollar sign; and if the name does not start with
another dollar sign, what is shown there is the symbol, with its place counted from one. -/
theorem Document.hover_symbol {text : String} {document : Document}
    (opened : Document.ofText text = .ok document) {entry : SymbolEntry}
    (member : entry ∈ document.index.symbols) :
    ∃ before after, text.toList = before ++ ('$' :: entry.name.toList ++ after) ∧
      entry.line = before.count '\n' ∧
      entry.column = (before.reverse.takeWhile (· ≠ '\n')).length ∧
      ∃ last ∈ before.getLast?, isBlank last = true ∧
        (OnlyNewlines (before ++ '$' :: entry.name.toList) → separatesWords last = true →
          wordAt? text entry.line entry.column = some ("$" ++ entry.name) ∧
            (entry.name.toList.head? ≠ some '$' →
              document.hover? entry.line entry.column =
                some (entry.signature ++ ": " ++ entry.kind.name ++ " defined at " ++
                  (Location.mk (entry.line + 1) (entry.column + 1)).text))) := by
  obtain ⟨before, after, whole, place, ⟨last, is, blank⟩, inside, stops⟩ :=
    Document.exists_written opened member
  have zeroBased : (placeBehind before).zeroBased =
      (before.count '\n', (before.reverse.takeWhile (· ≠ '\n')).length) := rfl
  rw [zeroBased, Prod.mk.injEq] at place
  refine ⟨before, after, whole, place.1, place.2, last, is, blank, fun only separates => ?_⟩
  have word : wordAt? text entry.line entry.column = some ("$" ++ entry.name) := by
    have oneLine : '\n' ∉ '$' :: entry.name.toList := fun newline =>
      absurd (inside _ newline) (by decide)
    obtain ⟨start, more, further, ended, column, line⟩ :=
      line_of_place only oneLine (List.cons_ne_nil _ _) after
    rw [← separatesWords_eq] at inside stops
    -- The name goes on to the next separator on both sides: before it there is one.
    have around : wordAround (start ++ ('$' :: entry.name.toList ++ more)) start.length =
        '$' :: entry.name.toList := by
      refine wordAround_start inside (fun c there => ?_) fun c there => ?_
      · obtain rfl := Option.some.inj ((ended c there).symm.trans is)
        exact separates
      · cases more with
        | nil => cases there
        | cons first rest =>
            obtain ⟨behind, rfl⟩ := further
            exact stops c there
    have here : (lines text.toList)[entry.line]? =
        some (start ++ ('$' :: entry.name.toList ++ more)) := by
      rw [whole, place.1]
      exact line
    have there : entry.column = start.length := by rw [column, place.2]; rfl
    rw [wordAt?, here, there]
    dsimp only
    rw [around, List.isEmpty_cons, if_neg Bool.false_ne_true]
    refine congrArg some (String.toList_inj.mp ?_)
    rw [String.toList_ofList, String.toList_append]
    rfl
  refine ⟨word, fun single => ?_⟩
  rw [Document.hover?, (Document.exists_tokens opened).1, word]
  exact Document.describe?_symbol opened member single

/-- A function and a variable in it, on two lines. -/
theorem Document.hover_innerSymbol :
    let text := "(defn $f [$a]\n  (def $x $a))"
    ∃ document, Document.ofText text = .ok document ∧
      ⟨"x", .variable, 1, 7, []⟩ ∈ document.index.symbols ∧
      wordAt? text 1 7 = some "$x" ∧
      document.hover? 1 7 = some "$x: var defined at 2:8" := by
  intro text
  have opened : Document.ofText text = .ok ⟨text, ⟨[⟨"f", .function, 0, 6, ["a"]⟩,
      ⟨"x", .variable, 1, 7, []⟩], none⟩⟩ := by cbv
  have member : (⟨"x", .variable, 1, 7, []⟩ : SymbolEntry) ∈
      [⟨"f", .function, 0, 6, ["a"]⟩, ⟨"x", .variable, 1, 7, []⟩] := by decide
  obtain ⟨before, after, whole, -, -, last, is, blank, shown⟩ :=
    Document.hover_symbol opened member
  have plain : (text.toList.all fun c =>
      (!isLineEnd c || c = '\n') && (!isBlank c || separatesWords c)) = true := by cbv
  rw [List.all_eq_true] at plain
  have newlines : ∀ c ∈ text.toList, isLineEnd c = true → c = '\n' := fun c member ends => by
    simpa [ends] using (Bool.and_eq_true_iff.mp (plain c member)).1
  have separators : ∀ c ∈ text.toList, isBlank c = true → separatesWords c = true :=
    fun c member blank => by simpa [blank] using (Bool.and_eq_true_iff.mp (plain c member)).2
  have among : last ∈ text.toList := by
    rw [whole]
    exact List.mem_append_left _ (List.mem_of_getLast? is)
  obtain ⟨word, hover⟩ := shown
    (onlyNewlines_of_forall fun c member => newlines c (by
      rw [whole, ← List.append_assoc]
      exact List.mem_append_left _ member))
    (separators last among blank)
  exact ⟨_, opened, member, word, hover (by decide)⟩

/-- A form feed ends a line for the editor only, a space that does not break separates words for the
lexer only, and of two dollar signs the editor drops both. -/
theorem Document.hover_missed :
    (∃ document, Document.ofText "\x0c(def $x 1)" = .ok document ∧
      ⟨"x", .variable, 0, 6, []⟩ ∈ document.index.symbols ∧
      wordAt? document.text 0 6 = none ∧ document.hover? 0 6 = none) ∧
    (∃ document, Document.ofText "(def \u00a0$x 1)" = .ok document ∧
      ⟨"x", .variable, 0, 6, []⟩ ∈ document.index.symbols ∧
      wordAt? document.text 0 6 = some "\u00a0$x" ∧ document.hover? 0 6 = none) ∧
    ∃ document, Document.ofText "(def $$x 1)" = .ok document ∧
      ⟨"$x", .variable, 0, 5, []⟩ ∈ document.index.symbols ∧
      wordAt? document.text 0 5 = some "$$x" ∧ document.hover? 0 5 = none :=
  ⟨⟨⟨"\x0c(def $x 1)", ⟨[⟨"x", .variable, 0, 6, []⟩], none⟩⟩, by cbv, by decide, by cbv, by cbv⟩,
    ⟨⟨"(def \u00a0$x 1)", ⟨[⟨"x", .variable, 0, 6, []⟩], none⟩⟩, by cbv, by decide, by cbv, by cbv⟩,
    ⟨⟨"(def $$x 1)", ⟨[⟨"$x", .variable, 0, 5, []⟩], none⟩⟩, by cbv, by decide, by cbv, by cbv⟩⟩

end ShellLisp
