import ShellLisp.Index
import ShellLisp.Proofs.Failing.Texts
import ShellLisp.Proofs.Reading.Located
import ShellLisp.Proofs.Reading.RoundTrip

/-!
# Definitions in the tokens and in the tree

The index of a document looks for definitions at each opening bracket of a flat row of tokens. Here
the definitions of a tree are said by its nodes: forms in brackets of their own whose first item is
the word `def` or `defn` and whose second is a variable. Both find the same, in the same order, and
of several definitions of one name the index has the last, in the place of the first.
-/

namespace ShellLisp

/-! ## The definitions of a tree -/

def SymbolKind.ofHead? : Expr → Option SymbolKind
  | .value _ (.word text) =>
      if text = "def" then some .variable else if text = "defn" then some .function else none
  | _ => none

namespace Expr

def leadingNames : List Expr → List String
  | .variable _ name :: rest => name :: leadingNames rest
  | _ => []

/-- The parameters of a function: the variables that an array in the first place starts with. -/
def parameterNames : List Expr → List String
  | .array _ body :: _ => leadingNames body
  | _ => []

/-- What a form defines. A statement without brackets of its own has the place of its first item and
defines nothing. -/
def definition? : Expr → Option SymbolEntry
  | .call place (head :: .variable namePlace name :: rest) =>
      if place = head.place then none
      else (SymbolKind.ofHead? head).map fun kind =>
        { name, kind, line := namePlace.line - 1, column := namePlace.column - 1,
          parameters := if kind = .function then parameterNames rest else [] }
  | _ => none

/-- The definitions of a tree, those of a form before those inside it. -/
def definitions (e : Expr) : List SymbolEntry := e.nodes.filterMap definition?

def definitionsAll (items : List Expr) : List SymbolEntry := items.flatMap definitions

end Expr

/-- Each name in the place of its first definition, as its last definition says. -/
def SymbolEntry.latest (entries : List SymbolEntry) : List SymbolEntry :=
  (entries.map (·.name)).eraseDups.filterMap fun name => entries.reverse.find? (·.name = name)

/-! ## Putting symbols one by one -/

theorem eraseDups_concat (names : List String) (name : String) :
    (names ++ [name]).eraseDups =
      if name ∈ names then names.eraseDups else names.eraseDups ++ [name] := by
  rw [List.eraseDups_append]
  by_cases known : name ∈ names <;> simp [List.removeAll, List.eraseDups_cons, known]

theorem nodup_eraseDups (names : List String) : names.eraseDups.Nodup := by
  induction names using List.reverseRecOn with
  | nil => exact .nil
  | append_singleton names name ih =>
      rw [eraseDups_concat]
      split
      · exact ih
      · rename_i new
        exact ih.append (List.nodup_singleton name) (by simpa using new)

theorem putSymbol_filterMap {look : String → Option SymbolEntry} {names : List String}
    (distinct : names.Nodup) (named : ∀ name ∈ names, ∃ e, look name = some e ∧ e.name = name)
    (entry : SymbolEntry) :
    putSymbol entry (names.filterMap look) =
      (if entry.name ∈ names then names else names ++ [entry.name]).filterMap fun name =>
        if entry.name = name then some entry else look name := by
  induction names with
  | nil => simp [putSymbol]
  | cons name rest ih =>
      obtain ⟨e, found, same⟩ := named name (by simp)
      obtain ⟨absent, distinctRest⟩ := List.nodup_cons.mp distinct
      rw [List.filterMap_cons_some found, putSymbol, same]
      by_cases here : name = entry.name
      · subst here
        have others : rest.filterMap look = rest.filterMap fun name =>
            if entry.name = name then some entry else look name := by
          refine List.filterMap_congr fun name member => ?_
          rw [if_neg]
          rintro rfl
          exact absent member
        simp [others]
      · have other : ¬entry.name = name := fun back => here back.symm
        rw [if_neg here, ih distinctRest fun name member => named name (by simp [member])]
        by_cases known : entry.name ∈ rest <;> simp [known, other, found]

theorem latest_concat (entries : List SymbolEntry) (entry : SymbolEntry) :
    SymbolEntry.latest (entries ++ [entry]) = putSymbol entry (SymbolEntry.latest entries) := by
  have named : ∀ name ∈ (entries.map (·.name)).eraseDups,
      ∃ e, entries.reverse.find? (·.name = name) = some e ∧ e.name = name := by
    intro name member
    obtain ⟨e, among, rfl⟩ := List.mem_map.mp (List.mem_eraseDups.mp member)
    have found : (entries.reverse.find? (·.name = e.name)).isSome :=
      List.find?_isSome.mpr ⟨e, by simpa using among, by simp⟩
    obtain ⟨last, there⟩ := Option.isSome_iff_exists.mp found
    exact ⟨last, there, by simpa using List.find?_some there⟩
  rw [SymbolEntry.latest, SymbolEntry.latest, putSymbol_filterMap (nodup_eraseDups _) named,
    List.map_append, List.map_singleton, eraseDups_concat]
  simp only [List.mem_eraseDups]
  congr 1
  funext name
  by_cases here : entry.name = name <;> simp [here]
theorem foldl_putSymbol (entries : List SymbolEntry) :
    entries.foldl (fun found entry => putSymbol entry found) [] = SymbolEntry.latest entries := by
  induction entries using List.reverseRecOn with
  | nil => rfl
  | append_singleton entries entry ih => rw [List.foldl_concat, ih, latest_concat]

/-! ## Definitions among tokens -/

/-- The definitions that start somewhere in a row of tokens. -/
def Token.definitions (tokens : List Token) : List SymbolEntry :=
  tokens.tails.filterMap SymbolEntry.ofTokens?

theorem Token.definitions_cons (token : Token) (rest : List Token) :
    Token.definitions (token :: rest) =
      (SymbolEntry.ofTokens? (token :: rest)).toList ++ Token.definitions rest := by
  rw [definitions, List.tails, List.filterMap_cons]
  cases SymbolEntry.ofTokens? (token :: rest) <;> rfl

theorem collectSymbols_eq_foldl (found : List SymbolEntry) (tokens : List Token) :
    collectSymbols found tokens =
      (Token.definitions tokens).foldl (fun found entry => putSymbol entry found) found := by
  induction tokens generalizing found with
  | nil => rfl
  | cons token rest ih =>
      rw [collectSymbols, Token.definitions_cons]
      cases SymbolEntry.ofTokens? (token :: rest) with
      | none => exact ih found
      | some entry => exact ih (putSymbol entry found)

theorem ofTokens?_of_ne {opening : Token} (other : opening.lexeme ≠ .bracket '(')
    (rest : List Token) : SymbolEntry.ofTokens? (opening :: rest) = none := by
  unfold SymbolEntry.ofTokens?
  split
  · rename_i same
    cases same
    split
    · rename_i is _ _
      exact absurd is other
    · rfl
  · rfl

theorem ofTokens?_headless {head : Token} (other : SymbolKind.ofWord? head.lexeme = none)
    (opening : Token) (rest : List Token) :
    SymbolEntry.ofTokens? (opening :: head :: rest) = none := by
  cases rest with
  | nil => rfl
  | cons name rest =>
      simp only [SymbolEntry.ofTokens?, other]
      split
      · contradiction
      · rfl

theorem ofTokens?_nameless {name : Token} (other : ∀ text, name.lexeme ≠ .variable text)
    (opening head : Token) (rest : List Token) :
    SymbolEntry.ofTokens? (opening :: head :: name :: rest) = none := by
  simp only [SymbolEntry.ofTokens?]
  split
  · rename_i is
    exact absurd is (other _)
  · rfl

theorem ofTokens?_named {namePlace : Location} (counted : 0 < namePlace.line) (opening : Location)
    (head : Token) (text : String) (rest : List Token) :
    SymbolEntry.ofTokens?
        (⟨.bracket '(', opening⟩ :: head :: ⟨.variable text, namePlace⟩ :: rest) =
      (SymbolKind.ofWord? head.lexeme).map fun kind =>
        { name := text, kind, line := namePlace.line - 1, column := namePlace.column - 1,
          parameters := if kind = .function then leadingParameters rest else [] } := by
  have zeroBased : namePlace.zeroBased = (namePlace.line - 1, namePlace.column - 1) :=
    if_neg counted.ne'
  cases kind : SymbolKind.ofWord? head.lexeme with
  | none => exact ofTokens?_headless kind _ _
  | some kind => simp only [SymbolEntry.ofTokens?, kind, zeroBased, Option.map_some]

theorem ofHead?_of_leaf? {lexeme : Lexeme} {place : Location} {e : Expr}
    (leaf : lexeme.leaf? place = some e) : SymbolKind.ofHead? e = SymbolKind.ofWord? lexeme := by
  cases lexeme <;> cases leaf <;> rfl

theorem lexeme_ne_bracket {lexeme : Lexeme} {place : Location} {e : Expr}
    (leaf : lexeme.leaf? place = some e) (symbol : Char) : lexeme ≠ .bracket symbol := by
  rintro rfl
  cases leaf

namespace Expr

theorem definitionsAll_eq (items : List Expr) :
    definitionsAll items = (nodesAll items).filterMap definition? := by
  induction items with
  | nil => rfl
  | cons e rest ih =>
      rw [nodesAll, List.filterMap_append, ← ih]
      rfl

theorem definitionsAll_cons (e : Expr) (rest : List Expr) :
    definitionsAll (e :: rest) = e.definitions ++ definitionsAll rest := rfl

theorem definitionsAll_append (items others : List Expr) :
    definitionsAll (items ++ others) = definitionsAll items ++ definitionsAll others :=
  List.flatMap_append

theorem definitions_of_leaf? {lexeme : Lexeme} {place : Location} {e : Expr}
    (leaf : lexeme.leaf? place = some e) : e.definitions = [] := by
  cases lexeme <;> cases leaf <;> rfl

theorem definitions_of_nodes {e : Expr} {body : List Expr} (nodes : e.nodes = e :: nodesAll body) :
    e.definitions = e.definition?.toList ++ definitionsAll body := by
  rw [definitions, nodes, List.filterMap_cons, definitionsAll_eq]
  cases e.definition? <;> rfl

theorem definitions_call (place : Location) (body : List Expr) :
    (Expr.call place body).definitions =
      (Expr.call place body).definition?.toList ++ definitionsAll body :=
  definitions_of_nodes rfl

theorem definitions_ofForm (opener : Char) (place : Location) (body : List Expr) :
    (ofForm opener place body).definitions =
      (ofForm opener place body).definition?.toList ++ definitionsAll body := by
  refine definitions_of_nodes ?_
  unfold ofForm
  split
  · rfl
  · split <;> rfl

theorem definition?_of_place (first : Expr) (rest : List Expr) :
    (Expr.call first.place (first :: rest)).definition? = none := by
  cases rest with
  | nil => rfl
  | cons second rest =>
      cases second with
      | «variable» place name => simp [definition?]
      | _ => rfl

end Expr

theorem closerOf_ne_round (opener : Char) : closerOf opener ≠ '(' := by
  unfold closerOf
  split
  · decide
  · split <;> decide

section
variable {tokens : List Token} {items : List Expr} {closer : Char} {place : Location}
  {behind : List Token}

theorem leadingVariables_reads (reads : Reads tokens items) :
    leadingVariables (tokens ++ ⟨.bracket closer, place⟩ :: behind) = Expr.leadingNames items := by
  induction reads with
  | nil => rfl
  | @leaf token rest e others leaf _ ih =>
      obtain ⟨lexeme, tokenPlace⟩ := token
      cases lexeme <;> cases leaf
      case leaf.variable.refl name => exact congrArg (name :: ·) ih
      all_goals rfl
  | form opening =>
      rcases isOpening_iff.mp opening with rfl | rfl | rfl <;> rfl

theorem leadingParameters_reads (reads : Reads tokens items) :
    leadingParameters (tokens ++ ⟨.bracket ')', place⟩ :: behind) = Expr.parameterNames items := by
  cases reads with
  | nil => rfl
  | @leaf token rest e others leaf _ =>
      obtain ⟨lexeme, tokenPlace⟩ := token
      cases lexeme <;> cases leaf <;> rfl
  | form opening inner =>
      rcases isOpening_iff.mp opening with rfl | rfl | rfl
      · rfl
      · rw [List.cons_append, List.append_assoc]
        exact leadingVariables_reads inner
      · rfl

theorem ofHead?_ofForm (opener : Char) (place : Location) (body : List Expr) :
    SymbolKind.ofHead? (.ofForm opener place body) = none := by
  unfold Expr.ofForm
  split
  · rfl
  · split <;> rfl

theorem ofForm_ne_variable (opener : Char) (place : Location) (body : List Expr)
    (other : Location) (name : String) : Expr.ofForm opener place body ≠ .variable other name := by
  unfold Expr.ofForm
  split
  · nofun
  · split <;> nofun

theorem definition?_headless {head : Expr} (other : SymbolKind.ofHead? head = none)
    (opening : Location) (rest : List Expr) :
    (Expr.call opening (head :: rest)).definition? = none := by
  cases rest with
  | nil => rfl
  | cons second rest =>
      cases second with
      | «variable» place name => simp [Expr.definition?, other]
      | _ => rfl

theorem definition?_nameless {second : Expr} (other : ∀ place text, second ≠ .variable place text)
    (opening : Location) (head : Expr) (rest : List Expr) :
    (Expr.call opening (head :: second :: rest)).definition? = none := by
  cases second <;> first | rfl | exact absurd rfl (other _ _)

theorem ofTokens?_call {opening : Location} (reads : Reads tokens items)
    (ordered : Token.InOrder (⟨.bracket '(', opening⟩ :: tokens)) :
    SymbolEntry.ofTokens? (⟨.bracket '(', opening⟩ :: (tokens ++ ⟨.bracket ')', place⟩ :: behind)) =
      (Expr.call opening items).definition? := by
  obtain ⟨-, tokensOrdered, before⟩ := ordered.of_cons
  cases reads with
  | nil => exact ofTokens?_headless rfl _ _
  | form isOpener =>
      rw [List.cons_append, ofTokens?_headless rfl, definition?_headless (ofHead?_ofForm _ _ _)]
  | @leaf head rest e others leaf later =>
      have apart : opening ≠ e.place := by
        rw [place_of_leaf? leaf]
        exact (before head (by simp)).ne
      obtain ⟨-, restOrdered, -⟩ := tokensOrdered.of_cons
      cases later with
      | nil => exact ofTokens?_nameless (by simp) _ _ _
      | form opening =>
          rw [List.cons_append, List.cons_append, ofTokens?_nameless (by simp),
            definition?_nameless (ofForm_ne_variable _ _ _)]
      | @leaf name rest second others named later =>
          obtain ⟨lexeme, namePlace⟩ := name
          -- Behind a head and a name it is a definition, whose parameters are read from the form
          -- that follows.
          obtain ⟨counted, -, -⟩ := restOrdered.of_cons
          by_cases is : ∃ text, lexeme = .variable text
          · obtain ⟨text, rfl⟩ := is
            cases named
            rw [List.cons_append, List.cons_append, ofTokens?_named counted, Expr.definition?,
              if_neg apart, ofHead?_of_leaf? leaf, leadingParameters_reads later]
          · rw [List.cons_append, List.cons_append,
              ofTokens?_nameless fun text same => is ⟨text, same⟩,
              definition?_nameless]
            rintro place text rfl
            cases lexeme <;> cases named
            exact is ⟨_, rfl⟩

/-- The definitions that start among the tokens of some expressions are those of the expressions. -/
theorem definitions_reads (reads : Reads tokens items) (ordered : Token.InOrder tokens)
    (behind : List Token) :
    Token.definitions (tokens ++ behind) =
      Expr.definitionsAll items ++ Token.definitions behind := by
  induction reads generalizing behind with
  | nil => rfl
  | leaf leaf _ ih =>
      obtain ⟨-, restOrdered, -⟩ := ordered.of_cons
      rw [List.cons_append, Token.definitions_cons, ofTokens?_of_ne (lexeme_ne_bracket leaf '('),
        ih restOrdered, Expr.definitionsAll_cons, Expr.definitions_of_leaf? leaf]
      rfl
  | @form opener place closing inside rest body others opening inner _ innerIh laterIh =>
      have split : ⟨.bracket opener, place⟩ ::
          (inside ++ ⟨.bracket (closerOf opener), closing⟩ :: rest) =
          (⟨.bracket opener, place⟩ :: inside) ++ ⟨.bracket (closerOf opener), closing⟩ :: rest :=
        rfl
      rw [split] at ordered
      obtain ⟨formOrdered, closedOrdered⟩ := ordered.of_append
      obtain ⟨-, insideOrdered, -⟩ := formOrdered.of_cons
      obtain ⟨-, restOrdered, -⟩ := closedOrdered.of_cons
      have closed : SymbolEntry.ofTokens? (⟨.bracket (closerOf opener), closing⟩ :: (rest ++ behind)) =
          none := ofTokens?_of_ne (by simp [closerOf_ne_round]) _
      -- Only a round bracket opens a definition, and what it defines stands before its closing
      -- bracket.
      have formed : SymbolEntry.ofTokens? (⟨.bracket opener, place⟩ :: (inside ++
            ⟨.bracket (closerOf opener), closing⟩ :: (rest ++ behind))) =
          (Expr.ofForm opener place body).definition? := by
        rcases isOpening_iff.mp opening with rfl | rfl | rfl
        · exact ofTokens?_call inner formOrdered
        · exact ofTokens?_of_ne (by simp) _
        · exact ofTokens?_of_ne (by simp) _
      rw [List.cons_append, List.append_assoc, List.cons_append, Token.definitions_cons, formed,
        innerIh insideOrdered, Token.definitions_cons, closed, laterIh restOrdered,
        Expr.definitionsAll_cons, Expr.definitions_ofForm]
      simp

end

theorem definitions_readsLines {tokens : List Token} {items : List Expr}
    (reads : ReadsLines tokens items) (ordered : Token.InOrder tokens) (behind : List Token) :
    Token.definitions (tokens ++ behind) =
      Expr.definitionsAll items ++ Token.definitions behind := by
  induction reads generalizing behind with
  | nil => rfl
  | row earlier reads ih =>
      obtain ⟨beforeOrdered, rowOrdered⟩ := ordered.of_append
      rw [List.append_assoc, ih beforeOrdered, definitions_reads reads rowOrdered,
        Expr.definitionsAll_append, List.append_assoc]
  | newline earlier place ih =>
      rw [List.append_assoc, ih ordered.of_append.1, List.singleton_append,
        Token.definitions_cons, ofTokens?_of_ne (by simp)]
      rfl

/-! ## Definitions of a program -/

namespace Expr

theorem definitions_statement (line : List Expr) :
    (statement line).definitions = definitionsAll line := by
  have wrapped (first : Expr) (rest : List Expr) :
      (Expr.call first.place (first :: rest)).definitions = definitionsAll (first :: rest) := by
    rw [definitions_call, definition?_of_place]
    rfl
  unfold statement
  split
  · split
    · exact wrapped _ []
    · simp [definitionsAll]
  · cases line with
    | nil => rfl
    | cons first rest => exact wrapped first rest

theorem definitionsAll_statements (lines : List (List Expr)) :
    definitionsAll (lines.map statement) = definitionsAll lines.flatten := by
  induction lines with
  | nil => rfl
  | cons line rest ih =>
      rw [List.map_cons, List.flatten_cons, definitionsAll_cons, definitions_statement, ih,
        definitionsAll_append]

theorem definitions_program {lines : List (List Expr)} {e : Expr}
    (made : program (lines.map statement) = some e) :
    e.definitions = definitionsAll lines.flatten := by
  rw [← definitionsAll_statements]
  unfold program at made
  split at made
  · cases made
  · rename_i only
    cases made
    simp [only, definitionsAll]
  · rename_i first rest _ several
    cases made
    have sequence : (Expr.call first.place
        (.command .nowhere sequenceName :: first :: rest)).definition? = none :=
      definition?_headless rfl _ _
    rw [definitions_call, sequence, definitionsAll_cons, several]
    rfl

end Expr

/-! ## Whole texts -/

/-- The symbols among the tokens of a text that is read are the definitions of its tree. -/
theorem collectSymbols_of_ofSource {source : String} {tokens : List Token} {e : Expr}
    (lexed : Token.lex source = .ok tokens) (parsed : Expr.ofSource source = .ok (some e)) :
    collectSymbols [] tokens = SymbolEntry.latest e.definitions := by
  rw [Expr.ofSource, lexed] at parsed
  obtain ⟨lines, made, reads⟩ := Expr.readsLines_of_parse (parse_of_parseWithin parsed)
  have found := definitions_readsLines reads (inOrder_lex lexed) []
  rw [List.append_nil] at found
  rw [collectSymbols_eq_foldl, foldl_putSymbol, found, Expr.definitions_program made.symm]
  exact congrArg SymbolEntry.latest (List.append_nil _)

theorem ofText_of_parsed {source : String} {e : Expr}
    (parsed : Expr.ofSource source = .ok (some e)) :
    ∃ tokens, Token.lex source = .ok tokens ∧
      (∀ tree, e.desugar = .ok tree →
        DocumentIndex.ofText source = .ok ⟨collectSymbols [] tokens, none⟩) ∧
      (∀ problem, e.desugar = .error (.problem problem) →
        DocumentIndex.ofText source = .ok ⟨collectSymbols [] tokens, some problem⟩) ∧
      (e.desugar = .error .tooDeep → DocumentIndex.ofText source = .error .tooDeep) := by
  obtain ⟨tokens, lexed, -⟩ := exists_of_bind_ok parsed
  have tolerant : Token.lexTolerant source.toList = .ok tokens := by
    have chars : Token.lexChars source.toList = .ok tokens := lexed
    rw [Token.lexTolerant, chars]
  refine ⟨tokens, lexed, fun tree done => ?_, fun problem failed => ?_, fun deep => ?_⟩
  · simp only [DocumentIndex.ofText, tolerant, Expr.read, parsed, done, bind, Except.bind]
    rfl
  · simp only [DocumentIndex.ofText, tolerant, Expr.read, parsed, failed, bind, Except.bind]
    rfl
  · simp only [DocumentIndex.ofText, tolerant, Expr.read, parsed, deep, bind, Except.bind]

/-- The symbols of a text that is read are the definitions of its tree, each name in the place of its
first definition with what its last definition says. Only a text whose tree goes too deep in the
passes has no index. -/
theorem DocumentIndex.ofText_definitions {source : String} {e : Expr}
    (parsed : Expr.ofSource source = .ok (some e)) :
    (e.desugar ≠ .error .tooDeep →
      ∃ problem, DocumentIndex.ofText source = .ok ⟨SymbolEntry.latest e.definitions, problem⟩) ∧
    (e.desugar = .error .tooDeep → DocumentIndex.ofText source = .error .tooDeep) := by
  obtain ⟨tokens, lexed, done, failed, deep⟩ := ofText_of_parsed parsed
  rw [collectSymbols_of_ofSource lexed parsed] at done failed
  refine ⟨fun fits => ?_, deep⟩
  have ways := Expr.desugar_fails e
  cases outcome : e.desugar with
  | ok tree => exact ⟨none, done tree outcome⟩
  | error failure =>
      cases failure with
      | problem problem => exact ⟨some problem, failed problem outcome⟩
      | fault fault => exact (ways _ outcome).elim
      | tooDeep => exact absurd outcome fits

/-- The tree of a text with definitions inside an array and inside a function, a function that is
defined again as a variable, and a definition without brackets of its own. -/
def nestedDefinitions : Expr :=
  .call ⟨1, 1⟩
    [.command .nowhere "do",
      .array ⟨1, 1⟩ [.call ⟨1, 2⟩ [.value ⟨1, 3⟩ (.word "defn"), .variable ⟨1, 8⟩ "f",
        .array ⟨1, 11⟩ [.variable ⟨1, 12⟩ "a", .variable ⟨1, 15⟩ "b",
          .value ⟨1, 18⟩ (.number (.int 1) "1")],
        .call ⟨1, 21⟩ [.value ⟨1, 22⟩ (.word "def"), .variable ⟨1, 26⟩ "x",
          .variable ⟨1, 29⟩ "a"]]],
      .call ⟨2, 1⟩ [.value ⟨2, 1⟩ (.word "def"), .variable ⟨2, 5⟩ "y",
        .value ⟨2, 8⟩ (.number (.int 1) "1")],
      .call ⟨3, 1⟩ [.call ⟨3, 1⟩ [.value ⟨3, 2⟩ (.word "defn"), .variable ⟨3, 7⟩ "g",
        .array ⟨3, 10⟩ [.variable ⟨3, 11⟩ "a", .value ⟨3, 14⟩ (.number (.int 1) "1"),
          .variable ⟨3, 16⟩ "b"], .variable ⟨3, 20⟩ "a"],
        .value ⟨3, 24⟩ (.word "|"), .call ⟨3, 26⟩ [.value ⟨3, 27⟩ (.word "def"),
          .variable ⟨3, 31⟩ "f"]]]

set_option maxRecDepth 3000 in
theorem DocumentIndex.ofText_nestedDefinitions :
    let source := "[(defn $f [$a $b 1] (def $x $a))]\ndef $y 1\n(defn $g [$a 1 $b] $a) | (def $f)"
    Expr.ofSource source = .ok (some nestedDefinitions) ∧
      ∃ problem, DocumentIndex.ofText source =
        .ok ⟨[⟨"f", .variable, 2, 30, []⟩, ⟨"x", .variable, 0, 25, []⟩,
          ⟨"g", .function, 2, 6, ["a"]⟩], problem⟩ := by
  have parsed : Expr.ofSource
      "[(defn $f [$a $b 1] (def $x $a))]\ndef $y 1\n(defn $g [$a 1 $b] $a) | (def $f)" =
        .ok (some nestedDefinitions) := by cbv
  have read : nestedDefinitions.desugar.toOption.isSome = true := by cbv
  have fits : nestedDefinitions.desugar ≠ .error .tooDeep := fun deep => by
    rw [deep] at read
    cases read
  have found : SymbolEntry.latest nestedDefinitions.definitions =
      [⟨"f", .variable, 2, 30, []⟩, ⟨"x", .variable, 0, 25, []⟩, ⟨"g", .function, 2, 6, ["a"]⟩] := by
    decide
  obtain ⟨problem, indexed⟩ := (DocumentIndex.ofText_definitions parsed).1 fits
  exact ⟨parsed, problem, found ▸ indexed⟩

theorem definitions_of_pipeline {count : Nat} {e : Expr}
    (same : e.placeless = .call .nowhere (Expr.pipeline (count + 1))) : e.definitions = [] := by
  have leaf (item : Expr) (place : Location) (literal : Literal)
      (is : item.placeless = .value place literal) : item.definitions = [] := by
    cases item <;> cases is
    rfl
  cases e with
  | call place body =>
      rw [Expr.placeless, Expr.placelessAll_eq_map] at same
      obtain ⟨-, items⟩ := Expr.call.inj same
      have nothing : Expr.definitionsAll body = [] := by
        refine List.flatMap_eq_nil_iff.mpr fun item member => ?_
        have among : item.placeless ∈ Expr.pipeline (count + 1) := by
          rw [← items]
          exact List.mem_map_of_mem member
        rcases Expr.mem_pipeline among with word | pipe
        · exact leaf item _ _ word
        · exact leaf item _ _ pipe
      obtain ⟨head, rest, rfl, -, others⟩ := List.map_eq_cons_iff.mp items
      obtain ⟨second, rest, rfl, pipe, -⟩ := List.map_eq_cons_iff.mp others
      rw [Expr.definitions_call, nothing, definition?_nameless]
      · rfl
      · rintro place name rfl
        cases pipe
  | _ => cases same

theorem desugar_of_deep {e piped : Expr} (joined : e.withCommands.withPipes = .ok piped)
    (deep : depthLimits.trees < piped.height) : e.desugar = .error .tooDeep := by
  simp only [Expr.desugar, Expr.passes, Expr.withPipesWithin, joined, Expr.checkDepth, bind,
    Except.bind, if_pos deep]

/-- A line of three thousand pipes is parsed and has no index. -/
theorem DocumentIndex.ofText_pipeline :
    let source := String.ofList ('a' :: (List.replicate 3000 [' ', '|', ' ', 'a']).flatten)
    ∃ e, Expr.ofSource source = .ok (some e) ∧ e.definitions = [] ∧
      DocumentIndex.ofText source = .error .tooDeep := by
  obtain ⟨parsed, parsing, same⟩ := Expr.ofSource_pipeline 2999
  have marked : parsed.withCommands.placeless = .call .nowhere (Expr.markHead (Expr.pipeline 3000)) := by
    rw [← Expr.withCommands_placeless, same, Expr.withCommands_pipeline]
  obtain ⟨piped, joined, equal⟩ := Expr.exists_of_follows
    (Expr.follows_withPipes parsed.withCommands) (marked ▸ Expr.withPipes_pipeline 3000)
  have deep : depthLimits.trees < piped.height := by
    rw [← Expr.height_placeless, equal, Expr.height_piped]
    decide
  rw [Expr.bodyChars_pipeline] at parsing
  obtain ⟨tokens, -, -, -, tooDeep⟩ := ofText_of_parsed parsing
  exact ⟨parsed, parsing, definitions_of_pipeline same, tooDeep (desugar_of_deep joined deep)⟩

end ShellLisp
