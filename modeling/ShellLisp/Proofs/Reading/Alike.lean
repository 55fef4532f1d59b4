import ShellLisp.Proofs.Reading.RoundTrip

/-!
# Texts that are read alike

Two source texts of which both give the same tree, their places aside, or neither gives one. Texts
that are parsed alike are read alike, and so are texts that are lexed as the same tree.
-/

namespace ShellLisp.Expr

/-- Two readings that give the same tree, their places aside, or that both fail. -/
def SameReading : Except Failure (Option Expr) → Except Failure (Option Expr) → Prop
  | .ok (some a), .ok (some b) => a.placeless = b.placeless ∧ a.same b = true
  | .ok none, .ok none => True
  | .error _, .error _ => True
  | _, _ => False

def outcome (reading : Except Failure (Option Expr)) : Option (Option Expr) :=
  reading.toOption.map (·.map placeless)

theorem sameReading_of_outcome {first second : Except Failure (Option Expr)}
    (selfSame : ∀ b, second = .ok (some b) → b.Everywhere SelfSame)
    (equal : outcome first = outcome second) : SameReading first second := by
  match first, second with
  | .error _, .error _ => trivial
  | .error _, .ok _ => cases equal
  | .ok _, .error _ => cases equal
  | .ok none, .ok none => trivial
  | .ok none, .ok (some b) => cases equal
  | .ok (some a), .ok none => cases equal
  | .ok (some a), .ok (some b) =>
      have places : a.placeless = b.placeless := by simpa [outcome, Except.toOption] using equal
      exact ⟨places, same_of_placeless (selfSame b rfl) places⟩

theorem selfSame_of_ofSource {source : String} {e : Expr} (parsed : ofSource source = .ok (some e)) :
    e.Everywhere SelfSame :=
  fun node below => ((legible_of_ofSource parsed).1 node below).same

theorem exists_of_read {source : String} {tree : Expr} (done : read source = .ok (some tree)) :
    ∃ parsed, ofSource source = .ok (some parsed) ∧ parsed.desugar = .ok tree := by
  unfold read at done
  obtain ⟨result, parsing, rest⟩ := exists_of_bind_ok done
  cases result with
  | none => cases rest
  | some parsed =>
      obtain ⟨found, desugared, made⟩ := exists_of_bind_ok rest
      cases made
      exact ⟨parsed, parsing, desugared⟩

theorem selfSame_of_read {source : String} {tree : Expr} (done : read source = .ok (some tree)) :
    tree.Everywhere SelfSame := by
  obtain ⟨parsed, parsing, desugared⟩ := exists_of_read done
  exact fun node below =>
    (legible_desugar (legible_of_ofSource parsing).1 desugared node below).same

theorem desugar_outcome {a b : Expr} (equal : a.placeless = b.placeless) :
    a.desugar.toOption.map placeless = b.desugar.toOption.map placeless := by
  have first : a.placeless.desugar.toOption = a.desugar.toOption.map placeless := follows_desugar a
  have second : b.placeless.desugar.toOption = b.desugar.toOption.map placeless := follows_desugar b
  rw [← first, ← second, equal]

theorem outcome_read {source : String} :
    outcome (read source) = match ofSource source with
      | .error _ => none
      | .ok none => some none
      | .ok (some e) => (e.desugar.toOption.map placeless).map some := by
  rw [read]
  cases ofSource source with
  | error failure => rfl
  | ok result =>
      cases result with
      | none => rfl
      | some e =>
          simp only [bind, Except.bind]
          cases e.desugar <;> rfl

theorem outcome_read_of_ofSource {source other : String}
    (alike : outcome (ofSource source) = outcome (ofSource other)) :
    outcome (read source) = outcome (read other) := by
  rw [outcome_read, outcome_read]
  match first : ofSource source, second : ofSource other with
  | .error _, .error _ => rfl
  | .error _, .ok _ => simp [first, second, outcome, Except.toOption] at alike
  | .ok _, .error _ => simp [first, second, outcome, Except.toOption] at alike
  | .ok none, .ok none => rfl
  | .ok none, .ok (some b) => simp [first, second, outcome, Except.toOption] at alike
  | .ok (some a), .ok none => simp [first, second, outcome, Except.toOption] at alike
  | .ok (some a), .ok (some b) =>
      have places : a.placeless = b.placeless := by
        simpa [first, second, outcome, Except.toOption] using alike
      exact congrArg (Option.map some) (desugar_outcome places)

theorem sameReading_ofSource {source other : String}
    (alike : outcome (ofSource source) = outcome (ofSource other)) :
    SameReading (ofSource source) (ofSource other) :=
  sameReading_of_outcome (fun _ => selfSame_of_ofSource) alike

theorem sameReading_read {source other : String}
    (alike : outcome (read source) = outcome (read other)) :
    SameReading (read source) (read other) :=
  sameReading_of_outcome (fun _ => selfSame_of_read) alike

/-- Texts that are lexed as the brackets and leaves of one tree are parsed alike. -/
theorem outcome_ofSource_of_lexemes {source other : String} {tokens others : List Token} {e : Expr}
    (lexed : Token.lex source = .ok tokens) (said : Token.lexemes tokens = e.lexemes)
    (otherLexed : Token.lex other = .ok others) (otherSaid : Token.lexemes others = e.lexemes)
    (legible : e.Everywhere Legible) (long : e.isBareWord = false) :
    outcome (ofSource source) = outcome (ofSource other) := by
  by_cases shallow : e.nesting ≤ depthLimits.brackets
  · obtain ⟨a, first, shown⟩ := ofSource_of_lexemes lexed said legible long shallow
    obtain ⟨b, second, same⟩ := ofSource_of_lexemes otherLexed otherSaid legible long shallow
    simp [first, second, outcome, Except.toOption, shown, same]
  · have deep := Nat.lt_of_not_le shallow
    rw [ofSource_of_lexemes_of_deep lexed said legible deep,
      ofSource_of_lexemes_of_deep otherLexed otherSaid legible deep]

end ShellLisp.Expr
