import ShellLisp.Proofs.Confinement.Actions
import ShellLisp.Proofs.Printing.PlainData

/-!
# Printed values are read back

What is printed for a value without functions and cycles, texts in quotes, is a program that
evaluates to the same data in every scope of every session, and leaves the session as it was but for
the new arrays and maps.
-/

namespace ShellLisp
open Text Decimal ShellLisp.Expr

/-! ## The tree that is written -/

namespace Plain

theorem itemTrees_eq_map (items : List Plain) : itemTrees items = items.map tree := by
  induction items with
  | nil => rfl
  | cons item rest ih => rw [itemTrees, ih, List.map_cons]

theorem itemAtoms_eq_flatMap (items : List Plain) : itemAtoms items = items.flatMap atoms := by
  induction items with
  | nil => rfl
  | cons item rest ih => rw [itemAtoms, ih, List.flatMap_cons]

theorem mem_entryTrees {e : Expr} {entries : List (Atom × Plain)} :
    e ∈ entryTrees entries ↔ ∃ entry ∈ entries, e = entry.1.tree ∨ e = entry.2.tree := by
  induction entries with
  | nil => simp [entryTrees]
  | cons entry rest ih =>
      simp only [entryTrees, List.mem_cons, ih, or_and_right, exists_or, exists_eq_left, or_assoc]

theorem length_entryTrees (entries : List (Atom × Plain)) :
    (entryTrees entries).length = 2 * entries.length := by
  induction entries with
  | nil => rfl
  | cons entry rest ih =>
      simp only [entryTrees, List.length_cons, ih]
      omega

theorem mem_entryAtoms {a : Atom} {entries : List (Atom × Plain)} :
    a ∈ entryAtoms entries ↔ ∃ entry ∈ entries, a = entry.1 ∨ a ∈ entry.2.atoms := by
  induction entries with
  | nil => simp [entryAtoms]
  | cons entry rest ih =>
      simp only [entryAtoms, List.mem_cons, List.mem_append, ih, or_and_right, exists_or,
        exists_eq_left, or_assoc]

theorem kind_tree (data : Plain) : data.tree.kind ≠ .command := by
  cases data <;> nofun

theorem kind_of_mem_entryTrees {e : Expr} {entries : List (Atom × Plain)}
    (member : e ∈ entryTrees entries) : e.kind ≠ .command := by
  obtain ⟨entry, -, rfl | rfl⟩ := mem_entryTrees.mp member
  · nofun
  · exact entry.2.kind_tree

theorem everywhere_tree {p : Expr → Prop} {data : Plain} (leaf : ∀ a ∈ data.atoms, p a.tree)
    (array : ∀ items : List Plain, p (.array .nowhere (itemTrees items)))
    (map : ∀ entries, p (.map .nowhere (entryTrees entries))) : data.tree.Everywhere p := by
  induction data using Plain.induction with
  | atom a => exact everywhere_value.mpr (leaf a (by simp [atoms]))
  | array items ih =>
      refine everywhere_array.mpr ⟨array items, fun e member => ?_⟩
      rw [itemTrees_eq_map] at member
      obtain ⟨item, inside, rfl⟩ := List.mem_map.mp member
      refine ih item inside fun a among => leaf a ?_
      rw [atoms, itemAtoms_eq_flatMap]
      exact List.mem_flatMap.mpr ⟨item, inside, among⟩
  | map entries ih =>
      refine everywhere_map.mpr ⟨map entries, fun e member => ?_⟩
      have among : ∀ a, (∃ entry ∈ entries, a = entry.1 ∨ a ∈ entry.2.atoms) → p a.tree :=
        fun a found => leaf a (mem_entryAtoms.mpr found)
      obtain ⟨entry, inside, rfl | rfl⟩ := mem_entryTrees.mp member
      · exact everywhere_value.mpr (among entry.1 ⟨entry, inside, .inl rfl⟩)
      · exact ih entry inside fun a found => among a ⟨entry, inside, .inr found⟩

theorem normal_tree (data : Plain) : data.tree.Everywhere NodeNormal := by
  refine everywhere_tree (fun a _ => ?_) (fun items => ?_) fun entries => ?_
  · exact ⟨trivial, trivial, trivial, trivial, sequenceFlat_of_none rfl⟩
  · refine ⟨fun e member => ?_, trivial, trivial, trivial, sequenceFlat_of_none rfl⟩
    rw [itemTrees_eq_map] at member
    obtain ⟨item, -, rfl⟩ := List.mem_map.mp member
    exact item.kind_tree
  · exact ⟨fun e member => kind_of_mem_entryTrees member, trivial, trivial, trivial,
      sequenceFlat_of_none rfl⟩

end Plain

theorem spells_null : Spells ['n', 'u', 'l', 'l'] .null :=
  spells_word (by decide) (by simp [isWordBreak]) (by cbv)

theorem spells_true : Spells ['t', 'r', 'u', 'e'] (.bool true) :=
  spells_word (by decide) (by simp [isWordBreak]) (by cbv)

theorem spells_false : Spells ['f', 'a', 'l', 's', 'e'] (.bool false) :=
  spells_word (by decide) (by simp [isWordBreak]) (by cbv)

theorem legible_atom {a : Atom} (short : a.Short) (back : a.ReadsBack) : Legible a.tree := by
  have number : ∀ n text, a = .number n → n.text = .ok text →
      Spells text.toList (.number n text) ∧ n.equal n = true := by
    rintro n text rfl printed
    refine spells_number printed fun x same => ?_
    subst same
    exact back
  refine ⟨trivial, ?_, ?_⟩
  · cases a with
    | null => exact spells_null
    | bool b =>
        cases b
        · exact spells_false
        · exact spells_true
    | number n =>
        obtain ⟨text, printed⟩ := short
        have spelled := (number n text rfl printed).1
        simpa [Atom.tree, Atom.literal, LeafSpelled, Literal.spelling, Literal.lexeme, printed,
          Except.toOption] using spelled
    | text s => exact spells_quoted s
  · cases a with
    | number n =>
        obtain ⟨text, printed⟩ := short
        have same := (number n text rfl printed).2
        cases n with
        | int n => simp [Atom.tree, Atom.literal, SelfSame, Literal.same]
        | float x => exact same
    | _ => simp [Atom.tree, Atom.literal, SelfSame, Literal.same]

theorem legible_tree {data : Plain} (short : ∀ a ∈ data.atoms, a.Short)
    (back : ∀ a ∈ data.atoms, a.ReadsBack) : data.tree.Everywhere Legible := by
  refine Plain.everywhere_tree (fun a member => legible_atom (short a member) (back a member))
    (fun items => ⟨trivial, trivial, trivial⟩) fun entries => ⟨?_, trivial, trivial⟩
  rw [Counted, Plain.length_entryTrees]
  omega

theorem placeless_tree (data : Plain) : data.tree.placeless = data.tree := by
  induction data using Plain.induction with
  | atom a => rfl
  | array items ih =>
      rw [Plain.tree, placeless, placelessAll_eq_map, Plain.itemTrees_eq_map, List.map_map]
      congr 1
      exact List.map_congr_left ih
  | map entries ih =>
      rw [Plain.tree, placeless, placelessAll_eq_map]
      congr 1
      refine map_eq_self fun e member => ?_
      obtain ⟨entry, inside, rfl | rfl⟩ := Plain.mem_entryTrees.mp member
      · rfl
      · exact ih entry inside

theorem nesting_le_height (e : Expr) : e.nesting ≤ e.height := by
  have row : ∀ body : List Expr, (∀ e ∈ body, e.nesting ≤ e.height) →
      nestingAll body ≤ heightAll body := by
    intro body each
    induction body with
    | nil => exact Nat.le_refl 0
    | cons e rest ih =>
        have first := each e (by simp)
        have others := ih fun x member => each x (by simp [member])
        rw [nestingAll, heightAll]
        omega
  induction e using Expr.induction with
  | call place body ih => exact Nat.succ_le_succ (row body ih)
  | array place body ih => exact Nat.succ_le_succ (row body ih)
  | map place body ih => exact Nat.succ_le_succ (row body ih)
  | value place literal => exact Nat.zero_le _
  | command place name => exact Nat.zero_le _
  | reference place name => exact Nat.zero_le _

/-- What is printed for plain data is read as its tree. -/
theorem read_written {data : Plain} {text : String}
    (written : Written depthLimits.values data text) (back : ∀ a ∈ data.atoms, a.ReadsBack) :
    ∃ e, read text = .ok (some e) ∧ e.placeless = data.tree := by
  have legible := legible_tree written.short back
  have normal := data.normal_tree
  have low : data.tree.height ≤ 450 := written.height
  have shallow : data.tree.nesting ≤ depthLimits.brackets := (nesting_le_height _).trans low
  have kept : data.tree.desugar = .ok data.tree :=
    desugar_of_normal normal (low.trans (by decide))
  have placed : data.tree.Placed := ⟨data.kind_tree, fun node below => (normal node below).commands⟩
  have long : data.tree.isBareWord = false := by
    cases data with
    | atom a => cases a <;> rfl
    | _ => rfl
  obtain ⟨e, done, same⟩ := read_text_of_desugar legible long placed kept shallow
  rw [placeless_tree] at same
  refine ⟨e, ?_, same⟩
  rwa [Expr.text, written.chars, String.ofList_toList] at done

/-! ## What the tree evaluates to -/

def Session.adding (session : Session) (arrays : Array (Array Value)) (maps : Array Entries) :
    Session :=
  { session with store := session.store.adding arrays maps }

theorem Session.adding_adding (session : Session) (arrays more : Array (Array Value))
    (maps others : Array Entries) :
    (session.adding arrays maps).adding more others =
      session.adding (arrays ++ more) (maps ++ others) := by
  simp [adding, Store.adding_adding]

theorem Session.adding_nothing (session : Session) : session.adding #[] #[] = session := by
  simp [adding, Store.adding]

/-- In every session the evaluation yields a value that holds the data, and only adds arrays and
maps. -/
def Builds (action : Eval Value) (data : Plain) : Prop :=
  ∀ session, ∃ v arrays maps, action.runOn session = (.ok v, session.adding arrays maps) ∧
    Holds (session.store.adding arrays maps) v data

theorem HoldsEntry.adding {store : Store} {entry : Value × Value} {data : Atom × Plain}
    (held : HoldsEntry store entry data) (arrays : Array (Array Value)) (maps : Array Entries) :
    HoldsEntry (store.adding arrays maps) entry data := by
  obtain ⟨key, inside⟩ := held
  exact .mk key (inside.adding arrays maps)

section
variable {engine : Engine} {scope : Nat}

theorem values_build {body : List Expr} {items : List Plain}
    (each : List.Forall₂ (fun e item => Builds (engine.interpret e scope) item) body items)
    (session : Session) :
    ∃ values arrays maps, (Interpret.values engine scope body).runOn session =
        (.ok values, session.adding arrays maps) ∧
      List.Forall₂ (Holds (session.store.adding arrays maps)) values items := by
  induction each generalizing session with
  | nil => exact ⟨[], #[], #[], by rw [Session.adding_nothing]; rfl, .nil⟩
  | cons first _ ih =>
      obtain ⟨v, arrays, maps, run, held⟩ := first session
      obtain ⟨values, more, others, rest, later⟩ := ih (session.adding arrays maps)
      refine ⟨v :: values, arrays ++ more, maps ++ others, ?_, ?_⟩
      · rw [Interpret.values] at rest ⊢
        rw [List.mapM_cons, Eval.runOn_bind, run]
        dsimp only
        rw [Eval.runOn_bind, rest, Session.adding_adding]
        rfl
      · rw [← Store.adding_adding]
        exact .cons (held.adding more others) later

theorem put_of_fresh {found : Entries} {key : Value} (value : Value)
    (fresh : ∀ old ∈ found.toList, old.1.sameKey key = false) :
    found.put key value = found.push (key, value) := by
  have none : found.position? key = none := by
    rw [Entries.position?, Array.findIdx?_eq_none_iff]
    exact fun old member => fresh old (Array.mem_toList_iff.mpr member)
  rw [Entries.put, none]

theorem unhashableType?_atom (a : Atom) : a.value.unhashableType? = none := by
  cases a <;> rfl

theorem mapEntries_build {entries : List (Atom × Plain)}
    (keys : ∀ entry ∈ entries, ∀ e : Expr, e.placeless = entry.1.tree →
      ∀ session, (engine.interpret e scope).runOn session = (.ok entry.1.value, session))
    (each : ∀ entry ∈ entries, ∀ e : Expr, e.placeless = entry.2.tree →
      Builds (engine.interpret e scope) entry.2)
    {body : List Expr} (same : body.map placeless = Plain.entryTrees entries)
    (different : entries.Pairwise fun first second =>
      first.1.value.sameKey second.1.value = false)
    {found : Entries} (fresh : ∀ old ∈ found.toList, ∀ entry ∈ entries,
      old.1.sameKey entry.1.value = false) (session : Session) :
    ∃ added arrays maps, (Interpret.mapEntries engine scope body found).runOn session =
        (.ok (found ++ added.toArray), session.adding arrays maps) ∧
      List.Forall₂ (HoldsEntry (session.store.adding arrays maps)) added entries := by
  induction entries generalizing body found session with
  | nil =>
      cases List.map_eq_nil_iff.mp same
      exact ⟨[], #[], #[], by rw [Session.adding_nothing]; simp [Interpret.mapEntries]; rfl, .nil⟩
  | cons entry rest ih =>
      obtain ⟨a, item⟩ := entry
      match body with
      | [] => cases same
      | [_] => simp [Plain.entryTrees] at same
      | keyExpr :: valueExpr :: others =>
          simp only [List.map_cons, Plain.entryTrees, List.cons.injEq] at same
          obtain ⟨keySame, valueSame, restSame⟩ := same
          obtain ⟨apart, laterDifferent⟩ := List.pairwise_cons.mp different
          obtain ⟨v, arrays, maps, run, held⟩ :=
            each (a, item) (by simp) valueExpr valueSame session
          -- No key was written before, so each entry is added last.
          have pushed : found.put a.value v = found.push (a.value, v) :=
            put_of_fresh v fun old member => fresh old member (a, item) (by simp)
          have laterFresh : ∀ old ∈ (found.put a.value v).toList, ∀ entry ∈ rest,
              old.1.sameKey entry.1.value = false := by
            intro old member entry inside
            rw [pushed, Array.toList_push] at member
            rcases List.mem_append.mp member with before | last
            · exact fresh old before entry (by simp [inside])
            · cases List.mem_singleton.mp last
              exact apart entry inside
          obtain ⟨added, more, additions, later, entriesHeld⟩ :=
            ih (fun entry member => keys entry (by simp [member]))
              (fun entry member => each entry (by simp [member])) restSame laterDifferent
              laterFresh (session.adding arrays maps)
          refine ⟨(a.value, v) :: added, arrays ++ more, maps ++ additions, ?_, ?_⟩
          · rw [Interpret.mapEntries, Eval.runOn_bind, keys (a, item) (by simp) keyExpr keySame]
            dsimp only
            rw [Eval.runOn_bind, run]
            simp only [unhashableType?_atom, Option.isSome_none, Bool.false_eq_true, if_false]
            rw [later, Session.adding_adding, pushed]
            simp
          · rw [← Store.adding_adding]
            exact .cons (HoldsEntry.adding (.mk a held) more additions) entriesHeld

theorem runOn_newArray (session : Session) (values : List Value) :
    (Eval.newArray values.toArray).runOn session =
      (.ok (.array session.store.arrays.size), session.adding #[values.toArray] #[]) := by
  simp only [Session.adding, Store.adding, ← Array.push_eq_append, Array.append_empty]
  rfl

theorem runOn_newMap (session : Session) (entries : Entries) :
    (Eval.newMap entries).runOn session =
      (.ok (.map session.store.maps.size), session.adding #[] #[entries]) := by
  simp only [Session.adding, Store.adding, ← Array.push_eq_append, Array.append_empty]
  rfl

theorem array_builds (place : Location) {body : List Expr} {items : List Plain}
    (each : List.Forall₂ (fun e item => Builds (engine.interpret e scope) item) body items) :
    Builds (Interpret.interpret engine (.array place body) scope) (.array items) := by
  intro session
  obtain ⟨values, arrays, maps, run, held⟩ := values_build each session
  refine ⟨.array (session.store.adding arrays maps).arrays.size, arrays ++ #[values.toArray],
    maps ++ #[], ?_, ?_⟩
  · show Eval.runOn session (Interpret.values engine scope body >>= fun values =>
      Eval.newArray values.toArray) = _
    rw [Eval.runOn_bind, run, ← Session.adding_adding]
    exact runOn_newArray _ values
  · rw [← Store.adding_adding]
    exact .array (by simp [Store.adding]) (held.imp fun _ _ inside => inside.adding _ _)

theorem map_builds (place : Location) {body : List Expr} {entries : List (Atom × Plain)}
    (keys : ∀ entry ∈ entries, ∀ e : Expr, e.placeless = entry.1.tree →
      ∀ session, (engine.interpret e scope).runOn session = (.ok entry.1.value, session))
    (each : ∀ entry ∈ entries, ∀ e : Expr, e.placeless = entry.2.tree →
      Builds (engine.interpret e scope) entry.2)
    (same : body.map placeless = Plain.entryTrees entries)
    (different : entries.Pairwise fun first second =>
      first.1.value.sameKey second.1.value = false) :
    Builds (Interpret.interpret engine (.map place body) scope) (.map entries) := by
  intro session
  have fresh : ∀ old ∈ (#[] : Entries).toList, ∀ entry ∈ entries,
      old.1.sameKey entry.1.value = false := nofun
  obtain ⟨added, arrays, maps, run, held⟩ :=
    mapEntries_build keys each same different fresh session
  refine ⟨.map (session.store.adding arrays maps).maps.size, arrays ++ #[],
    maps ++ #[added.toArray], ?_, ?_⟩
  · show Eval.runOn session (Interpret.mapEntries engine scope body #[] >>= Eval.newMap) = _
    rw [Eval.runOn_bind, run, ← Session.adding_adding, Array.empty_append]
    exact runOn_newMap _ added.toArray
  · rw [← Store.adding_adding]
    exact .map (by simp [Store.adding]) (held.imp fun _ _ inside => inside.adding _ _) different

end

theorem interpret_atom {patience depth scope : Nat} (positive : 0 < depth) {a : Atom} {e : Expr}
    (same : e.placeless = a.tree) (session : Session) :
    ((Engine.ofDepth patience depth).interpret e scope).runOn session =
      (.ok a.value, session) := by
  cases depth with
  | zero => cases positive
  | succ depth =>
      cases e <;> cases same
      exact congrArg (fun v => (Except.ok v, session)) a.ofLiteral_literal

theorem forall₂_of_map {items : List Plain} {body : List Expr}
    (same : body.map placeless = items.map Plain.tree) :
    List.Forall₂ (fun e item => e.placeless = Plain.tree item) body items := by
  rw [← List.forall₂_eq_eq_eq, List.forall₂_map_left_iff, List.forall₂_map_right_iff] at same
  exact same

/-- The tree of plain data evaluates to the data. -/
theorem interpret_builds {store : Store} {v : Value} {data : Plain} (held : Holds store v data)
    {patience depth scope : Nat} {e : Expr} (same : e.placeless = data.tree)
    (low : data.tree.height ≤ depth) :
    Builds ((Engine.ofDepth patience depth).interpret e scope) data := by
  -- The tree of a part is one level lower than that of the whole, as is the engine that evaluates
  -- it.
  induction data using Plain.induction generalizing v depth e with
  | atom a =>
      intro session
      refine ⟨a.value, #[], #[], ?_, .atom a⟩
      rw [Session.adding_nothing]
      exact interpret_atom low same session
  | array items ih =>
      cases depth with
      | zero => cases low
      | succ depth =>
          cases held with
          | array cell each =>
              cases e <;> simp only [placeless, placelessAll_eq_map, Plain.tree,
                Plain.itemTrees_eq_map, reduceCtorEq, Expr.array.injEq] at same
              rename_i place body
              refine array_builds place
                (forall₂_of_mem (forall₂_of_map same.2) fun e _ item member same => ?_)
              obtain ⟨_, -, inside⟩ := exists_of_forall₂ each.flip item member
              refine ih item member inside same ?_
              refine Nat.le_trans (height_le_of_mem ?_) (Nat.le_of_succ_le_succ low)
              rw [Plain.itemTrees_eq_map]
              exact List.mem_map_of_mem member
  | map entries ih =>
      cases depth with
      | zero => cases low
      | succ depth =>
          cases held with
          | map cell each different =>
              cases e <;> simp only [placeless, placelessAll_eq_map, Plain.tree, reduceCtorEq,
                Expr.map.injEq] at same
              rename_i place body
              have below : ∀ entry ∈ entries, ∀ e : Expr, e = entry.1.tree ∨ e = entry.2.tree →
                  e.height ≤ depth := fun entry member e found =>
                Nat.le_trans (height_le_of_mem (Plain.mem_entryTrees.mpr ⟨entry, member, found⟩))
                  (Nat.le_of_succ_le_succ low)
              refine map_builds place (fun entry member e same => ?_)
                (fun entry member e same => ?_) same.2 different
              · exact interpret_atom (below entry member _ (.inl rfl)) same
              · obtain ⟨_, -, key, inside⟩ := exists_of_forall₂ each.flip entry member
                exact ih _ member inside same (below _ member _ (.inr rfl))

/-! ## The statement -/

/-- What is printed for a value without functions and cycles, texts in quotes, evaluates in every
scope of every session to the same data. -/
theorem evaluateIn_text {store : Store} {v : Value} {data : Plain} {text : String}
    (held : Holds store v data) (back : ∀ a ∈ data.atoms, a.ReadsBack)
    (printed : store.text true v = .ok text) (session : Session) (scope : Nat) :
    ∃ again arrays maps,
      session.evaluateIn scope text = (.ok again, session.adding arrays maps) ∧
        Holds (session.adding arrays maps).store again data := by
  have written := written_of_holds held printed
  obtain ⟨e, done, same⟩ := read_written written back
  have low : data.tree.height ≤ depthLimits.evaluation := written.height.trans (by decide)
  have builds : Builds (Engine.default.interpret e scope) data := interpret_builds held same low
  obtain ⟨again, arrays, maps, run, inside⟩ := builds session
  refine ⟨again, arrays, maps, ?_, inside⟩
  rw [Session.evaluateIn, Engine.evaluateText, Eval.runOn_bind, Eval.boundingDepth,
    Eval.runOn_tryCatch, done]
  show Eval.runOn session (Eval.boundingDepth (some e.place) (Engine.default.interpret e scope)) = _
  rw [Eval.boundingDepth, Eval.runOn_tryCatch, run]

/-- Minus two and a half. -/
def debt : Float := Binary64.pack true (1024 * 2 ^ 52 + 2 ^ 50)

theorem ofFloat_debt : Binary64.ofFloat debt = .finite true (5 * 2 ^ 50) (-51) := by
  rw [debt, Binary64.ofFloat_pack true (by decide)]
  decide +kernel

theorem floatText_debt : floatText debt = "-2.5" := by
  rw [floatText, ofFloat_debt]
  decide +kernel

theorem readsBack_debt : ReadsBack debt where
  finite := ⟨_, _, _, ofFloat_debt⟩
  same numeral read := by
    rw [floatText_debt] at read
    have pattern : Binary64.quotientPattern (25 * tenTo 0) (tenTo 1) = 1024 * 2 ^ 52 + 2 ^ 50 := by
      decide +kernel
    cases read
    show nearestDecimal true 25 (-1) = debt
    rw [nearestDecimal]
    rw [if_neg (by decide), if_neg (by decide), Binary64.nearest?]
    rw [show (-1 : Int).toNat = 0 from rfl, show (-(-1) : Int).toNat = 1 from rfl, pattern,
      if_pos (by decide)]
    rfl

def ledger : Store :=
  { Store.empty with
    arrays := #[#[], #[.int 12, .number (.float debt), .string "a\"b\n", .map 0]]
    maps := #[#[(.null, .bool true), (.string "k", .array 0)]] }

def ledgerData : Plain :=
  .array [.atom (.number (.int 12)), .atom (.number (.float debt)), .atom (.text "a\"b\n"),
    .map [(.null, .atom (.bool true)), (.text "k", .array [])]]

theorem holds_ledger : Holds ledger (.array 1) ledgerData := by
  have inner : Holds ledger (.map 0) (.map [(.null, .atom (.bool true)), (.text "k", .array [])]) :=
    .map rfl (.cons (.mk .null (.atom (.bool true)))
      (.cons (.mk (.text "k") (.array rfl .nil)) .nil)) (List.pairwise_pair.mpr rfl)
  exact .array rfl (.cons (.atom (.number (.int 12))) (.cons (.atom (.number (.float debt)))
    (.cons (.atom (.text "a\"b\n")) (.cons inner .nil))))

theorem text_ledger :
    ledger.text true (.array 1) = .ok "[12 -2.5 \"a\\\"b\\n\" \x7bnull true \"k\" []\x7d]" := by
  have printed : ledger.text true (.array 1) =
      .ok ("[" ++ " ".intercalate ["12", floatText debt, Text.quote "a\"b\n",
        "\x7bnull true \"k\" []\x7d"] ++ "]") := rfl
  rw [printed, floatText_debt]
  rfl

theorem ledger_read_back :
    ledger.text true (.array 1) = .ok "[12 -2.5 \"a\\\"b\\n\" \x7bnull true \"k\" []\x7d]" ∧
      let session := Session.start .empty [] [] (.recorded [] [])
      ∃ again arrays maps,
        session.evaluateIn 1 "[12 -2.5 \"a\\\"b\\n\" \x7bnull true \"k\" []\x7d]" =
            (.ok again, session.adding arrays maps) ∧
          Holds (session.adding arrays maps).store again ledgerData := by
  have back : ∀ a ∈ ledgerData.atoms, a.ReadsBack := by
    simp only [ledgerData, Plain.atoms, Plain.itemAtoms, Plain.entryAtoms, List.append_nil,
      List.cons_append, List.nil_append, List.forall_mem_cons]
    exact ⟨trivial, readsBack_debt, trivial, trivial, trivial, trivial, List.forall_mem_nil _⟩
  exact ⟨text_ledger, evaluateIn_text holds_ledger back text_ledger _ 1⟩

end ShellLisp
