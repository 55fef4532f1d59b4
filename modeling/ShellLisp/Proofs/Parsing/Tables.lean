import ShellLisp.Evaluation
import ShellLisp.Proofs.Changes.Clearing
import ShellLisp.Proofs.Parsing.Pieces
import ShellLisp.Proofs.Printing.ReadBack

/-!
# Tables

Rows of fields that are joined by a delimiter, one to a line, are read back as one map for each row.
A line is trimmed before it is split, so a blank delimiter is lost with the empty fields at the ends
of a row, and the other fields move to the front.
-/

namespace ShellLisp
open Text

namespace Table

/-! ## Rows and columns -/

def line (delimiter : Char) (row : List (List Char)) : List Char := [delimiter].intercalate row

def text (delimiter : Char) (rows : List (List (List Char))) : List Char :=
  ['\n'].intercalate (rows.map (line delimiter))

/-- A field keeps to its column and its line, and has no blanks around it. -/
structure IsField (delimiter : Char) (field : List Char) : Prop where
  column : delimiter ∉ field
  line : ∀ c ∈ field, isLineEnd c = false
  front : ∀ c, field.head? = some c → isBlank c = false
  back : ∀ c, field.getLast? = some c → isBlank c = false

/-- A row of fields of which some is not empty. -/
structure IsRow (delimiter : Char) (row : List (List Char)) : Prop where
  fields : ∀ field ∈ row, IsField delimiter field
  filled : ∃ field ∈ row, field ≠ []

/-- The fields behind the empty ones at the front that a blank delimiter is lost with. -/
def fromFront (delimiter : Char) (row : List (List Char)) : List (List Char) :=
  if isBlank delimiter then row.dropWhile List.isEmpty else row

/-- The fields of a row by column: a blank delimiter is lost with the empty fields at both ends. -/
def columns (delimiter : Char) (row : List (List Char)) : List (List Char) :=
  (fromFront delimiter (fromFront delimiter row).reverse).reverse

variable {delimiter : Char} {row : List (List Char)} {rows : List (List (List Char))}

theorem fromFront_of_filled (filled : isBlank delimiter = false ∨ row.head? ≠ some []) :
    fromFront delimiter row = row := by
  unfold fromFront
  split
  · rename_i blank
    have first := filled.resolve_left (by simp [blank])
    cases row with
    | nil => rfl
    | cons field rest =>
        have stays : field.isEmpty = false := by simpa using first
        simp [stays]
  · rfl

theorem columns_of_filled
    (filled : isBlank delimiter = false ∨ row.head? ≠ some [] ∧ row.getLast? ≠ some []) :
    columns delimiter row = row := by
  have front := fromFront_of_filled (filled.imp_right And.left)
  have back : fromFront delimiter row.reverse = row.reverse :=
    fromFront_of_filled (filled.imp_right fun ends => by rw [List.head?_reverse]; exact ends.2)
  rw [columns, front, back, List.reverse_reverse]

/-! ## Lines -/

theorem line_cons_cons (field next : List Char) (rest : List (List Char)) :
    line delimiter (field :: next :: rest) =
      field ++ delimiter :: line delimiter (next :: rest) := by
  rw [line, List.intercalate_cons_cons, List.append_assoc]
  rfl

theorem line_concat (filled : row ≠ []) (last : List Char) :
    line delimiter (row ++ [last]) = line delimiter row ++ delimiter :: last := by
  induction row with
  | nil => exact absurd rfl filled
  | cons field rest ih =>
      cases rest with
      | nil => simp [line]
      | cons next others =>
          have behind := ih (List.cons_ne_nil next others)
          rw [List.cons_append] at behind
          rw [List.cons_append, List.cons_append, line_cons_cons, line_cons_cons, behind,
            List.append_assoc, List.cons_append]

theorem reverse_line (row : List (List Char)) :
    (line delimiter row).reverse = line delimiter (row.reverse.map List.reverse) := by
  induction row with
  | nil => rfl
  | cons field rest ih =>
      cases rest with
      | nil => simp [line]
      | cons next others =>
          have backwards : (field :: next :: others).reverse.map List.reverse =
              (next :: others).reverse.map List.reverse ++ [field.reverse] := by simp
          rw [line_cons_cons, List.reverse_append, List.reverse_cons, ih, backwards,
            line_concat (by simp), List.append_assoc]
          rfl

theorem dropWhile_line (front : ∀ field ∈ row, ∀ c, field.head? = some c → isBlank c = false) :
    (line delimiter row).dropWhile isBlank = line delimiter (fromFront delimiter row) := by
  induction row with
  | nil => simp [line, fromFront]
  | cons field rest ih =>
      obtain ⟨first, others⟩ := List.forall_mem_cons.mp front
      cases field with
      | cons c field =>
          rw [fromFront_of_filled (.inr (by simp))]
          have inside : isBlank c = false := first c rfl
          cases rest <;> simp [line, inside]
      | nil =>
          cases rest with
          | nil =>
              unfold fromFront
              split <;> rfl
          | cons next rest =>
              rw [line_cons_cons, List.nil_append, List.dropWhile_cons]
              split
              · rename_i blank
                rw [ih others]
                simp [fromFront, blank]
              · rename_i mark
                have stays : isBlank delimiter = false := by simpa using mark
                rw [fromFront_of_filled (.inl stays), line_cons_cons, List.nil_append]

theorem mem_of_mem_fromFront {field : List Char} (member : field ∈ fromFront delimiter row) :
    field ∈ row := by
  unfold fromFront at member
  split at member
  · exact (List.dropWhile_sublist _).subset member
  · exact member

theorem fromFront_map_reverse (row : List (List Char)) :
    fromFront delimiter (row.map List.reverse) = (fromFront delimiter row).map List.reverse := by
  unfold fromFront
  split
  · have same : List.isEmpty ∘ List.reverse = (List.isEmpty : List Char → Bool) :=
      funext fun field => List.isEmpty_reverse
    rw [List.dropWhile_map, same]
  · rfl

theorem trim_line (fields : ∀ field ∈ row, IsField delimiter field) :
    trim (line delimiter row) = line delimiter (columns delimiter row) := by
  have front : (line delimiter row).dropWhile isBlank = line delimiter (fromFront delimiter row) :=
    dropWhile_line fun field member => (fields field member).front
  have back : ∀ field ∈ (fromFront delimiter row).reverse.map List.reverse,
      ∀ c, field.head? = some c → isBlank c = false := by
    intro backwards member c first
    obtain ⟨field, inside, rfl⟩ := List.mem_map.mp member
    rw [List.head?_reverse] at first
    exact (fields field (mem_of_mem_fromFront (List.mem_reverse.mp inside))).back c first
  rw [trim, trimEnd, trimStart, front, reverse_line, dropWhile_line back, reverse_line,
    fromFront_map_reverse, ← List.map_reverse, List.map_map,
    List.reverse_involutive.comp_self, List.map_id, columns]

theorem mem_of_mem_columns {field : List Char} (member : field ∈ columns delimiter row) :
    field ∈ row :=
  mem_of_mem_fromFront (List.mem_reverse.mp (mem_of_mem_fromFront (List.mem_reverse.mp member)))

theorem mem_fromFront {field : List Char} (filled : field ≠ []) (member : field ∈ row) :
    field ∈ fromFront delimiter row := by
  unfold fromFront
  split
  · rw [← List.takeWhile_append_dropWhile (p := List.isEmpty) (l := row)] at member
    refine (List.mem_append.mp member).resolve_left fun early => ?_
    exact filled (List.isEmpty_iff.mp (List.mem_takeWhile_imp early))
  · exact member

theorem mem_columns {field : List Char} (filled : field ≠ []) (member : field ∈ row) :
    field ∈ columns delimiter row :=
  List.mem_reverse.mpr (mem_fromFront filled (List.mem_reverse.mpr (mem_fromFront filled member)))

theorem mem_line {c : Char} (inside : c ∈ line delimiter row) :
    c = delimiter ∨ ∃ field ∈ row, c ∈ field := by
  induction row with
  | nil => cases inside
  | cons field rest ih =>
      cases rest with
      | nil => exact .inr ⟨field, by simp, by simpa [line] using inside⟩
      | cons next others =>
          rw [line_cons_cons, List.mem_append, List.mem_cons] at inside
          rcases inside with here | rfl | later
          · exact .inr ⟨field, by simp, here⟩
          · exact .inl rfl
          · refine (ih later).imp_right fun ⟨other, member, among⟩ => ?_
            exact ⟨other, List.mem_cons_of_mem _ member, among⟩

theorem line_ne_nil {field : List Char} (filled : field ≠ []) (member : field ∈ row) :
    line delimiter row ≠ [] := by
  cases row with
  | nil => cases member
  | cons first rest =>
      cases rest with
      | nil =>
          obtain rfl := List.mem_singleton.mp member
          simpa [line] using filled
      | cons => simp [line_cons_cons]

namespace IsRow

theorem fields_line (isRow : IsRow delimiter row) :
    Parsing.fields [delimiter] (trim (line delimiter row)) = columns delimiter row := by
  obtain ⟨field, member, filled⟩ := isRow.filled
  have some : columns delimiter row ≠ [] := List.ne_nil_of_mem (mem_columns filled member)
  have apart : ∀ field ∈ columns delimiter row, delimiter ∉ field := fun field member =>
    (isRow.fields field (mem_of_mem_columns member)).column
  rw [trim_line isRow.fields]
  exact split_intercalate some apart

theorem trim_ne_nil (isRow : IsRow delimiter row) : trim (line delimiter row) ≠ [] := by
  obtain ⟨field, member, filled⟩ := isRow.filled
  rw [trim_line isRow.fields]
  exact line_ne_nil filled (mem_columns filled member)

theorem line_filled (isRow : IsRow delimiter row) : line delimiter row ≠ [] := by
  obtain ⟨field, member, filled⟩ := isRow.filled
  exact line_ne_nil filled member

theorem line_plain (isRow : IsRow delimiter row) (plain : isLineEnd delimiter = false) :
    ∀ c ∈ line delimiter row, isLineEnd c = false := by
  intro c inside
  rcases mem_line inside with rfl | ⟨field, member, among⟩
  · exact plain
  · exact (isRow.fields field member).line c among

end IsRow

theorem tableLines_text (plain : isLineEnd delimiter = false)
    (isRow : ∀ row ∈ rows, IsRow delimiter row) :
    Parsing.tableLines (text delimiter rows) = rows.map fun row => trim (line delimiter row) := by
  have filled : ∀ l ∈ rows.map (line delimiter), l ≠ [] :=
    List.forall_mem_map.mpr fun row member => (isRow row member).line_filled
  have oneLine : ∀ l ∈ rows.map (line delimiter), ∀ c ∈ l, isLineEnd c = false :=
    List.forall_mem_map.mpr fun row member => (isRow row member).line_plain plain
  rw [Parsing.tableLines, text, lines_intercalate filled oneLine, List.map_map,
    List.filter_eq_self.mpr]
  · rfl
  · refine List.forall_mem_map.mpr fun row member => ?_
    simpa using (isRow row member).trim_ne_nil

/-! ## Maps -/

/-- The entries of a row: each key with the field in its column, or null when there is none. -/
def entries (keys : List String) (fields : List (List Char)) : List (Value × Value) :=
  keys.mapIdx fun index key => (.string key, (fields[index]?.map Value.ofChars).getD .null)

theorem entries_cons (key : String) (keys : List String) (fields : List (List Char)) :
    entries (key :: keys) fields =
      (.string key, (fields.head?.map Value.ofChars).getD .null) :: entries keys fields.tail := by
  simp only [entries, List.mapIdx_cons, List.getElem?_tail, List.head?_eq_getElem?]

theorem rowEntries_eq {keys : List String} (distinct : keys.Nodup) (fields : List (List Char))
    {found : Entries} (fresh : ∀ old ∈ found.toList, ∀ key ∈ keys, old.1 ≠ .string key) :
    Parsing.rowEntries (keys.map .string) fields found =
      .ok (found ++ (entries keys fields).toArray) := by
  induction keys generalizing fields found with
  | nil => simp [Parsing.rowEntries, entries]
  | cons key keys ih =>
      obtain ⟨apart, others⟩ := List.nodup_cons.mp distinct
      have new (value : Value) : found.put (.string key) value = found.push (.string key, value) :=
        put_of_fresh value fun old member => Bool.eq_false_iff.mpr fun same =>
          fresh old member key (by simp) (Value.sameKey_string.mp same)
      rw [List.map_cons, Parsing.rowEntries]
      show Parsing.rowEntries (keys.map .string) fields.tail (found.put (.string key) _) = _
      rw [new, ih others]
      · simp [entries_cons]
      · intro old member other inside same
        rw [Array.toList_push, List.mem_append, List.mem_singleton] at member
        rcases member with before | rfl
        · exact fresh old before other (by simp [inside]) same
        · cases same
          exact apart inside

/-! ## Reading a table -/

theorem runOn_collect {engine : Engine} {ref position bound : Nat} {rest : List Value}
    {found : Array Value} {session : Session}
    (behind : (session.store.array ref).toList.drop position = rest) (room : rest.length < bound) :
    (engine.foldWithin (fun found element => return found.push element) bound
      (.elements ref position) found).runOn session = (.ok (found ++ rest.toArray), session) := by
  have next (position : Nat) : (engine.next (.elements ref position)).runOn session =
      (.ok ((session.store.array ref)[position]?.map (·, .elements ref (position + 1))), session) :=
    rfl
  -- The array does not change under the cursor, so each element is read where it stood.
  induction rest generalizing position bound found with
  | nil =>
      obtain ⟨bound, rfl⟩ := Nat.exists_eq_succ_of_ne_zero (Nat.ne_of_gt room)
      have ended : (session.store.array ref)[position]? = none := by
        rw [← Array.getElem?_toList, ← List.head?_drop, behind]
        rfl
      rw [Engine.foldWithin, Eval.runOn_bind_ok (next position), ended]
      simp
      rfl
  | cons v rest ih =>
      obtain ⟨bound, rfl⟩ := Nat.exists_eq_succ_of_ne_zero (Nat.ne_of_gt (Nat.zero_lt_of_lt room))
      have here : (session.store.array ref)[position]? = some v := by
        rw [← Array.getElem?_toList, ← List.head?_drop, behind]
        rfl
      have beyond : (session.store.array ref).toList.drop (position + 1) = rest := by
        rw [← List.drop_drop, behind]
        rfl
      rw [Engine.foldWithin, Eval.runOn_bind_ok (next position), here]
      show (engine.foldWithin _ bound (.elements ref (position + 1)) (found.push v)).runOn session =
        _
      rw [ih beyond (Nat.lt_of_succ_lt_succ room)]
      simp

theorem runOn_newMaps {α : Type} {items : List α} {action : α → Eval Value} {made : α → Entries}
    (each : ∀ item ∈ items, action item = Eval.newMap (made item)) (session : Session) :
    (items.mapM action).runOn session =
      (.ok ((List.range' session.store.maps.size items.length).map Value.map),
        session.adding #[] (items.map made).toArray) := by
  induction items generalizing session with
  | nil =>
      rw [List.mapM_nil]
      show (Except.ok [], session) = (_, session.adding #[] #[])
      rw [Session.adding_nothing]
      rfl
  | cons item rest ih =>
      obtain ⟨first, others⟩ := List.forall_mem_cons.mp each
      rw [List.mapM_cons, first, Eval.runOn_bind_ok (runOn_newMap session (made item)),
        Eval.runOn_bind_ok (ih others _), Session.adding_adding]
      have size : (session.adding #[] #[made item]).store.maps.size =
          session.store.maps.size + 1 := by simp [Session.adding, Store.adding]
      rw [size, List.length_cons, List.range'_succ]
      simp
      rfl

/-- The new map that a line is read as. -/
def readLine (keys : List Value) (delimiter line : List Char) : Eval Value := do
  Eval.newMap (← Eval.lift (Parsing.rowEntries keys (Parsing.fields delimiter line) #[]))

theorem IsRow.readLine {keys : List String} (isRow : IsRow delimiter row) (distinct : keys.Nodup) :
    readLine (keys.map Value.string) [delimiter] (trim (line delimiter row)) =
      Eval.newMap (entries keys (columns delimiter row)).toArray := by
  have read := @rowEntries_eq keys distinct (columns delimiter row) #[] (by simp)
  rw [Table.readLine, isRow.fields_line, read, Array.empty_append]
  rfl

section
variable {keys : List String} {session : Session} {ref : Nat} {engine : Engine}
  (plain : isLineEnd delimiter = false) (distinct : keys.Nodup)
  (listed : session.store.array ref = (keys.map Value.string).toArray)
  (isRow : ∀ row ∈ rows, IsRow delimiter row) (room : keys.length < engine.patience)
  (place : Location)
include plain distinct listed isRow room

theorem runOn_rows :
    (LibraryFunction.call engine place [.string (String.singleton delimiter), .array ref,
        .string (String.ofList (text delimiter rows))] (.parse .table)).runOn session =
      (.ok (.array session.store.arrays.size),
        session.adding #[((List.range' session.store.maps.size rows.length).map Value.map).toArray]
          (rows.map fun row => (entries keys (columns delimiter row)).toArray).toArray) := by
  have collected : (engine.collect (.elements ref 0)).runOn session =
      (.ok (keys.map Value.string).toArray, session) := by
    have whole : (session.store.array ref).toList.drop 0 = keys.map Value.string := by
      rw [listed, List.drop_zero]
    refine (runOn_collect whole (by simpa using room)).trans ?_
    simp
  show (do
    let keys ← engine.collect (.elements ref 0)
    let rows ← (Parsing.tableLines (String.ofList (text delimiter rows)).toList).mapM
      (readLine keys.toList (String.singleton delimiter).toList)
    Eval.newArray rows.toArray : Eval Value).runOn session = _
  rw [Eval.runOn_bind_ok collected, String.toList_ofList, tableLines_text plain isRow,
    List.mapM_map, String.toList_singleton]
  have made := runOn_newMaps (fun row member => (isRow row member).readLine distinct) session
  refine (Eval.runOn_bind_ok made _).trans ?_
  rw [runOn_newArray, Session.adding_adding]
  rfl

/-- Rows that are joined by a delimiter, one to a line, are read as one new map for each row, in
order: each key is bound to the field in its column. The columns are the fields of the row, unless
the delimiter is blank and a field at an end of the row is empty. -/
theorem runOn_table :
    (LibraryFunction.call engine place [.string (String.singleton delimiter), .array ref,
        .string (String.ofList (text delimiter rows))] (.parse .table)).runOn session =
      (.ok (.array session.store.arrays.size),
        session.adding #[((List.range' session.store.maps.size rows.length).map Value.map).toArray]
          (rows.map fun row => (entries keys (columns delimiter row)).toArray).toArray) ∧
    ∀ row ∈ rows, (isBlank delimiter = false ∨ row.head? ≠ some [] ∧ row.getLast? ≠ some []) →
      columns delimiter row = row :=
  ⟨runOn_rows plain distinct listed isRow room place, fun _ _ => columns_of_filled⟩

end

theorem isField_nil : IsField delimiter [] := ⟨nofun, nofun, nofun, nofun⟩

theorem isField_singleton {c : Char} (other : c ≠ delimiter) (line : isLineEnd c = false)
    (blank : isBlank c = false) : IsField delimiter [c] where
  column := fun member => other (List.mem_singleton.mp member).symm
  line := List.forall_mem_singleton.mpr line
  front := fun _ is => Option.some.inj is ▸ blank
  back := fun _ is => Option.some.inj is ▸ blank

def header : Store := { Store.empty with arrays := #[#[.string "x", .string "y"]] }

theorem header_room : ["x", "y"].length < Engine.default.patience := by
  rw [Engine.default, Engine.patience_ofDepth]
  decide

theorem runOn_table_bars :
    let session : Session :=
      { Session.start .empty [] [] (.recorded [] []) with store := header }
    (LibraryFunction.call Engine.default ⟨1, 1⟩ [.string "|", .array 0, .string "|b\na|"]
        (.parse .table)).runOn session =
      (.ok (.array 1), session.adding #[#[.map 0, .map 1]]
        #[#[(.string "x", .string ""), (.string "y", .string "b")],
          #[(.string "x", .string "a"), (.string "y", .string "")]]) := by
  intro session
  have a : IsField '|' ['a'] := isField_singleton (by decide) (by decide) (by decide)
  have b : IsField '|' ['b'] := isField_singleton (by decide) (by decide) (by decide)
  have isRow : ∀ row ∈ [[[], ['b']], [['a'], []]], IsRow '|' row := by
    refine List.forall_mem_cons.mpr ⟨⟨?_, ['b'], by simp, by simp⟩,
      List.forall_mem_singleton.mpr ⟨?_, ['a'], by simp, by simp⟩⟩
    · exact List.forall_mem_cons.mpr ⟨isField_nil, List.forall_mem_singleton.mpr b⟩
    · exact List.forall_mem_cons.mpr ⟨a, List.forall_mem_singleton.mpr isField_nil⟩
  exact (@runOn_table '|' _ ["x", "y"] session 0 Engine.default (by decide) (by decide) rfl isRow
    header_room ⟨1, 1⟩).1

/-- The only field that is not empty stands behind a tab, and is read as the first one. -/
theorem table_tab_shifts :
    let session : Session :=
      { Session.start .empty [] [] (.recorded [] []) with store := header }
    IsRow '\t' [[], ['b']] ∧ text '\t' [[[], ['b']]] = ['\t', 'b'] ∧
      (LibraryFunction.call Engine.default ⟨1, 1⟩ [.string "\t", .array 0, .string "\tb"]
          (.parse .table)).runOn session =
        (.ok (.array 1), session.adding #[#[.map 0]]
          #[#[(.string "x", .string "b"), (.string "y", .null)]]) := by
  intro session
  have b : IsField '\t' ['b'] := isField_singleton (by decide) (by decide) (by decide)
  have fields : ∀ field ∈ [[], ['b']], IsField '\t' field :=
    List.forall_mem_cons.mpr ⟨isField_nil, List.forall_mem_singleton.mpr b⟩
  have isRow : IsRow '\t' [[], ['b']] := ⟨fields, ['b'], by simp, by simp⟩
  exact ⟨isRow, rfl, @runOn_rows '\t' [[[], ['b']]] ["x", "y"] session 0 Engine.default (by decide)
    (by decide) rfl (List.forall_mem_singleton.mpr isRow) header_room ⟨1, 1⟩⟩

end Table

end ShellLisp
