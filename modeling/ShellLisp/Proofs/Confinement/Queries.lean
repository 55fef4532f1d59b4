import ShellLisp.Evaluation.Printed
import ShellLisp.Library.Host
import ShellLisp.Proofs.Confinement.Store
import ShellLisp.Proofs.Members.Parts

/-!
# Reading values

No value is printed, compared or taken apart by way of a scope, and what is read out of a value of a
region is of the region.
-/

namespace ShellLisp

namespace Store
variable (store : Store) (scopes : Scopes Value)

theorem literalWithin_withScopes (depth : Nat) :
    (store.withScopes scopes).literalWithin depth = store.literalWithin depth := by
  induction depth with
  | zero => rfl
  | succ depth ih =>
      funext within value
      simp only [literalWithin, ih]
      rfl

theorem literal_withScopes (value : Value) :
    (store.withScopes scopes).literal value = store.literal value := by
  rw [literal, literalWithin_withScopes]
  rfl

theorem shown_withScopes (value : Value) :
    (store.withScopes scopes).shown value = store.shown value := by
  cases value
  case string => rfl
  all_goals exact literal_withScopes store scopes _

theorem leafText_withScopes : leafText (store.withScopes scopes) = leafText store := by
  funext quoted value
  cases value
  case null | bool | number | string | host => rfl
  all_goals exact literal_withScopes store scopes _

theorem textWithin_withScopes (leaf : Bool → Value → Except Failure String) (depth : Nat) :
    (store.withScopes scopes).textWithin leaf depth = store.textWithin leaf depth := by
  induction depth with
  | zero => rfl
  | succ depth ih =>
      funext quoted value
      simp only [textWithin, ih]
      rfl

theorem text_withScopes (quoted : Bool) (value : Value) :
    (store.withScopes scopes).text quoted value = store.text quoted value := by
  rw [text, leafText_withScopes, textWithin_withScopes]
  rfl

theorem usedUp?_withScopes (value : Value) :
    (store.withScopes scopes).usedUp? value = store.usedUp? value := by
  cases value with
  | closure ref =>
      have shown : (store.withScopes scopes).shown = store.shown :=
        funext (store.shown_withScopes scopes)
      simp only [usedUp?, printedParameters?, functionLabel, shown]
      rfl
  | _ => rfl

theorem equalWithin_withScopes (depth : Nat) :
    (store.withScopes scopes).equalWithin depth = store.equalWithin depth := by
  induction depth with
  | zero => rfl
  | succ depth ih =>
      funext left right
      simp only [equalWithin, ih]
      rfl

theorem equalElements_withScopes :
    (store.withScopes scopes).equalElements = store.equalElements := by
  funext left right
  simp only [equalElements, equalWithin_withScopes]

theorem equal_withScopes (left right : Value) :
    (store.withScopes scopes).equal left right = store.equal left right := by
  simp only [equal, equalWithin_withScopes]

theorem firstDifference_withScopes :
    (store.withScopes scopes).firstDifference = store.firstDifference := by
  funext left right
  induction left generalizing right with
  | nil => rfl
  | cons first rest ih =>
      cases right with
      | nil => rfl
      | cons other others => simp only [firstDifference, equalElements_withScopes, ih]

theorem compareWithin_withScopes (comparison : Comparison) (depth : Nat) :
    (store.withScopes scopes).compareWithin comparison depth =
      store.compareWithin comparison depth := by
  induction depth with
  | zero => rfl
  | succ depth ih =>
      funext left right
      simp only [compareWithin, ih, firstDifference_withScopes]
      rfl

theorem holds_withScopes (comparison : Comparison) (left right : Value) :
    (store.withScopes scopes).holds comparison left right = store.holds comparison left right := by
  rw [holds, compareWithin_withScopes]
  rfl

end Store

namespace Template
variable (store : Store) (scopes : Scopes Value)

theorem fill_place_withScopes (place : Place) (letter : Char) (position : Nat) (value : Value) :
    place.fill (store.withScopes scopes) letter position value =
      place.fill store letter position value := by
  simp only [Place.fill, Store.shown_withScopes, Store.literal_withScopes]

theorem fillPlace_withScopes (length : Nat) (supply : Supply) (text : List Char) :
    fillPlace (store.withScopes scopes) length supply text =
      fillPlace store length supply text := by
  simp only [fillPlace, fill_place_withScopes]
  rfl

theorem fillWithin_withScopes (length bound : Nat) (supply : Supply) (text : List Char) :
    fillWithin (store.withScopes scopes) length bound supply text =
      fillWithin store length bound supply text := by
  induction bound, supply, text using fillWithin.induct with
  | case1 supply text => rfl
  | case2 bound supply => rfl
  | case3 bound supply rest ih => simp only [fillWithin, ih]
  | case4 bound supply rest different ih =>
      simp only [fillWithin, fillPlace_withScopes, ih]
  | case5 bound supply c rest first second ih => simp only [fillWithin, ih]

theorem fill_withScopes (template : String) (value : Value) :
    fill (store.withScopes scopes) template value = fill store template value := by
  simp only [fill, fillWithin_withScopes]

end Template

namespace Region
variable {R : Region} {store : Store}

theorem value_atom {value : Value} (atom : value.IsAtom) : R.value value := by
  cases value with
  | null => exact R.null
  | bool b => exact R.bool b
  | number n => exact R.number n
  | string text => exact R.string text
  | _ => exact atom.elim

theorem cursor_values {cursor : Cursor} (inside : R.cursor cursor) : R.values cursor.values := by
  cases cursor with
  | elements | pairs | keys | sequence => exact List.forall_mem_singleton.mpr inside
  | items rest => exact inside
  | chars | ended => exact values_nil

theorem state_values {state : SequenceState} (inside : R.state state) : R.values state.values := by
  cases state with
  | counting | stepping | finished => exact values_nil
  | mapped | filtered =>
      exact values_cons.mpr ⟨inside.1, List.forall_mem_singleton.mpr inside.2⟩
  | flattened =>
      exact values_cons.mpr ⟨inside.1, values_cons.mpr ⟨inside.2.1, cursor_values inside.2.2⟩⟩
  | skipping => exact List.forall_mem_singleton.mpr inside

theorem cursor_entries (store : Store) {value : Value} (inside : R.value value) :
    R.cursor (Cursor.entries store value) := by
  cases value with
  | tuple items => exact (R.tuple items).mp inside
  | array ref | map ref | sequence ref => exact inside
  | string text => trivial
  | null | bool | number | complex | library | form | closure | bound | object | host => trivial

theorem cursor_plain (store : Store) {value : Value} (inside : R.value value) :
    R.cursor (Cursor.plain store value) := by
  cases value with
  | map ref => exact inside
  | null | bool | number | string | tuple | complex | array | library | form | closure | bound
  | sequence | object | host => exact cursor_entries store inside

theorem values_toList {β : Type} {found : Option β} {part : β → Value}
    (each : ∀ b, found = some b → R.value (part b)) : R.values (found.map part).toList := by
  cases found with
  | none => exact values_nil
  | some b => exact values_cons.mpr ⟨each b rfl, values_nil⟩

theorem values_getD {β : Type} {found : Option β} {parts : β → List Value}
    (each : ∀ b, found = some b → R.values (parts b)) : R.values ((found.map parts).getD []) := by
  cases found with
  | none => exact values_nil
  | some b => exact each b rfl

namespace Closed

theorem sequenceState (closed : R.Closed store) {ref : Nat} (inside : R.value (.sequence ref)) :
    R.state ((store.sequences[ref]?.map (·.state)).getD .finished) := by
  cases there : store.sequences[ref]? with
  | none => trivial
  | some found => exact (closed.sequence inside there).state

theorem contents (closed : R.Closed store) {value : Value} (inside : R.value value) :
    R.values (store.contents value) := by
  cases value with
  | tuple items => exact (R.tuple items).mp inside
  | array ref => exact closed.array inside
  | map ref =>
      have entries := closed.map inside
      refine values_append (List.forall_mem_map.mpr ?_) (List.forall_mem_map.mpr ?_)
      · exact fun entry member => (entries entry member).1
      · exact fun entry member => (entries entry member).2
  | library ref => exact values_toList fun cell there => (closed.library inside there).2
  | form ref => exact values_toList fun cell there => closed.form inside there
  | closure ref =>
      refine values_getD fun found there => ?_
      obtain ⟨parameters, -, name, replaced⟩ := closed.closure inside there
      exact values_cons.mpr ⟨parameters, values_cons.mpr ⟨name, replaced⟩⟩
  | bound ref =>
      refine values_getD fun method there => ?_
      obtain ⟨receiver, replaced⟩ := closed.bound inside there
      exact values_cons.mpr ⟨receiver, replaced⟩
  | sequence ref =>
      refine values_getD fun found there => ?_
      obtain ⟨label, state⟩ := closed.sequence inside there
      exact values_cons.mpr ⟨label, state_values state⟩
  | object ref => exact closed.object inside
  | host function => exact closed.host inside
  | null | bool | number | string | complex => exact values_nil

theorem read (closed : R.Closed store) {container key found : Value}
    (inside : R.value container) (read : Member.read store container key = .ok found) :
    R.value found := by
  rcases Member.isPart_read read with part | atom
  · exact closed.contents inside found part
  · exact value_atom atom

theorem keyed (closed : R.Closed store) {receiver found : Value} {key : String}
    (inside : R.value receiver) (read : HostFunction.keyed store receiver key = .ok found) :
    R.value found := by
  unfold HostFunction.keyed at read
  split at read
  · rename_i ref
    split at read
    · rename_i value there
      cases read
      exact entries_get? (closed.map inside) there
    · cases read
  all_goals cases read

end Closed

namespace Confines

theorem setState (ref : Nat) {state : SequenceState} (inside : R.state state) :
    R.Confines (LazySequence.setState ref state) fun _ => True :=
  update (fun _ _ => rfl) (fun _ => rfl) fun _ closed =>
    closed.modifySequence ref fun _ former => { former with state := inside }

theorem print (value : Value) : R.Confines (Eval.print value) fun _ => True := by
  refine get_bind (fun session _ => ?_) fun session _ => ?_
  · rw [show (R.masked session).store = session.store.withScopes _ from rfl,
      Store.usedUp?_withScopes]
  · split
    · exact read (fun store scopes => store.text_withScopes scopes false value)
        fun _ _ _ _ => trivial
    · exact bind (setState _ trivial) fun _ _ => read (fun _ _ => rfl) fun _ _ _ _ => trivial

theorem shown (value : Value) :
    R.Confines (Eval.read fun store => store.shown value) fun _ => True :=
  read (fun store scopes => store.shown_withScopes scopes value) fun _ _ _ _ => trivial

theorem compared (comparison : Comparison) (left right : Value) :
    R.Confines (Eval.read fun store => store.holds comparison left right) fun _ => True :=
  read (fun store scopes => store.holds_withScopes scopes comparison left right)
    fun _ _ _ _ => trivial

theorem truthy (value : Value) :
    R.Confines (Eval.ask fun store => store.truthy value) fun _ => True :=
  ask (fun _ _ => rfl) fun _ _ => trivial

theorem array {ref : Nat} (inside : R.value (.array ref)) :
    R.Confines (Eval.ask fun store => store.array ref) fun items => R.values items.toList :=
  ask (fun _ _ => rfl) fun _ closed => closed.array inside

theorem map {ref : Nat} (inside : R.value (.map ref)) :
    R.Confines (Eval.ask fun store => store.map ref) fun found => R.entries found.toList :=
  ask (fun _ _ => rfl) fun _ closed => closed.map inside

theorem entries {value : Value} (inside : R.value value) :
    R.Confines (Engine.entries value) R.cursor :=
  ask (fun _ _ => rfl) fun store _ => cursor_entries store inside

theorem elements {value : Value} (inside : R.value value) :
    R.Confines (Engine.elements value) R.cursor :=
  ask (fun _ _ => rfl) fun store _ => cursor_plain store inside

end Confines

end Region

end ShellLisp
