import ShellLisp.Proofs.Reading.Spelling

/-!
# The passes do not look at places

A tree without places is made the tree without places that the passes make of the tree, and it is
refused when the tree is.
-/

namespace ShellLisp.Expr

section
variable {α β γ δ : Type}

/-- Two results that both are failures, or of which the second is made from the first. -/
def Follows (change : α → β) (first : Except Failure α) (second : Except Failure β) : Prop :=
  second.toOption = first.toOption.map change

theorem Follows.bind {change : α → β} {first : Except Failure α} {second : Except Failure β}
    (follows : Follows change first second) {next : γ → δ} {further : α → Except Failure γ}
    {beside : β → Except Failure δ}
    (later : ∀ a, first = .ok a → Follows next (further a) (beside (change a))) :
    Follows next (first >>= further) (second >>= beside) := by
  cases first with
  | error failure =>
      cases second with
      | error reason => rfl
      | ok b => cases follows
  | ok a =>
      cases second with
      | error reason => cases follows
      | ok b =>
          cases follows
          exact later a rfl

theorem Follows.exists_ok {change : α → β} {first : Except Failure α} {second : Except Failure β}
    (follows : Follows change first second) {a : α} (done : first = .ok a) :
    second = .ok (change a) := by
  subst done
  cases second with
  | error reason => cases follows
  | ok b =>
      cases follows
      rfl

theorem Follows.mapM {body : List Expr} {pass : Expr → Except Failure Expr}
    (each : ∀ e ∈ body, Follows placeless (pass e) (pass e.placeless)) :
    Follows (List.map placeless) (body.mapM pass) ((body.map placeless).mapM pass) := by
  induction body with
  | nil => rfl
  | cons e rest ih =>
      rw [List.map_cons, List.mapM_cons, List.mapM_cons]
      refine (each e (by simp)).bind fun first _ => ?_
      exact (ih fun x member => each x (by simp [member])).bind fun _ _ => rfl

end

/-! ## Marking commands -/

theorem asHead_placeless (e : Expr) : e.placeless.asHead = e.asHead.placeless := by
  cases e with
  | value place literal => cases literal <;> rfl
  | _ => rfl

theorem markHead_placeless (body : List Expr) :
    markHead (body.map placeless) = (markHead body).map placeless := by
  cases body with
  | nil => rfl
  | cons e rest => rw [List.map_cons, markHead_cons, markHead_cons, asHead_placeless, List.map_cons]

theorem withCommands_placeless (e : Expr) :
    e.placeless.withCommands = e.withCommands.placeless := by
  induction e using Expr.induction with
  | call place body ih =>
      simp only [placeless, withCommands, placelessAll_eq_map, withCommandsAll_eq_map, List.map_map,
        ← markHead_placeless]
      congr 2
      exact List.map_congr_left ih
  | array place body ih =>
      simp only [placeless, withCommands, placelessAll_eq_map, withCommandsAll_eq_map, List.map_map]
      congr 1
      exact List.map_congr_left ih
  | map place body ih =>
      simp only [placeless, withCommands, placelessAll_eq_map, withCommandsAll_eq_map, List.map_map]
      congr 1
      exact List.map_congr_left ih
  | value place literal => rfl
  | command place name => rfl
  | reference place name => rfl

/-! ## Joining groups -/

theorem operator?_placeless (e : Expr) : e.placeless.operator? = e.operator? := by
  cases e with
  | value place literal => cases literal <;> rfl
  | _ => rfl

theorem isBareWord_placeless (e : Expr) : e.placeless.isBareWord = e.isBareWord := by
  cases e with
  | value place literal => cases literal <;> rfl
  | _ => rfl

theorem place_placeless (e : Expr) : e.placeless.place = .nowhere := by
  cases e <;> rfl

def Split.placeless (split : Split) : Split :=
  ⟨split.left.map Expr.placeless, .nowhere, split.operator, split.right.map Expr.placeless⟩

theorem splitLast?_placeless (body : List Expr) :
    splitLast? (body.map placeless) = (splitLast? body).map Split.placeless := by
  induction body with
  | nil => rfl
  | cons e rest ih =>
      rw [List.map_cons, splitLast?, splitLast?, ih, operator?_placeless, place_placeless]
      cases splitLast? rest with
      | some split => rfl
      | none => cases e.operator? <;> rfl

theorem group_placeless (items : List Expr) (place : Location) :
    group (items.map placeless) .nowhere = (group items place).placeless := by
  have first : ((items.map placeless).head?.map Expr.place).getD .nowhere = .nowhere := by
    cases items with
    | nil => rfl
    | cons e rest => exact place_placeless e
  unfold group
  rw [first, markHead_placeless]
  match items with
  | [] => rfl
  | [e] =>
      simp only [List.map_cons, List.map_nil, isBareWord_placeless]
      split
      · rw [placeless, placelessAll_eq_map]
      · rfl
  | first :: second :: rest => simp [placeless, placelessAll_eq_map]

theorem items_placeless (split : Split) : split.placeless.items = split.items.map placeless := by
  obtain ⟨left, place, operator, right⟩ := split
  simp only [Split.placeless, Split.items, group_placeless left place,
    group_placeless right place]
  split
  · rfl
  · cases right with
    | nil => rfl
    | cons target rest =>
        simp only [List.map_cons]
        split
        · rw [← markHead_placeless]
          rfl
        · rw [← markHead_placeless]
          simp

theorem follows_regroup (body : List Expr) :
    Follows (List.map placeless) (regroup body) (regroup (body.map placeless)) := by
  unfold regroup
  rw [splitLast?_placeless]
  cases splitLast? body with
  | none => rfl
  | some split =>
      simp only [Option.map_some, items_placeless]
      simp only [Split.placeless, List.isEmpty_map]
      split
      · rfl
      · split <;> rfl

theorem follows_withPipes (e : Expr) : Follows placeless (withPipes e) (withPipes e.placeless) := by
  induction size : e.size using Nat.strongRecOn generalizing e with
  | ind bound ih =>
      subst size
      cases e with
      | call place body =>
          rw [placeless, placelessAll_eq_map, withPipes_call, withPipes_call]
          refine (follows_regroup body).bind fun items done => ?_
          refine (Follows.mapM fun e member => ?_).bind fun inner _ => ?_
          · exact ih e.size (size_mem_regroup place done member) e rfl
          · rw [← placelessAll_eq_map]
            rfl
      | array place body =>
          rw [placeless, placelessAll_eq_map, withPipes_array, withPipes_array]
          refine (Follows.mapM fun e member => ?_).bind fun inner _ => ?_
          · exact ih e.size (Nat.lt_succ_of_le (size_le_sizeAll member)) e rfl
          · rw [← placelessAll_eq_map]
            rfl
      | map place body =>
          rw [placeless, placelessAll_eq_map, withPipes_map, withPipes_map]
          refine (Follows.mapM fun e member => ?_).bind fun inner _ => ?_
          · exact ih e.size (Nat.lt_succ_of_le (size_le_sizeAll member)) e rfl
          · rw [← placelessAll_eq_map]
            rfl
      | value place literal => simp only [placeless, withPipes]; rfl
      | command place name => simp only [placeless, withPipes]; rfl
      | «variable» place name => simp only [placeless, withPipes]; rfl

/-! ## Reading members -/

theorem follows_keys (place : Location) (parts : List String) :
    Follows (List.map placeless) (keys place parts) (keys .nowhere parts) := by
  unfold keys
  split
  · rfl
  · simp [Follows, Except.toOption, ofText, placeless]

theorem follows_memberLookup (place : Location) (name : String) :
    Follows placeless (memberLookup place name) (memberLookup .nowhere name) := by
  unfold memberLookup
  split
  · rfl
  · rename_i head parts _
    dsimp only
    split
    · rfl
    · refine (follows_keys place parts).bind fun path _ => ?_
      rw [← placelessAll_eq_map]
      rfl

theorem follows_memberItems (place commandPlace : Location) (name : String)
    (arguments : List Expr) :
    Follows (fun parts => (parts.1.map placeless, parts.2.map placeless))
      (memberItems place commandPlace name arguments)
      (memberItems .nowhere .nowhere name (arguments.map placeless)) := by
  unfold memberItems
  rw [List.length_map]
  dsimp only
  split
  · rfl
  · exact (follows_keys commandPlace _).bind fun path _ => rfl

theorem head_placeless {body : List Expr}
    (other : ∀ place name, body.head? = some (.command place name) → isMemberCommand name = false)
    (place : Location) (name : String)
    (head : (body.map placeless).head? = some (.command place name)) :
    isMemberCommand name = false := by
  cases body with
  | nil => cases head
  | cons e rest =>
      cases e with
      | command commandPlace found =>
          cases head
          exact other commandPlace name rfl
      | _ => cases head

theorem follows_withMembers_call {place : Location} {body : List Expr}
    (each : ∀ e ∈ body, Follows placeless (withMembers e) (withMembers e.placeless))
    (other : ∀ place name, body.head? = some (.command place name) → isMemberCommand name = false) :
    Follows placeless (withMembers (.call place body))
      (withMembers (.call .nowhere (body.map placeless))) := by
  rw [withMembers_call other, withMembers_call (head_placeless other)]
  refine (Follows.mapM each).bind fun inner _ => ?_
  rw [← placelessAll_eq_map]
  rfl

theorem follows_withMembers (e : Expr) :
    Follows placeless (withMembers e) (withMembers e.placeless) := by
  induction e using Expr.induction with
  | call place body ih =>
      rw [placeless, placelessAll_eq_map]
      -- Whether a call reads or writes a member depends on its head, which has no place in it.
      rcases memberCall_or_other body with ⟨commandPlace, name, arguments, rfl, member⟩ | other
      · rw [List.map_cons, placeless, withMembers_call_of_member member,
          withMembers_call_of_member member]
        refine (follows_memberItems place commandPlace name arguments).bind fun parts _ => ?_
        have inner : Follows (List.map placeless) (arguments.mapM withMembers)
            ((arguments.map placeless).mapM withMembers) :=
          Follows.mapM fun e inside => ih e (by simp [inside])
        refine inner.bind fun items _ => ?_
        simp [Follows, Except.toOption, pure, Except.pure, placeless, placelessAll_eq_map]
      · exact follows_withMembers_call ih other
  | array place body ih =>
      rw [placeless, withMembers, withMembers, withMembersAll_eq_mapM, withMembersAll_eq_mapM,
        placelessAll_eq_map]
      refine (Follows.mapM ih).bind fun inner _ => ?_
      rw [← placelessAll_eq_map]
      rfl
  | map place body ih =>
      rw [placeless, withMembers, withMembers, withMembersAll_eq_mapM, withMembersAll_eq_mapM,
        placelessAll_eq_map]
      refine (Follows.mapM ih).bind fun inner _ => ?_
      rw [← placelessAll_eq_map]
      rfl
  | value place literal => rfl
  | command place name =>
      rw [placeless, withMembers, withMembers]
      split
      · exact follows_memberLookup place name
      · rfl
  | reference place name =>
      rw [placeless, withMembers, withMembers]
      split
      · exact follows_memberLookup place name
      · rfl

/-! ## Flattening sequences -/

theorem sequence?_placeless (e : Expr) :
    e.placeless.sequence? = e.sequence?.map (List.map placeless) := by
  cases e with
  | call place body =>
      cases body with
      | nil => rfl
      | cons head arguments =>
          cases head with
          | command commandPlace name =>
              simp only [placeless, placelessAll, sequence?, placelessAll_eq_map]
              split <;> rfl
          | _ => rfl
  | _ => rfl

theorem splice_placeless (arguments : List Expr) :
    splice (arguments.map placeless) = (splice arguments).map placeless := by
  simp only [splice, List.flatMap_map, List.map_flatMap, sequence?_placeless]
  congr 1
  funext e
  cases e.sequence? <;> rfl

theorem withSequences_placeless (e : Expr) :
    e.placeless.withSequences = e.withSequences.placeless := by
  induction e using Expr.induction with
  | call place body ih =>
      cases found : (Expr.call place body).sequence? with
      | none =>
          have none : (Expr.call .nowhere (body.map placeless)).sequence? = none := by
            have same := sequence?_placeless (.call place body)
            rwa [found, placeless, placelessAll_eq_map] at same
          rw [withSequences_call found, placeless, placeless, placelessAll_eq_map,
            placelessAll_eq_map, withSequences_call none, List.map_map, List.map_map]
          congr 1
          exact List.map_congr_left ih
      | some arguments =>
          obtain ⟨p, commandPlace, whole⟩ := eq_call_of_sequence? found
          cases whole
          have inner : (arguments.map placeless).map withSequences =
              (arguments.map withSequences).map placeless := by
            rw [List.map_map, List.map_map]
            exact List.map_congr_left fun e member => ih e (by simp [member])
          simp only [placeless, placelessAll, placelessAll_eq_map, withSequences_sequence, inner,
            splice_placeless]
  | array place body ih =>
      simp only [placeless, withSequences, placelessAll_eq_map, withSequencesAll_eq_map,
        List.map_map]
      congr 1
      exact List.map_congr_left ih
  | map place body ih =>
      simp only [placeless, withSequences, placelessAll_eq_map, withSequencesAll_eq_map,
        List.map_map]
      congr 1
      exact List.map_congr_left ih
  | value place literal => rfl
  | command place name => rfl
  | reference place name => rfl

/-! ## All passes -/

theorem heightAll_placeless {body : List Expr} (each : ∀ e ∈ body, e.placeless.height = e.height) :
    heightAll (body.map placeless) = heightAll body := by
  induction body with
  | nil => rfl
  | cons e rest ih =>
      rw [List.map_cons, heightAll, heightAll, each e (by simp),
        ih fun x member => each x (by simp [member])]

theorem height_placeless (e : Expr) : e.placeless.height = e.height := by
  induction e using Expr.induction with
  | call place body ih =>
      rw [placeless, placelessAll_eq_map, height, height, heightAll_placeless ih]
  | array place body ih =>
      rw [placeless, placelessAll_eq_map, height, height, heightAll_placeless ih]
  | map place body ih =>
      rw [placeless, placelessAll_eq_map, height, height, heightAll_placeless ih]
  | value place literal => rfl
  | command place name => rfl
  | reference place name => rfl

theorem follows_checkDepth (limit : Nat) (e : Expr) :
    Follows placeless (e.checkDepth limit) (e.placeless.checkDepth limit) := by
  unfold checkDepth
  rw [height_placeless]
  split <;> rfl

def Passes.placeless (passes : Passes) : Passes :=
  ⟨passes.commands.placeless, passes.pipes.placeless, passes.members.placeless,
    passes.sequences.placeless⟩

theorem follows_passes (e : Expr) : Follows Passes.placeless e.passes e.placeless.passes := by
  simp only [passes, withPipesWithin, withMembersWithin, withCommands_placeless]
  have pipes := (follows_withPipes e.withCommands).bind fun piped _ =>
    follows_checkDepth depthLimits.trees piped
  refine pipes.bind fun piped _ => ?_
  have members := (follows_withMembers piped).bind fun read _ =>
    follows_checkDepth depthLimits.trees read
  refine members.bind fun read _ => ?_
  rw [withSequences_placeless]
  rfl

theorem follows_desugar (e : Expr) : Follows placeless e.desugar e.placeless.desugar :=
  (follows_passes e).bind fun _ _ => rfl

theorem desugar_eq_of_withCommands {e other : Expr} (same : e.withCommands = other.withCommands) :
    e.desugar = other.desugar := by
  rw [desugar, desugar, passes, passes, same]

end ShellLisp.Expr
