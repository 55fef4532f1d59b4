import ShellLisp.Session

/-!
# Evaluations that are followed

Evaluation here is that of the evaluator but for two things that programs can do in its host. One is to
ask for a part of the evaluator or a method of the host, or to call a function of which such a part was
replaced: that ends with an internal fault. The other is to let go of a view. The host drops what nothing
refers to any more, and a flattened view that is dropped while it stands within a lazy sequence closes
that sequence, whoever else goes through it. Nothing is dropped here. So a view that was dropped in the
host still stands within its sequence at the end, and a store without such views tells that no sequence
was closed.
-/

namespace ShellLisp

def Failure.isInternal : Failure → Bool
  | .fault found => found.kind == .internal
  | .problem _ | .tooDeep => false

/-- Whether a program asked for nothing that is not followed. -/
def isFollowed {α : Type} : Except Failure α → Bool
  | .error failure => !failure.isInternal
  | .ok _ => true

/-- Whether a sequence is a flattened view that has given some element of a lazy sequence, and has not
yet found that sequence to have ended. -/
def SequenceState.isWithin : SequenceState → Bool
  | .flattened _ _ _ (.sequence _) => true
  | _ => false

/-- No view stands within a lazy sequence, so no sequence would be closed if a view was dropped. -/
def Store.Settled (store : Store) : Prop :=
  ∀ sequence ∈ store.sequences.toList, sequence.state.isWithin = false

instance (store : Store) : Decidable store.Settled := List.decidableBAll _ _

/-- A program was followed to its end, and closed no sequence. -/
structure Followed {α : Type} (ended : Except Failure α × Session) : Prop where
  outcome : isFollowed ended.1 = true
  settled : ended.2.store.Settled

end ShellLisp
