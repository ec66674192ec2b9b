/-
`EntityOp` of `components/store.rs`.
-/
import Massbit.Data.Entity

namespace Massbit

/-- A representation of entity operations that can be accumulated. -/
inductive EntityOp where
  | remove
  | update (updates : Entity)
  | overwrite (data : Entity)
  deriving DecidableEq

namespace EntityOp

def applyTo : EntityOp → Option Entity → Option Entity
  | remove, _ => none
  | overwrite new, _ | update new, none => some new
  | update updates, some entity => some (Entity.mergeRemoveNullFields entity updates)

def accumulate (self next : EntityOp) : EntityOp :=
  match next with
  -- `remove` and `overwrite` ignore the current value
  | remove | overwrite _ => next
  | update u =>
    match self with
    -- this is how `overwrite` is constructed
    | remove => overwrite u
    | update current => update (Entity.merge current u)
    | overwrite current => overwrite (Entity.merge current u)

theorem accumulate_assoc (a b c : EntityOp) :
    (a.accumulate b).accumulate c = a.accumulate (b.accumulate c) := by
  rcases c with - | u | d
  · rfl
  · rcases b with - | v | w
    · rfl
    · rcases a with - | x | y
      · rfl
      · exact congrArg update (Entity.merge_assoc x v u)
      · exact congrArg overwrite (Entity.merge_assoc y v u)
    · rfl
  · rfl

def Composes (a b : EntityOp) (e : Option Entity) : Prop :=
  match b, a with
  | remove, _ | overwrite _, _ | update _, remove => True
  | update u, update _ => e.isSome ∨ u.NullFree
  | update u, overwrite _ => u.NullFree

theorem applyTo_accumulate (a b : EntityOp) (e : Option Entity) :
    b.applyTo (a.applyTo e) = (a.accumulate b).applyTo e ↔ a.Composes b e := by
  rcases b with - | u | d
  · exact iff_of_true rfl trivial
  · rcases a with - | v | d
    · exact iff_of_true rfl trivial
    · rcases e with - | e
      · -- no entity: the accumulated update is the entity
        show some (Entity.mergeRemoveNullFields v u) = some (Entity.merge v u) ↔ _
        rw [Option.some_inj, eq_comm, Entity.merge_eq_mergeRemoveNullFields]
        simp [Composes]
      · refine iff_of_true ?_ (.inl rfl)
        exact congrArg some (Entity.mergeRemoveNullFields_merge e v u).symm
    · show some (Entity.mergeRemoveNullFields d u) = some (Entity.merge d u) ↔ u.NullFree
      rw [Option.some_inj, eq_comm, Entity.merge_eq_mergeRemoveNullFields]
  · exact iff_of_true rfl trivial

def applyOpt (op : Option EntityOp) (e : Option Entity) : Option Entity :=
  op.elim e fun op => op.applyTo e

def andThen (a b : Option EntityOp) : Option EntityOp := Option.merge accumulate a b

@[simp] theorem andThen_none (a : Option EntityOp) : andThen a none = a := Option.merge_none_right

@[simp] theorem none_andThen (b : Option EntityOp) : andThen none b = b := Option.merge_none_left

@[simp] theorem some_andThen_some (a b : EntityOp) :
    andThen (some a) (some b) = some (a.accumulate b) := rfl

theorem andThen_assoc (a b c : Option EntityOp) :
    andThen (andThen a b) c = andThen a (andThen b c) := by
  rcases a with - | a <;> rcases b with - | b <;> rcases c with - | c <;> try rfl
  exact congrArg some (accumulate_assoc a b c)

theorem applyOpt_andThen (a b : Option EntityOp) (e : Option Entity) :
    applyOpt b (applyOpt a e) = applyOpt (andThen a b) e ↔ ∀ x ∈ a, ∀ y ∈ b, Composes x y e := by
  rcases a with - | a <;> rcases b with - | b
  · simp [applyOpt]
  · simp [applyOpt]
  · simp [applyOpt]
  · simpa [applyOpt] using applyTo_accumulate a b e

end EntityOp

def accumulateAt {K : Type} [DecidableEq K] (updates : HashMap K EntityOp) (key : K)
    (op : EntityOp) : HashMap K EntityOp :=
  match updates.lookup key with
  | none => updates.insert key op
  | some current => updates.insert key (current.accumulate op)

section Records

variable {K : Type} [DecidableEq K]

theorem lookup_accumulateAt_self (updates : HashMap K EntityOp) (key : K) (op : EntityOp) :
    (accumulateAt updates key op).lookup key = EntityOp.andThen (updates.lookup key) (some op) := by
  rcases e : updates.lookup key with - | current <;> simp [accumulateAt, e]

theorem lookup_accumulateAt_of_ne (us : HashMap K EntityOp) {key k : K} (op : EntityOp)
    (h : k ≠ key) : (accumulateAt us key op).lookup k = us.lookup k := by
  rcases e : us.lookup key with - | c <;>
    simp [accumulateAt, e, Finmap.lookup_insert_of_ne _ h]

theorem lookup_foldl_accumulateAt {l : List (Σ _ : K, EntityOp)} (hl : l.NodupKeys)
    (updates : HashMap K EntityOp) (key : K) :
    (l.foldl (fun u x => accumulateAt u x.1 x.2) updates).lookup key
      = EntityOp.andThen (updates.lookup key) (l.dlookup key) := by
  rw [Finmap.foldl_at (g := Finmap.lookup key) (h := fun op o => EntityOp.andThen o (some op))
    ?_ ?_ hl updates]
  · rcases l.dlookup key with - | op
    · exact (EntityOp.andThen_none _).symm
    · rfl
  · intro u x hx
    exact lookup_accumulateAt_of_ne u x.2 (Ne.symm hx)
  · intro u op
    exact lookup_accumulateAt_self u key op

end Records

end Massbit
