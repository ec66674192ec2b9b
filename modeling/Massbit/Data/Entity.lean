/-
Attribute values and entities (`data/store/mod.rs`).
-/
import Massbit.Lib.MapLoop
import Mathlib.Tactic.Common

open Finmap

namespace Massbit

/-- `BigDecimal`: digits and exponent, as `as_bigint_and_exponent` gives them. -/
structure BigDecimal where
  digits : ℤ
  exp : ℤ
  deriving DecidableEq, Repr

inductive Value where
  | string (s : String)
  | int (i : Int32)
  | bigDecimal (d : BigDecimal)
  | bool (b : Bool)
  | list (vs : List Value)
  | null
  | bytes (bs : List UInt8)
  | bigInt (i : ℤ)

mutual

def Value.decEq : (a b : Value) → Decidable (a = b)
  | .string s, b => match b with
    | .string t => decidable_of_iff (s = t) (by simp)
    | .int _ | .bigDecimal _ | .bool _ | .list _ | .null | .bytes _ | .bigInt _ => isFalse (by simp)
  | .int s, b => match b with
    | .int t => decidable_of_iff (s = t) (by simp)
    | .string _ | .bigDecimal _ | .bool _ | .list _ | .null | .bytes _ | .bigInt _ =>
      isFalse (by simp)
  | .bigDecimal s, b => match b with
    | .bigDecimal t => decidable_of_iff (s = t) (by simp)
    | .string _ | .int _ | .bool _ | .list _ | .null | .bytes _ | .bigInt _ => isFalse (by simp)
  | .bool s, b => match b with
    | .bool t => decidable_of_iff (s = t) (by simp)
    | .string _ | .int _ | .bigDecimal _ | .list _ | .null | .bytes _ | .bigInt _ =>
      isFalse (by simp)
  | .list s, b => match b with
    | .list t => match Value.decEqList s t with
      | isTrue h => isTrue (congrArg Value.list h)
      | isFalse h => isFalse fun e => h (Value.list.inj e)
    | .string _ | .int _ | .bigDecimal _ | .bool _ | .null | .bytes _ | .bigInt _ =>
      isFalse (by simp)
  | .null, b => match b with
    | .null => isTrue rfl
    | .string _ | .int _ | .bigDecimal _ | .bool _ | .list _ | .bytes _ | .bigInt _ =>
      isFalse (by simp)
  | .bytes s, b => match b with
    | .bytes t => decidable_of_iff (s = t) (by simp)
    | .string _ | .int _ | .bigDecimal _ | .bool _ | .list _ | .null | .bigInt _ =>
      isFalse (by simp)
  | .bigInt s, b => match b with
    | .bigInt t => decidable_of_iff (s = t) (by simp)
    | .string _ | .int _ | .bigDecimal _ | .bool _ | .list _ | .null | .bytes _ => isFalse (by simp)

def Value.decEqList : (as bs : List Value) → Decidable (as = bs)
  | [], [] => isTrue rfl
  | [], _ :: _ => isFalse (by simp)
  | _ :: _, [] => isFalse (by simp)
  | a :: as, b :: bs => match Value.decEq a b, Value.decEqList as bs with
    | isTrue h, isTrue h' => isTrue (by rw [h, h'])
    | isFalse h, _ => isFalse fun e => h (List.cons.inj e).1
    | _, isFalse h => isFalse fun e => h (List.cons.inj e).2

end

instance : DecidableEq Value := Value.decEq

abbrev Attribute := String

abbrev Entity := HashMap Attribute Value

namespace Entity

def new : Entity := ∅

def ofList (l : List (Attribute × Value)) : Entity := l.foldl (fun e x => e.insert x.1 x.2) ∅

inductive IdError where
  | missing
  | nonString
  deriving DecidableEq, Repr

def id (self : Entity) : Except IdError String :=
  match self.lookup "id" with
  | none => .error .missing
  | some (.string s) => .ok s
  | some _ => .error .nonString

theorem id_eq_ok {self : Entity} {i : String} :
    self.id = .ok i ↔ self.lookup "id" = some (.string i) := by
  unfold id
  split
  next h => simp [h]
  next s h => simp [h]
  next v hv h =>
    rw [h]
    refine iff_of_false nofun fun hi => ?_
    exact hv i (Option.some.inj hi)

def merge (self update : Entity) : Entity :=
  update.forEach (fun e a => e.insert a.1 a.2) (fun e _ _ h => insert_insert_of_ne e h) self

def setOrRemove (self : Entity) (key : Attribute) (value : Value) : Entity :=
  match value with
  | .null => self.erase key
  | _ => self.insert key value

theorem lookup_setOrRemove_self (self : Entity) (key : Attribute) (value : Value) :
    (self.setOrRemove key value).lookup key = if value = .null then none else some value := by
  cases value <;> simp [setOrRemove]

theorem lookup_setOrRemove_of_ne (self : Entity) {key a : Attribute} (v : Value)
    (h : a ≠ key) : (self.setOrRemove key v).lookup a = self.lookup a := by
  cases v <;>
    simp only [setOrRemove, lookup_insert_of_ne _ h, lookup_erase_ne h]

theorem setOrRemove_comm (self : Entity) {k k' : Attribute} (v v' : Value) (h : k ≠ k') :
    (self.setOrRemove k v).setOrRemove k' v' = (self.setOrRemove k' v').setOrRemove k v := by
  refine ext_lookup fun a => ?_
  by_cases ha : a = k
  · subst ha
    rw [lookup_setOrRemove_of_ne _ _ h, lookup_setOrRemove_self, lookup_setOrRemove_self]
  · by_cases ha' : a = k'
    · subst ha'
      rw [lookup_setOrRemove_of_ne _ _ ha, lookup_setOrRemove_self, lookup_setOrRemove_self]
    · rw [lookup_setOrRemove_of_ne _ _ ha', lookup_setOrRemove_of_ne _ _ ha,
        lookup_setOrRemove_of_ne _ _ ha, lookup_setOrRemove_of_ne _ _ ha']

def mergeRemoveNullFields (self update : Entity) : Entity :=
  update.forEach (fun e a => e.setOrRemove a.1 a.2)
    (fun e a a' h => e.setOrRemove_comm a.2 a'.2 h) self

theorem lookup_merge (self u : Entity) (a : Attribute) :
    (self.merge u).lookup a = (u.lookup a).elim (self.lookup a) some := by
  refine forEach_at (g := Finmap.lookup a) (h := fun v _ => some v) ?_ ?_ self
  · intro e x h
    exact lookup_insert_of_ne e (Ne.symm h)
  · intro e v
    exact lookup_insert e

theorem lookup_mergeRemoveNullFields (self u : Entity) (a : Attribute) :
    (self.mergeRemoveNullFields u).lookup a
      = (u.lookup a).elim (self.lookup a) fun v => if v = .null then none else some v := by
  refine forEach_at (g := Finmap.lookup a)
    (h := fun v _ => if v = .null then none else some v) ?_ ?_ self
  · intro e x h
    exact lookup_setOrRemove_of_ne e x.2 (Ne.symm h)
  · intro e v
    exact lookup_setOrRemove_self e a v

theorem merge_assoc (e u v : Entity) : (e.merge u).merge v = e.merge (u.merge v) :=
  ext_lookup fun a => by
    rw [lookup_merge, lookup_merge, lookup_merge, lookup_merge]
    cases v.lookup a <;> rfl

theorem mergeRemoveNullFields_merge (e u v : Entity) :
    e.mergeRemoveNullFields (u.merge v) = (e.mergeRemoveNullFields u).mergeRemoveNullFields v :=
  ext_lookup fun a => by
    rw [lookup_mergeRemoveNullFields, lookup_mergeRemoveNullFields, lookup_mergeRemoveNullFields,
      lookup_merge]
    cases v.lookup a <;> rfl

def NullFree (e : Entity) : Prop := ∀ a, e.lookup a ≠ some .null

def removeNullFields (e : Entity) : Entity := Entity.new.mergeRemoveNullFields e

theorem lookup_removeNullFields (e : Entity) (a : Attribute) :
    e.removeNullFields.lookup a = if e.lookup a = some .null then none else e.lookup a := by
  rw [removeNullFields, lookup_mergeRemoveNullFields]
  cases e.lookup a with
  | none => simp [new]
  | some v => by_cases hv : v = .null <;> simp [hv]

theorem nullFree_removeNullFields (e : Entity) : e.removeNullFields.NullFree := by
  intro a
  rw [lookup_removeNullFields]
  by_cases h : e.lookup a = some .null <;> simp [h]

variable {e : Entity}

theorem removeNullFields_eq_self : e.removeNullFields = e ↔ e.NullFree := by
  constructor
  · intro h
    rw [← h]
    exact e.nullFree_removeNullFields
  · intro h
    refine ext_lookup fun a => ?_
    rw [lookup_removeNullFields, if_neg (h a)]

instance (e : Entity) : Decidable e.NullFree := decidable_of_iff _ removeNullFields_eq_self

theorem NullFree.mergeRemoveNullFields (he : e.NullFree) (u : Entity) :
    (e.mergeRemoveNullFields u).NullFree := by
  intro a
  rw [lookup_mergeRemoveNullFields]
  cases u.lookup a with
  | none => exact he a
  | some v => by_cases hv : v = .null <;> simp [hv]

theorem merge_eq_mergeRemoveNullFields {e u : Entity} :
    e.merge u = e.mergeRemoveNullFields u ↔ u.NullFree := by
  constructor
  · intro h a ha
    have := congrArg (Finmap.lookup a) h
    rw [lookup_merge, lookup_mergeRemoveNullFields, ha] at this
    simp at this
  · intro h
    refine ext_lookup fun a => ?_
    rw [lookup_merge, lookup_mergeRemoveNullFields]
    cases hu : u.lookup a with
    | none => rfl
    | some v =>
      have hv : v ≠ .null := fun hv => h a (hu.trans (congrArg some hv))
      simp [hv]

end Entity

end Massbit
