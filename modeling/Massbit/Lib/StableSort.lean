/-
Sorting a list by a comparison that may fail.
-/
import Mathlib.Data.List.Chain

open Option

namespace List

variable {α : Type*}

def insertByM (cmp : α → α → Option Ordering) (a : α) : List α → Option (List α)
  | [] => some [a]
  | b :: l =>
    match cmp b a with
    | none => none
    | some .lt => (insertByM cmp a l).map (b :: ·)
    | some .eq | some .gt => some (a :: b :: l)

def sortByM (cmp : α → α → Option Ordering) : List α → Option (List α)
  | [] => some []
  | a :: l => (sortByM cmp l).bind (insertByM cmp a)

def NotGreater (cmp : α → α → Option Ordering) (a b : α) : Prop :=
  ∃ o, cmp a b = some o ∧ o ≠ .gt

/-- On the list the comparison gives an answer, the opposite one from the other side, and is
transitive. -/
structure IsPreorderOn (cmp : α → α → Option Ordering) (l : List α) : Prop where
  refl : ∀ a ∈ l, cmp a a = some .eq
  swap : ∀ a ∈ l, ∀ b ∈ l, ∃ o, cmp a b = some o ∧ cmp b a = some o.swap
  trans : ∀ a ∈ l, ∀ b ∈ l, ∀ c ∈ l, NotGreater cmp a b → NotGreater cmp b c → NotGreater cmp a c

variable {cmp : α → α → Option Ordering} {a : α}

theorem perm_insertByM : ∀ {l l' : List α}, insertByM cmp a l = some l' → l'.Perm (a :: l)
  | [], l', h => by
    cases h
    exact .refl _
  | b :: l, l', h => by
    rw [insertByM] at h
    split at h
    next => cases h
    next =>
      obtain ⟨l₁, h₁, rfl⟩ := map_eq_some_iff.1 h
      exact ((perm_insertByM h₁).cons b).trans (.swap a b l)
    next =>
      cases h
      exact .refl _
    next =>
      cases h
      exact .refl _

theorem perm_sortByM : ∀ {l l' : List α}, sortByM cmp l = some l' → l'.Perm l
  | [], l', h => by
    cases h
    exact .refl _
  | a :: l, l', h => by
    obtain ⟨l₁, h₁, h⟩ := bind_eq_some_iff.1 h
    exact (perm_insertByM h).trans ((perm_sortByM h₁).cons a)

theorem exists_insertByM :
    ∀ {l : List α}, (∀ b ∈ l, ∃ o, cmp b a = some o) → ∃ l', insertByM cmp a l = some l'
  | [], _ => ⟨[a], rfl⟩
  | b :: l, h => by
    obtain ⟨o, ho⟩ := h b mem_cons_self
    obtain ⟨l', hl'⟩ := exists_insertByM fun c hc => h c (mem_cons_of_mem b hc)
    rw [insertByM, ho]
    cases o with
    | lt => exact ⟨b :: l', by simp [hl']⟩
    | eq => exact ⟨a :: b :: l, rfl⟩
    | gt => exact ⟨a :: b :: l, rfl⟩

theorem exists_sortByM :
    ∀ {l : List α}, (∀ a ∈ l, ∀ b ∈ l, ∃ o, cmp a b = some o) → ∃ l', sortByM cmp l = some l'
  | [], _ => ⟨[], rfl⟩
  | a :: l, h => by
    obtain ⟨l₁, h₁⟩ := exists_sortByM fun b hb c hc =>
      h b (mem_cons_of_mem a hb) c (mem_cons_of_mem a hc)
    have hcm : ∀ b ∈ l₁, ∃ o, cmp b a = some o := fun b hb =>
      h b (mem_cons_of_mem a ((perm_sortByM h₁).mem_iff.1 hb)) a mem_cons_self
    obtain ⟨l₂, h₂⟩ := exists_insertByM hcm
    exact ⟨l₂, by rw [sortByM, h₁, bind_some, h₂]⟩

variable {p : α → Bool}

theorem filter_insertByM_of_neg (ha : p a = false) :
    ∀ {l l' : List α}, insertByM cmp a l = some l' → l'.filter p = l.filter p
  | [], l', h => by
    cases h
    rw [filter_cons, ha]
    rfl
  | b :: l, l', h => by
    rw [insertByM] at h
    split at h
    next => cases h
    next =>
      obtain ⟨l₁, h₁, rfl⟩ := map_eq_some_iff.1 h
      rw [filter_cons, filter_cons, filter_insertByM_of_neg ha h₁]
    next =>
      cases h
      rw [filter_cons_of_neg (by rw [ha]; decide)]
    next =>
      cases h
      rw [filter_cons_of_neg (by rw [ha]; decide)]

theorem filter_insertByM_of_pos (ha : p a = true) :
    ∀ {l l' : List α}, (∀ b ∈ l, p b = true → cmp b a = some .eq) → insertByM cmp a l = some l' →
      l'.filter p = a :: l.filter p
  | [], l', _, h => by
    cases h
    rw [filter_cons_of_pos ha, filter_nil]
  | b :: l, l', heq, h => by
    rw [insertByM] at h
    split at h
    next => cases h
    next hlt =>
      -- what it goes past is smaller, so it is not one of them
      obtain ⟨l₁, h₁, rfl⟩ := map_eq_some_iff.1 h
      have hb : ¬p b = true := fun hb => by
        rw [heq b mem_cons_self hb] at hlt
        cases hlt
      rw [filter_cons_of_neg hb, filter_cons_of_neg hb]
      exact filter_insertByM_of_pos ha (fun c hc => heq c (mem_cons_of_mem b hc)) h₁
    next =>
      cases h
      rw [filter_cons_of_pos ha]
    next =>
      cases h
      rw [filter_cons_of_pos ha]

theorem filter_sortByM :
    ∀ {l l' : List α}, (∀ a ∈ l, ∀ b ∈ l, p a = true → p b = true → cmp a b = some .eq) →
      sortByM cmp l = some l' → l'.filter p = l.filter p
  | [], l', _, h => by
    cases h
    rfl
  | a :: l, l', heq, h => by
    obtain ⟨l₁, h₁, h⟩ := bind_eq_some_iff.1 h
    have hr : l₁.filter p = l.filter p := filter_sortByM
      (fun b hb c hc => heq b (mem_cons_of_mem a hb) c (mem_cons_of_mem a hc)) h₁
    rcases ha : p a with - | -
    · rw [filter_insertByM_of_neg ha h, hr, filter_cons_of_neg (by rw [ha]; decide)]
    · have he : ∀ b ∈ l₁, p b = true → cmp b a = some .eq := fun b hb hpb =>
        heq b (mem_cons_of_mem a ((perm_sortByM h₁).mem_iff.1 hb)) a mem_cons_self hpb ha
      rw [filter_insertByM_of_pos ha he h, hr, filter_cons_of_pos ha]

section

variable (hswap : ∀ {a b o}, cmp a b = some o → cmp b a = some o.swap)

include hswap

theorem isChain_insertByM {a : α} :
    ∀ {l l' : List α}, l.IsChain (NotGreater cmp) → insertByM cmp a l = some l' →
      l'.IsChain (NotGreater cmp) ∧
        ∀ {c}, NotGreater cmp c a → (∀ b ∈ l.head?, NotGreater cmp c b) →
          ∀ b ∈ l'.head?, NotGreater cmp c b
  | [], l', _, h => by
    cases h
    simp
  | b :: l, l', hl, h => by
    rw [insertByM] at h
    split at h
    next => cases h
    next hlt =>
      -- the element goes further down
      obtain ⟨l₁, h₁, rfl⟩ := map_eq_some_iff.1 h
      obtain ⟨hc, hh⟩ := isChain_insertByM hl.tail h₁
      have hba : NotGreater cmp b a := ⟨.lt, hlt, by decide⟩
      have hbl : ∀ x ∈ l.head?, NotGreater cmp b x := (isChain_cons.1 hl).1
      refine ⟨isChain_cons.mpr ⟨hh hba hbl, hc⟩, fun _ hc x hx => ?_⟩
      exact hc x hx
    next heq =>
      cases h
      have hab : NotGreater cmp a b := ⟨.eq, hswap heq, by decide⟩
      refine ⟨.cons_cons hab hl, fun hc _ x hx => ?_⟩
      cases hx
      exact hc
    next hgt =>
      cases h
      have hab : NotGreater cmp a b := ⟨.lt, hswap hgt, by decide⟩
      refine ⟨.cons_cons hab hl, fun hc _ x hx => ?_⟩
      cases hx
      exact hc

theorem isChain_sortByM : ∀ {l l' : List α}, sortByM cmp l = some l' → l'.IsChain (NotGreater cmp)
  | [], l', h => by
    cases h
    exact .nil
  | a :: l, l', h => by
    obtain ⟨l₁, h₁, h⟩ := bind_eq_some_iff.1 h
    exact (isChain_insertByM hswap (isChain_sortByM h₁) h).1

end

theorem IsChain.pairwise_of_trans {R : α → α → Prop} :
    ∀ {l : List α}, l.IsChain R → (∀ a ∈ l, ∀ b ∈ l, ∀ c ∈ l, R a b → R b c → R a c) → l.Pairwise R
  | [], _, _ => .nil
  | [a], _, _ => pairwise_singleton R a
  | a :: b :: l, h, ht => by
    have hta : (b :: l).Pairwise R := h.tail.pairwise_of_trans fun x hx y hy z hz =>
      ht x (mem_cons_of_mem a hx) y (mem_cons_of_mem a hy) z (mem_cons_of_mem a hz)
    have hab : R a b := rel_of_isChain_cons_cons h
    refine pairwise_cons.2 ⟨fun x hx => ?_, hta⟩
    rcases mem_cons.1 hx with rfl | hx'
    · exact hab
    · exact ht a (by simp) b (by simp) x (mem_cons_of_mem a hx) hab ((pairwise_cons.mp hta).1 x hx')

end List
