/-
Several nodes that index the same deployments, by calls of `transact_block_operations` whose steps
come in any order.
-/
import Massbit.Postgres.DeploymentStore

open List

namespace Massbit

structure BlockCall where
  store : DeploymentStore
  site : Site
  blockPtrTo : BlockPtr
  mods : List EntityModification
  dataSources : List StoredDynamicDataSource

def BlockCall.transact (call : BlockCall) (db : Database) : Outcome StoreError Unit × Database :=
  call.store.transactBlockOperations db call.site call.blockPtrTo call.mods call.dataSources

inductive NodeState where
  | idle
  | calling (call : BlockCall)
  | returned (call : BlockCall) (result : Outcome StoreError Unit)

structure Cluster (Node : Type) where
  db : Database
  nodes : Node → NodeState
  committed : List BlockCall

inductive ClusterAction (Node : Type) where
  | start (node : Node) (call : BlockCall)
  | transact (node : Node)
  | finish (node : Node)

namespace Cluster

variable {Node : Type} [DecidableEq Node]

def setNode (self : Cluster Node) (node : Node) (state : NodeState) : Cluster Node :=
  { self with nodes := Function.update self.nodes node state }

def commitOf (committed : List BlockCall) (call : BlockCall) :
    Outcome StoreError Unit → List BlockCall
  | .ok () => committed ++ [call]
  | .err _ | .panic => committed

def step (self : Cluster Node) : ClusterAction Node → Option (Cluster Node)
  | .start node call =>
    match self.nodes node with
    | .idle => some (self.setNode node (.calling call))
    | .calling _ | .returned _ _ => none
  | .transact node =>
    match self.nodes node with
    | .calling call =>
      let result := call.transact self.db
      some { db := result.2
             nodes := Function.update self.nodes node (.returned call result.1)
             committed := commitOf self.committed call result.1 }
    | .idle | .returned _ _ => none
  | .finish node =>
    match self.nodes node with
    | .returned _ _ => some (self.setNode node .idle)
    | .idle | .calling _ => none

variable {s s' : Cluster Node}

theorem step_transact {node : Node} (h : s.step (.transact node) = some s') :
    ∃ call, s'.db = (call.transact s.db).2 ∧
      s'.nodes node = .returned call (call.transact s.db).1 ∧
      s'.committed = commitOf s.committed call (call.transact s.db).1 := by
  simp only [step] at h
  split at h
  next call _ =>
    cases h
    exact ⟨call, rfl, Function.update_self _ _ _, rfl⟩
  · cases h
  · cases h

theorem transact_unchanged {call : BlockCall} {db : Database} (h : (call.transact db).1 ≠ .ok ()) :
    (call.transact db).2 = db :=
  DeploymentStore.transact_unchanged h

theorem step_cases {a : ClusterAction Node} (h : s.step a = some s') :
    (∃ call, (call.transact s.db).1 = .ok () ∧ s'.db = (call.transact s.db).2 ∧
      s'.committed = s.committed ++ [call]) ∨
    (s'.db = s.db ∧ s'.committed = s.committed) := by
  cases a with
  | start node call =>
    simp only [step] at h
    split at h
    · cases h
      exact .inr ⟨rfl, rfl⟩
    · cases h
    · cases h
  | transact node =>
    obtain ⟨call, hdb, -, hc⟩ := step_transact h
    rcases hr : (call.transact s.db).1 with ⟨⟨⟩⟩ | e | -
    · exact .inl ⟨call, hr, hdb, by simp [hc, hr, commitOf]⟩
    · refine .inr ⟨?_, by simp [hc, hr, commitOf]⟩
      rw [hdb]
      apply transact_unchanged
      simp [hr]
    · refine .inr ⟨?_, by simp [hc, hr, commitOf]⟩
      rw [hdb]
      apply transact_unchanged
      simp [hr]
  | finish node =>
    simp only [step] at h
    split at h
    · cases h
      exact .inr ⟨rfl, rfl⟩
    · cases h
    · cases h

end Cluster

namespace Database

/-- No row of the deployment is behind the block. -/
def Past (id : DeploymentHash) (number : ℤ) (db : Database) : Prop :=
  ∀ d ∈ db.deployments, d.deployment = id →
    ∃ latest, d.latestEthereumBlockNumber = some latest ∧ number ≤ latest

variable {number : ℤ}

theorem isBehind_iff {id : DeploymentHash} {d : IndexerDeployment} :
    isBehind id number d = true ↔ d.deployment = id ∧
      ∀ l, d.latestEthereumBlockNumber = some l → l < number := by
  unfold isBehind
  rcases d.latestEthereumBlockNumber with _ | l
  · simp
  · simp

variable {db db' : Database} {id : DeploymentHash} {ptr : BlockPtr}
  (h : ∃ d ∈ db.deployments, isBehind id ptr.number d = true)
  (hmap : db'.deployments = db.deployments.map fun d => if isBehind id ptr.number d then
    { d with latestEthereumBlockHash := some ptr.hash,
             latestEthereumBlockNumber := some ptr.number } else d)

include h in
theorem Past.lt (hp : Past id number db) : number < ptr.number := by
  obtain ⟨d, hd, h⟩ := h
  obtain ⟨hid, hlt⟩ := isBehind_iff.1 h
  obtain ⟨l, hl, hle⟩ := hp d hd hid
  exact lt_of_le_of_lt hle (hlt l hl)

include hmap in
theorem past_forward : Past id ptr.number db' := by
  intro d' hd' hid
  rw [hmap] at hd'
  obtain ⟨d, -, rfl⟩ := mem_map.1 hd'
  by_cases h : isBehind id ptr.number d = true
  · exact ⟨ptr.number, by simp [h], le_rfl⟩
  · rw [if_neg h] at hid ⊢
    rw [isBehind_iff] at h
    push Not at h
    exact h hid

include h hmap in
theorem Past.forward {id' : DeploymentHash} (hp : Past id' number db) : Past id' number db' := by
  intro d' hd' hid
  rw [hmap] at hd'
  obtain ⟨d, hd, rfl⟩ := mem_map.1 hd'
  by_cases hr : isBehind id ptr.number d = true
  · rw [if_pos hr] at hid ⊢
    -- the row that was moved is for the deployment of the block
    obtain rfl : id = id' := (isBehind_iff.1 hr).1.symm.trans hid
    exact ⟨ptr.number, rfl, (hp.lt h).le⟩
  · rw [if_neg hr] at hid ⊢
    exact hp d hd hid

end Database

theorem BlockCall.forward_of_ok {call : BlockCall} {db : Database}
    (h : (call.transact db).1 = .ok ()) :
    (∃ d ∈ db.deployments, Database.isBehind call.site.deployment call.blockPtrTo.number d = true) ∧
    (call.transact db).2.deployments = db.deployments.map fun d =>
      if Database.isBehind call.site.deployment call.blockPtrTo.number d then
        { d with latestEthereumBlockHash := some call.blockPtrTo.hash,
                 latestEthereumBlockNumber := some call.blockPtrTo.number } else d := by
  obtain ⟨_, _, _, -, -, -, -, -, hbehind, heq⟩ := DeploymentStore.transact_eq_ok h
  refine ⟨hbehind, ?_⟩
  rw [transact, heq]

namespace Cluster

variable {Node : Type} [DecidableEq Node]

def committedNumbers (id : DeploymentHash) (calls : List BlockCall) : List ℤ :=
  (calls.filter fun call => call.site.deployment = id).map fun call => call.blockPtrTo.number

def replay (db : Database) (calls : List BlockCall) : Database :=
  calls.foldl (fun db call => (call.transact db).2) db

theorem committedNumbers_append (id : DeploymentHash) (cs : List BlockCall) (call : BlockCall) :
    committedNumbers id (cs ++ [call])
      = committedNumbers id cs ++
        if call.site.deployment = id then [call.blockPtrTo.number] else [] := by
  unfold committedNumbers
  by_cases h : call.site.deployment = id
  · simp [h]
  · simp [h]

/-- The committed numbers increase for each deployment, start after what was stored, and no row is
behind any of them. -/
structure Ordered (db₀ : Database) (s : Cluster Node) : Prop where
  increasing : ∀ id, (committedNumbers id s.committed).Pairwise (· < ·)
  past : ∀ id, ∀ number ∈ committedNumbers id s.committed, s.db.Past id number
  stored : ∀ id number, db₀.Past id number → s.db.Past id number
  after : ∀ id number, db₀.Past id number → ∀ m ∈ committedNumbers id s.committed, number < m
  db_eq : s.db = replay db₀ s.committed

theorem Ordered.step {db₀ : Database} {s s' : Cluster Node} {a : ClusterAction Node}
    (h : Ordered db₀ s) (hst : s.step a = some s') : Ordered db₀ s' := by
  rcases step_cases hst with ⟨call, hok, hdb, hc⟩ | ⟨hdb, hc⟩
  · obtain ⟨hbehind, hmap⟩ := BlockCall.forward_of_ok hok
    rw [← hdb] at hmap
    -- the numbers of other deployments stay, and those of this one get a larger one
    have hca : ∀ id, committedNumbers id s'.committed = committedNumbers id s.committed ∨
        id = call.site.deployment ∧ committedNumbers id s'.committed
          = committedNumbers id s.committed ++ [call.blockPtrTo.number] := by
      intro id
      rw [hc, committedNumbers_append]
      by_cases hid : call.site.deployment = id
      · exact .inr ⟨hid.symm, by simp [hid]⟩
      · exact .inl (by simp [hid])
    constructor
    · intro id
      rcases hca id with heq | ⟨rfl, heq⟩
      · rw [heq]
        exact h.increasing id
      · rw [heq, pairwise_append]
        refine ⟨h.increasing _, pairwise_singleton _ _, fun m hm n hn => ?_⟩
        obtain rfl := mem_singleton.1 hn
        exact (h.past _ m hm).lt hbehind
    · intro id number hnu
      rcases hca id with heq | ⟨rfl, heq⟩
      · rw [heq] at hnu
        exact (h.past id number hnu).forward hbehind hmap
      · rw [heq, mem_append] at hnu
        rcases hnu with hnu | hnu
        · exact (h.past _ number hnu).forward hbehind hmap
        · obtain rfl := mem_singleton.mp hnu
          exact Database.past_forward hmap
    · intro id number hp
      exact (h.stored id number hp).forward hbehind hmap
    · intro id number hp m hm
      rcases hca id with heq | ⟨rfl, heq⟩
      · exact h.after id number hp m (heq ▸ hm)
      · rw [heq, mem_append] at hm
        rcases hm with hm | hm
        · exact h.after _ number hp m hm
        · obtain rfl := mem_singleton.1 hm
          exact (h.stored _ number hp).lt hbehind
    · rw [hdb, hc, h.db_eq]
      simp [replay]
  · obtain ⟨hi, hp, hs, ha, hr⟩ := h
    rw [← hc] at hi hp ha hr
    rw [← hdb] at hp hs hr
    exact ⟨hi, hp, hs, ha, hr⟩

/-- **Commits move forward.** For every interleaving of any number of nodes, the block numbers that
are committed for a deployment strictly increase and start after the stored one; the database is
what the committed calls make of it, and a call that does not return leaves it as it is. -/
theorem committed_increasing {s₀ s : Cluster Node} {actions : List (ClusterAction Node)}
    (hrun : Run Cluster.step (fun _ _ => True) s₀ actions s) (h₀ : s₀.committed = [])
    (id : DeploymentHash) :
    (committedNumbers id s.committed).Pairwise (· < ·) ∧
    (committedNumbers id s.committed).Nodup ∧
    (∀ number, s₀.db.Past id number → ∀ m ∈ committedNumbers id s.committed, number < m) ∧
    s.db = replay s₀.db s.committed ∧
    ∀ {node s'}, s.step (.transact node) = some s' →
      (∀ call, s'.nodes node ≠ .returned call (.ok ())) → s'.db = s.db := by
  have ho : Ordered s₀.db s := by
    apply Run.invariant (I := fun _ s => Ordered s₀.db s) hrun
    · constructor
      · simp [h₀, committedNumbers]
      · simp [h₀, committedNumbers]
      · exact fun _ _ hp => hp
      · simp [h₀, committedNumbers]
      · simp [h₀, replay]
    · intro _ s _ s' hs _ hst
      exact hs.step hst
  refine ⟨ho.increasing id, (ho.increasing id).imp ne_of_lt, ho.after id,
    ho.db_eq, fun {node s'} hst hf => ?_⟩
  obtain ⟨call, hdb, hn, -⟩ := step_transact hst
  rw [hdb]
  apply transact_unchanged
  intro hok
  apply hf call
  rw [hn, hok]

open DeploymentStore (tokenStore tokenSite tokenDatabase)

noncomputable def sixthBlock : BlockCall := ⟨tokenStore [], tokenSite, ⟨List.replicate 32 1, 6⟩, [], []⟩

def twoNodes : Cluster Bool := ⟨tokenDatabase .empty, fun _ => .idle, []⟩

theorem twoNodes_sixthBlock : ∃ s : Cluster Bool,
    Run Cluster.step (fun _ _ => True) twoNodes
      [.start false sixthBlock, .start true sixthBlock, .transact true, .transact false] s ∧
    committedNumbers "QmIndexer" s.committed = [6] ∧
    (committedNumbers "QmIndexer" s.committed).Pairwise (· < ·) ∧
    (committedNumbers "QmIndexer" s.committed).Nodup ∧
    (∀ number, twoNodes.db.Past "QmIndexer" number →
      ∀ m ∈ committedNumbers "QmIndexer" s.committed, number < m) ∧
    s.db = replay twoNodes.db s.committed ∧
    ∀ {node s'}, s.step (.transact node) = some s' →
      (∀ call, s'.nodes node ≠ .returned call (.ok ())) → s'.db = s.db := by
  have hr : ∃ s : Cluster Bool, [.start false sixthBlock, .start true sixthBlock, .transact true,
      .transact false].foldlM Cluster.step twoNodes = some s ∧
      committedNumbers "QmIndexer" s.committed = [6] := ⟨_, rfl, by decide⟩
  obtain ⟨s, hr, hn⟩ := hr
  exact ⟨s, .of_foldlM hr, hn, committed_increasing (.of_foldlM hr) rfl "QmIndexer"⟩

end Cluster

end Massbit
