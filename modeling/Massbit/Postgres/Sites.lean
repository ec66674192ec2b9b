/-
The allocation of sites (`primary.rs`, `indexer_store.rs`).
-/
import Massbit.Postgres.CreateDeployment
import Mathlib.Data.Char
import Mathlib.Tactic.Push

open List Except Function

namespace Massbit

def Namespace.new (isNumeric : Char → Bool) (s : String) : Except String Namespace :=
  if !"sgd".toList.isPrefixOf s.toList || s.utf8ByteSize ≤ 3 then .error s
  else if (s.toList.drop 3).all isNumeric then .ok s
  else .error s

section

def charIsNumeric (numeric : Char → Bool) (c : Char) : Bool :=
  c.isDigit || decide ('\x7f' < c) && numeric c

/-- The form `sgd[0-9]+`. -/
def Namespace.HasForm (s : String) : Prop :=
  ∃ ds, s.toList = "sgd".toList ++ ds ∧ ds ≠ [] ∧ ∀ c ∈ ds, c.isDigit

/-- The name needs no quotes in a statement. -/
def IsUnquotedIdentifier (s : String) : Prop :=
  s.toList.head?.any Char.isLower ∧ ∀ c ∈ s.toList, c.isLower ∨ c.isDigit ∨ c = '_'

variable {p : Char → Bool} {s : String}

theorem Namespace.exists_new_iff : (∃ n, Namespace.new p s = .ok n) ↔
    ∃ ds, s.toList = "sgd".toList ++ ds ∧ ds ≠ [] ∧ ∀ c ∈ ds, p c := by
  have hl {ds} (h : s.toList = "sgd".toList ++ ds) : s.utf8ByteSize ≤ 3 ↔ ds = [] := by
    obtain rfl : s = "sgd" ++ String.ofList ds := String.toList_inj.1 (by simpa using h)
    rw [String.utf8ByteSize_append, show "sgd".utf8ByteSize = 3 from rfl]
    simp
  unfold Namespace.new
  constructor
  · intro ⟨n, h⟩
    split_ifs at h with h₁ h₂
    obtain ⟨ds, hd⟩ := isPrefixOf_iff_prefix.1 (by grind : "sgd".toList.isPrefixOf s.toList)
    refine ⟨ds, hd.symm, fun he => ?_, ?_⟩
    · grind
    · rw [← hd] at h₂
      simpa using h₂
  · rintro ⟨ds, hs, hd, hp⟩
    have h₁ : ¬(!"sgd".toList.isPrefixOf s.toList || decide (s.utf8ByteSize ≤ 3)) := by
      simp [hl hs, hd, hs]
    rw [if_neg h₁, hs, if_pos (by simpa using hp)]
    exact ⟨_, rfl⟩

theorem Namespace.HasForm.isUnquotedIdentifier (h : HasForm s) : IsUnquotedIdentifier s := by
  obtain ⟨ds, hs, -, hd⟩ := h
  refine ⟨by rw [hs]; rfl, fun c hc => ?_⟩
  rw [hs, mem_append] at hc
  rcases hc with hc | hc
  · left
    rcases (by simpa using hc : c = 's' ∨ c = 'g' ∨ c = 'd') with rfl | rfl | rfl <;> decide
  · exact .inr (.inl (hd c hc))

theorem le_of_isDigit {c : Char} (h : c.isDigit) : c ≤ '\x7f' := by
  rw [Char.le_def]
  grind [Char.isDigit]

/-- **The check accepts exactly the form `sgd[0-9]+`, which needs no quotes, if and only if** the
string has no numeric character beyond ASCII, or fails the check anyway, by how it starts or by a
character that is not numeric: `is_numeric` is about the numeric characters of all scripts. -/
theorem Namespace.new_hasForm_iff (numeric : Char → Bool) (s : String) :
    (((∃ n, Namespace.new (charIsNumeric numeric) s = .ok n) ↔ HasForm s) ∧
        ∀ n, Namespace.new (charIsNumeric numeric) s = .ok n → IsUnquotedIdentifier s) ↔
      (∀ c ∈ s.toList, '\x7f' < c → numeric c = false) ∨ ¬"sgd".toList <+: s.toList ∨
        ∃ c ∈ s.toList.drop 3, charIsNumeric numeric c = false := by
  have hn {c : Char} (h : c.isDigit) : charIsNumeric numeric c := by simp [charIsNumeric, h]
  have hdrop (ds : List Char) : ("sgd".toList ++ ds).drop 3 = ds := by simp
  rw [exists_new_iff]
  constructor
  · rintro ⟨hf, -⟩
    by_contra! h
    obtain ⟨⟨c, hc, hlt, hnum⟩, ⟨ds, hs⟩, hp⟩ := h
    -- the string is accepted, so the character stands behind `sgd` and is a digit
    rw [← hs, hdrop] at hp
    rw [← hs, mem_append] at hc
    rcases hc with hc | hc
    · rcases (by simpa using hc : c = 's' ∨ c = 'g' ∨ c = 'd') with rfl | rfl | rfl <;>
        exact absurd hlt (by decide)
    · obtain ⟨ds', hs', -, hd⟩ := hf.1 ⟨ds, hs.symm, ne_nil_of_mem hc, fun c hc => by
        simpa using hp c hc⟩
      obtain rfl := append_cancel_left (hs.trans hs')
      exact absurd hlt (not_lt.2 (le_of_isDigit (hd c hc)))
  · intro ha
    have hf : (∃ ds, s.toList = "sgd".toList ++ ds ∧ ds ≠ [] ∧ ∀ c ∈ ds, charIsNumeric numeric c) →
        HasForm s := by
      rintro ⟨ds, hs, hd, hp⟩
      refine ⟨ds, hs, hd, fun c hc => ?_⟩
      rcases ha with ha | ha | ⟨c', hc', hf⟩
      · have hpc := hp c hc
        rw [charIsNumeric, Bool.or_eq_true, Bool.and_eq_true, decide_eq_true_eq] at hpc
        rcases hpc with h | ⟨hlt, h⟩
        · exact h
        · rw [ha c (by simp [hs, hc]) hlt] at h
          cases h
      · exact absurd ⟨ds, hs.symm⟩ ha
      · rw [hs, hdrop] at hc'
        rw [hp c' hc'] at hf
        cases hf
    refine ⟨⟨hf, ?_⟩, fun n h => (hf (exists_new_iff.1 ⟨n, h⟩)).isUnquotedIdentifier⟩
    rintro ⟨ds, hs, hd, hp⟩
    exact ⟨ds, hs, hd, fun c hc => hn (hp c hc)⟩

def latin1Numeric (c : Char) : Bool := c ∈ ['²', '³', '¹', '¼', '½', '¾']

theorem Namespace.superscript_accepted :
    Namespace.new (charIsNumeric latin1Numeric) "sgd²" = .ok "sgd²" ∧ ¬HasForm "sgd²" := by
  refine ⟨by decide, ?_⟩
  rintro ⟨ds, hs, -, hd⟩
  obtain rfl : ['²'] = ds := by simpa using hs
  simpa using hd '²' (by simp)

end

def DeploymentHash.new (s : String) : Except String DeploymentHash :=
  -- enforce the length limit
  if 46 < s.utf8ByteSize then .error s
  else if !(s.toList.all fun c => c.isAlphanum || c == '_') then .error s
  -- the name of the old metadata indexer
  else if s = "indexer" then .error s
  else .ok s

def Shard.new (name : String) : Except StoreError Shard :=
  if name.isEmpty then .error (.invalidIdentifier "shard names must not be empty")
  else if 30 < name.utf8ByteSize then
    .error (.invalidIdentifier ("shard names can be at most 30 characters, but `" ++ name ++
      "` has " ++ toString name.utf8ByteSize ++ " characters"))
  else if !(name.toList.all fun c => c.isLower || c.isDigit || c == '_') then
    .error (.invalidIdentifier
      "shard names must only contain lowercase alphanumeric characters or '_'")
  else .ok name

def primaryShard : Shard := "primary"

structure DeploymentLocator where
  id : DeploymentId
  hash : DeploymentHash
  deriving DecidableEq, Repr

namespace Primary

structure SchemaRow where
  id : DeploymentId
  indexer : DeploymentHash
  name : String
  shard : String
  network : String
  deriving DecidableEq, Repr

variable (isNumeric : Char → Bool)

def Site.tryFrom (row : SchemaRow) : Except StoreError Site := do
  let deployment ← (DeploymentHash.new row.indexer).mapError fun s =>
    .constraintViolation ("Invalid deployment id " ++ s)
  let nsp ← (Namespace.new isNumeric row.name).mapError fun nsp =>
    .constraintViolation ("Invalid schema name " ++ nsp ++ " for deployment " ++ row.indexer)
  let shard ← Shard.new row.shard
  return { id := row.id, deployment, nsp, shard, network := row.network }

def newRow (id : DeploymentId) (shard : Shard) (deployment : DeploymentHash) (network : String) :
    SchemaRow :=
  ⟨id, deployment, "sgd" ++ toString id, shard, network⟩

def siteOfNewRow (row : SchemaRow) : Except StoreError Site := do
  let nsp ← (Namespace.new isNumeric row.name).mapError fun name =>
    .constraintViolation ("Generated database schema name " ++ name ++ " is invalid")
  return { id := row.id, deployment := row.indexer, shard := row.shard, nsp, network := row.network }

def Site.toLocator (site : Site) : DeploymentLocator := ⟨site.id, site.deployment⟩

end Primary

/-- The arguments of a call of `create_deployment_internal`. -/
structure CreateCall where
  schema : Schema
  deployment : DeploymentEntity
  networkName : String
  replace : Bool

inductive CreateState where
  | start
  | missing
  | allocated (site : Primary.Site)
  | returned (result : Outcome StoreError DeploymentLocator)

/-- The rows of the primary database, the shards, and the calls. -/
structure SiteAllocation (C : Type) where
  deploymentSchemas : List Primary.SchemaRow
  nextId : DeploymentId
  stores : HashMap Shard ShardDatabase
  calls : C → CreateState

/-- What a call does next, with what the database decides. -/
inductive CreateAction where
  | findSite (row? : Option Primary.SchemaRow)
  | createSite (id : DeploymentId)
  | createDeployment (faults : Faults)
  | fail (e : StoreError)

def CreateState.allocate : Except StoreError Primary.Site → CreateState
  | .ok site => .allocated site
  | .error e => .returned (.err e)

namespace SiteAllocation

variable {C : Type} [DecidableEq C]

def setCall (self : SiteAllocation C) (c : C) (state : CreateState) : SiteAllocation C :=
  { self with calls := Function.update self.calls c state }

theorem setCall_self (self : SiteAllocation C) (c : C) (state : CreateState) :
    (self.setCall c state).calls c = state := by
  exact update_self c state self.calls

theorem setCall_of_ne (self : SiteAllocation C) {c c' : C} (h : c' ≠ c) (state : CreateState) :
    (self.setCall c state).calls c' = self.calls c' := by
  exact update_of_ne h state self.calls

def rows (self : SiteAllocation C) (hash : DeploymentHash) : List Primary.SchemaRow :=
  self.deploymentSchemas.filter fun row => row.indexer = hash

def createDeployment (config : LayoutConfig) (self : SiteAllocation C) (call : CreateCall) (c : C)
    (site : Primary.Site) (faults : Faults) : SiteAllocation C :=
  match self.stores.lookup site.shard with
  | none => self.setCall c (.returned (.err (.unknownShard site.shard)))
  | some db =>
    let result := DeploymentStore.createDeployment config faults call.schema call.deployment site
      call.replace db
    { self with
      stores := self.stores.insert site.shard result.2.2
      calls := Function.update self.calls c
        (.returned (result.1 >>= fun _ => pure site.toLocator)) }

def step (isNumeric : Char → Bool) (config : LayoutConfig) (calls : C → CreateCall)
    (self : SiteAllocation C) (label : C × CreateAction) : Option (SiteAllocation C) :=
  let c := label.1
  let hash := (calls c).schema.id
  match self.calls c, label.2 with
  | .start, .findSite none =>
    if self.rows hash = [] then some (self.setCall c .missing) else none
  | .start, .findSite (some row) =>
    if row ∈ self.rows hash then
      some (self.setCall c (.allocate (Primary.Site.tryFrom isNumeric row)))
    else none
  | .missing, .createSite id =>
    if self.nextId ≤ id ∧ id ≤ 2147483647 then
      let row := Primary.newRow id primaryShard hash (calls c).networkName
      some { self with
        deploymentSchemas := self.deploymentSchemas ++ [row]
        nextId := id + 1
        calls := Function.update self.calls c (.allocate (Primary.siteOfNewRow isNumeric row)) }
    else none
  | .allocated site, .createDeployment faults =>
    some (self.createDeployment config (calls c) c site faults)
  | .start, .fail e | .missing, .fail e => some (self.setCall c (.returned (.err e)))
  | _, _ => none

end SiteAllocation

section

variable {isNumeric : Char → Bool} {row : SchemaRow} {site : Site}

theorem Primary.Site.tryFrom_eq_ok (h : Site.tryFrom isNumeric row = .ok site) :
    site.toLocator = ⟨row.id, row.indexer⟩ := by
  obtain ⟨d, hd, h⟩ := bind_eq_ok.1 h
  obtain ⟨nsp, -, h⟩ := bind_eq_ok.1 h
  obtain ⟨sh, -, h⟩ := bind_eq_ok.1 h
  cases h
  have hs : d = row.indexer := by
    rw [DeploymentHash.new] at hd
    split_ifs at hd <;> first | exact (Except.ok.inj hd).symm | cases hd
  exact congrArg _ hs

theorem Primary.siteOfNewRow_eq_ok (h : siteOfNewRow isNumeric row = .ok site) :
    site.toLocator = ⟨row.id, row.indexer⟩ := by
  obtain ⟨nsp, -, h⟩ := bind_eq_ok.1 h
  cases h
  rfl

end

namespace CreateState

def locator? : CreateState → Option DeploymentLocator
  | allocated site => some site.toLocator
  | returned (.ok locator) => some locator
  | start | missing | returned (.err _) | returned .panic => none

theorem allocate_ne_missing (r : Except StoreError Primary.Site) : allocate r ≠ missing := by
  cases r <;> nofun

theorem locator?_allocate {r : Except StoreError Primary.Site} {locator : DeploymentLocator}
    (h : (allocate r).locator? = some locator) :
    ∃ site, r = .ok site ∧ site.toLocator = locator := by
  cases r with
  | error e => cases h
  | ok site => exact ⟨site, rfl, Option.some.inj h⟩

end CreateState

namespace SiteAllocation

variable {isNumeric : Char → Bool} {config : LayoutConfig} {C : Type} [DecidableEq C]
  {calls : C → CreateCall} {s s' : SiteAllocation C} {c : C}

theorem createDeployment_cases (config : LayoutConfig) (s : SiteAllocation C) (call : CreateCall)
    (c : C) (site : Primary.Site) (fs : Faults) :
    (s.createDeployment config call c site fs).deploymentSchemas = s.deploymentSchemas ∧
      ∃ r, (s.createDeployment config call c site fs).calls =
          Function.update s.calls c (.returned r) ∧
        ∀ l, r = .ok l → l = site.toLocator := by
  rw [createDeployment]
  cases s.stores.lookup site.shard with
  | none => exact ⟨rfl, _, rfl, nofun⟩
  | some db =>
    refine ⟨rfl, _, rfl, fun l hl => ?_⟩
    obtain ⟨-, -, hl⟩ := bind_eq_ok.1 hl
    exact (Outcome.ok.inj hl).symm

theorem step_cases {action : CreateAction}
    (h : s.step isNumeric config calls (c, action) = some s') :
    (action = .findSite none ∧ s.rows (calls c).schema.id = [] ∧ s' = s.setCall c .missing) ∨
    (∃ row state, s.calls c = .missing ∧ row.indexer = (calls c).schema.id ∧
      s'.deploymentSchemas = s.deploymentSchemas ++ [row] ∧
      s'.calls = Function.update s.calls c state ∧ state ≠ .missing ∧
      ∀ lo, state.locator? = some lo → lo = ⟨row.id, (calls c).schema.id⟩) ∨
    ∃ state, s'.deploymentSchemas = s.deploymentSchemas ∧
      s'.calls = Function.update s.calls c state ∧ state ≠ .missing ∧
      ∀ lo, state.locator? = some lo → (s.calls c).locator? = some lo ∨
        ∃ row ∈ s.rows (calls c).schema.id, lo = ⟨row.id, (calls c).schema.id⟩ := by
  rw [step] at h
  split at h
  next hc ha =>
    split_ifs at h with hrows
    cases h
    exact .inl ⟨ha, hrows, rfl⟩
  next row hc ha =>
    split_ifs at h with hro
    cases h
    refine .inr (.inr ⟨_, rfl, rfl, CreateState.allocate_ne_missing _, fun lo hl => ?_⟩)
    obtain ⟨site, hs, rfl⟩ := CreateState.locator?_allocate hl
    refine .inr ⟨row, hro, ?_⟩
    rw [Primary.Site.tryFrom_eq_ok hs, of_decide_eq_true (mem_filter.1 hro).2]
  next id hc ha =>
    split_ifs at h with hid
    cases h
    refine .inr (.inl ⟨_, _, hc, rfl, rfl, rfl, CreateState.allocate_ne_missing _, fun lo hl => ?_⟩)
    obtain ⟨site, hs, rfl⟩ := CreateState.locator?_allocate hl
    exact Primary.siteOfNewRow_eq_ok hs
  next site fs hc ha =>
    cases h
    obtain ⟨hsc, r, hca, hr⟩ := createDeployment_cases config s (calls c) c site fs
    refine .inr (.inr ⟨_, hsc, hca, nofun, fun lo hl => .inl ?_⟩)
    cases r with
    | ok l =>
      cases hl
      rw [hc, hr _ rfl]
      rfl
    | err e => cases hl
    | panic => cases hl
  next e hc ha =>
    cases h
    exact .inr (.inr ⟨_, rfl, rfl, nofun, nofun⟩)
  next e hc ha =>
    cases h
    exact .inr (.inr ⟨_, rfl, rfl, nofun, nofun⟩)
  next => cases h

/-- Nobody looks for a site of the deployment while another call is about to insert one. -/
def Undisturbed (calls : C → CreateCall) (hash : DeploymentHash) (s : SiteAllocation C)
    (label : C × CreateAction) : Prop :=
  (calls label.1).schema.id = hash → ∀ row?, label.2 = .findSite row? →
    ∀ c, (calls c).schema.id = hash → s.calls c ≠ .missing

structure OneSite (calls : C → CreateCall) (hash : DeploymentHash) (s : SiteAllocation C) :
    Prop where
  length_le : (s.rows hash).length ≤ 1
  rows_eq_nil : ∀ {c}, (calls c).schema.id = hash → s.calls c = .missing → s.rows hash = []
  missing_unique : ∀ {c c'}, (calls c).schema.id = hash → (calls c').schema.id = hash →
    s.calls c = .missing → s.calls c' = .missing → c = c'
  exists_row : ∀ {c locator}, (calls c).schema.id = hash →
    (s.calls c).locator? = some locator → ∃ row ∈ s.rows hash, locator = ⟨row.id, hash⟩

variable {st : CreateState}

theorem missing_of_update {c' : C} (h : s'.calls = Function.update s.calls c st)
    (hs : st ≠ .missing) (hc' : s'.calls c' = .missing) :
    c' ≠ c ∧ s.calls c' = .missing := by
  rw [h] at hc'
  by_cases hcc : c' = c
  · subst hcc
    rw [update_self] at hc'
    exact absurd hc' hs
  · rw [update_of_ne hcc] at hc'
    exact ⟨hcc, hc'⟩

variable {row : Primary.SchemaRow}

omit [DecidableEq C] in
theorem rows_of_append (hash : DeploymentHash)
    (h : s'.deploymentSchemas = s.deploymentSchemas ++ [row]) :
    s'.rows hash = s.rows hash ++ if row.indexer = hash then [row] else [] := by
  rw [rows, rows, h, filter_append]
  by_cases hr : row.indexer = hash <;> simp [hr]

omit [DecidableEq C] in
theorem rows_congr (hash : DeploymentHash) (h : s'.deploymentSchemas = s.deploymentSchemas) :
    s'.rows hash = s.rows hash :=
  congrArg (List.filter _) h

variable {hash : DeploymentHash} {action : CreateAction}

theorem OneSite.findNone (hs : OneSite calls hash s) (hr : s.rows (calls c).schema.id = [])
    (hq : (calls c).schema.id = hash → ∀ c', (calls c').schema.id = hash →
      s.calls c' ≠ .missing) : OneSite calls hash (s.setCall c .missing) := by
  refine ⟨hs.length_le, fun {c'} hh hc' => ?_, fun {c₁ c₂} h₁ h₂ hc₁ hc₂ => ?_,
    fun {c' l} hh hl => ?_⟩
  · by_cases hcc : c' = c
    · subst hcc
      rw [← hh]
      exact hr
    · rw [setCall_of_ne s hcc] at hc'
      exact hs.rows_eq_nil hh hc'
  · by_cases hcc₁ : c₁ = c
    · by_cases hcc₂ : c₂ = c
      · rw [hcc₁, hcc₂]
      · rw [setCall_of_ne s hcc₂] at hc₂
        exact absurd hc₂ (hq (hcc₁ ▸ h₁) c₂ h₂)
    · rw [setCall_of_ne s hcc₁] at hc₁
      by_cases hcc₂ : c₂ = c
      · exact absurd hc₁ (hq (hcc₂ ▸ h₂) c₁ h₁)
      · rw [setCall_of_ne s hcc₂] at hc₂
        exact hs.missing_unique h₁ h₂ hc₁ hc₂
  · by_cases hcc : c' = c
    · subst hcc
      rw [setCall_self] at hl
      cases hl
    · rw [setCall_of_ne s hcc] at hl
      exact hs.exists_row hh hl

theorem OneSite.insertRow (hs : OneSite calls hash s) (hm : s.calls c = .missing)
    (hi : row.indexer = (calls c).schema.id)
    (hsc : s'.deploymentSchemas = s.deploymentSchemas ++ [row])
    (hc : s'.calls = Function.update s.calls c st) (hst : st ≠ .missing)
    (hsi : ∀ l, st.locator? = some l → l = ⟨row.id, (calls c).schema.id⟩) :
    OneSite calls hash s' := by
  have hro := rows_of_append hash hsc
  refine ⟨?_, fun {c'} hh hc' => ?_, fun {c₁ c₂} h₁ h₂ hc₁ hc₂ => ?_, fun {c' l} hh hl => ?_⟩
  · rw [hro]
    split_ifs with hr
    · rw [hs.rows_eq_nil (hi.symm.trans hr) hm]
      exact le_rfl
    · rw [append_nil]
      exact hs.length_le
  · obtain ⟨hcc, hc'⟩ := missing_of_update hc hst hc'
    have hr : row.indexer ≠ hash := fun hr =>
      hcc (hs.missing_unique hh (hi.symm.trans hr) hc' hm)
    rw [hro, if_neg hr, append_nil]
    exact hs.rows_eq_nil hh hc'
  · exact hs.missing_unique h₁ h₂ (missing_of_update hc hst hc₁).2
      (missing_of_update hc hst hc₂).2
  · rw [hc] at hl
    by_cases hcc : c' = c
    · subst hcc
      rw [update_self] at hl
      have hr : row.indexer = hash := hi.trans hh
      refine ⟨row, ?_, ?_⟩
      · rw [hro, if_pos hr]
        exact mem_append_right _ (mem_singleton_self _)
      · rw [hsi l hl, hh]
    · rw [update_of_ne hcc] at hl
      obtain ⟨row', hmem, rfl⟩ := hs.exists_row hh hl
      exact ⟨row', hro ▸ mem_append_left _ hmem, rfl⟩

theorem OneSite.keepRows (hs : OneSite calls hash s)
    (hsc : s'.deploymentSchemas = s.deploymentSchemas)
    (hc : s'.calls = Function.update s.calls c st) (hst : st ≠ .missing) (hsi : ∀ l,
      st.locator? = some l → (s.calls c).locator? = some l ∨
      ∃ row ∈ s.rows (calls c).schema.id, l = ⟨row.id, (calls c).schema.id⟩) :
    OneSite calls hash s' := by
  have hr := rows_congr hash hsc
  refine ⟨hr ▸ hs.length_le, fun {c'} hh hc' => ?_, fun {c₁ c₂} h₁ h₂ hc₁ hc₂ => ?_,
    fun {c' l} hh hl => ?_⟩
  · rw [hr]
    exact hs.rows_eq_nil hh (missing_of_update hc hst hc').2
  · exact hs.missing_unique h₁ h₂ (missing_of_update hc hst hc₁).2
      (missing_of_update hc hst hc₂).2
  · rw [hr]
    rw [hc] at hl
    by_cases hcc : c' = c
    · subst hcc
      rw [update_self] at hl
      rcases hsi l hl with hl | ⟨row, hmem, rfl⟩
      · exact hs.exists_row hh hl
      · rw [hh] at hmem ⊢
        exact ⟨row, hmem, rfl⟩
    · rw [update_of_ne hcc] at hl
      exact hs.exists_row hh hl

theorem OneSite.step (hs : OneSite calls hash s) (hq : Undisturbed calls hash s (c, action))
    (h : s.step isNumeric config calls (c, action) = some s') : OneSite calls hash s' := by
  obtain ⟨ha, hr, rfl⟩ | ⟨row, st, hm, hi, hsc, hc, hst, hsi⟩ |
    ⟨st, hsc, hc, hst, hsi⟩ := step_cases h
  · exact hs.findNone hr fun hh => hq hh _ ha
  · exact hs.insertRow hm hi hsc hc hst hsi
  · exact hs.keepRows hsc hc hst hsi

/-- **One row for a deployment, and one site for all its callers**, if no call looks for a site
while another one is about to insert it. -/
theorem one_site (isNumeric : Char → Bool) (config : LayoutConfig) (calls : C → CreateCall)
    (hash : DeploymentHash) {labels : List (C × CreateAction)}
    (hrun : Run (SiteAllocation.step isNumeric config calls) (Undisturbed calls hash) s labels s')
    (hstart : ∀ c, s.calls c = .start) (hrows : (s.rows hash).length ≤ 1) :
    (s'.rows hash).length ≤ 1 ∧ ∀ c c' locator locator', (calls c).schema.id = hash →
      (calls c').schema.id = hash → s'.calls c = .returned (.ok locator) →
      s'.calls c' = .returned (.ok locator') → locator = locator' := by
  have ho : OneSite calls hash s' := by
    apply Run.invariant (I := fun _ s => OneSite calls hash s) hrun
    · refine ⟨hrows, fun _ hc => ?_, fun _ _ hc => ?_, fun {c _} _ hl => ?_⟩
      · rw [hstart] at hc
        cases hc
      · rw [hstart] at hc
        cases hc
      · rw [hstart c] at hl
        cases hl
    · intro _ s l s' hs hq hst
      exact hs.step hq hst
  refine ⟨ho.length_le, fun c c' locator locator' hc hc' hl hl' => ?_⟩
  obtain ⟨row, hr, rfl⟩ := ho.exists_row hc (by rw [hl]; rfl)
  obtain ⟨row', hr', rfl⟩ := ho.exists_row hc' (by rw [hl']; rfl)
  obtain ⟨si, hsi⟩ : ∃ si, s'.rows hash = [si] :=
    length_eq_one_iff.1 (le_antisymm ho.length_le (length_pos_of_mem hr))
  rw [hsi, mem_singleton] at hr hr'
  rw [hr, hr']

open DeploymentStore (transferSchema newDeployment)

def twoCalls (_ : Bool) : CreateCall := ⟨transferSchema, newDeployment, "mainnet", false⟩

def emptyPrimary : SiteAllocation Bool :=
  ⟨[], 1, Finmap.insert primaryShard .empty ∅, fun _ => .start⟩

def inTurn : List (Bool × CreateAction) :=
  [(false, .findSite none), (false, .createSite 1),
    (true, .findSite (some ⟨1, "Qm", "sgd1", "primary", "mainnet"⟩)),
    (true, .createDeployment fun _ => none), (false, .createDeployment fun _ => none)]

theorem one_site_twoCalls : ∃ s : SiteAllocation Bool,
      Run (SiteAllocation.step Char.isDigit ⟨id, []⟩ twoCalls) (Undisturbed twoCalls "Qm")
        emptyPrimary inTurn s ∧
      s.calls true = .returned (.ok ⟨1, "Qm"⟩) ∧ (s.rows "Qm").length ≤ 1 ∧
      ∀ c c' locator locator', (twoCalls c).schema.id = "Qm" → (twoCalls c').schema.id = "Qm" →
        s.calls c = .returned (.ok locator) → s.calls c' = .returned (.ok locator') →
        locator = locator' := by
  have hru : ∃ s : SiteAllocation Bool,
      Run (SiteAllocation.step Char.isDigit ⟨id, []⟩ twoCalls) (Undisturbed twoCalls "Qm")
        emptyPrimary inTurn s ∧ s.calls true = .returned (.ok ⟨1, "Qm"⟩) := by
    refine ⟨_, .cons nofun rfl (.cons nofun rfl (.cons ?_ rfl
      (.cons nofun rfl (.cons nofun rfl (.nil _))))), rfl⟩
    rintro - row? - (- | -) -
    · nofun
    · nofun
  obtain ⟨s, hru, hr⟩ := hru
  exact ⟨s, hru, hr, one_site _ _ twoCalls "Qm" hru (fun _ => rfl) (Nat.zero_le 1)⟩

theorem two_sites : ∃ s : SiteAllocation Bool,
      Run (SiteAllocation.step Char.isDigit ⟨id, []⟩ twoCalls) (fun _ _ => True) emptyPrimary
        [(false, .findSite none), (true, .findSite none), (false, .createSite 1),
          (true, .createSite 2), (false, .createDeployment fun _ => none),
          (true, .createDeployment fun _ => none)] s ∧
      (s.rows "Qm").length = 2 ∧ s.calls false = .returned (.ok ⟨1, "Qm"⟩) ∧
      s.calls true = .returned (.ok ⟨2, "Qm"⟩) :=
  ⟨_, .of_foldlM rfl, rfl, rfl, rfl⟩

inductive IndexerRegistrarError where
  | deploymentNotFound (hash : String)
  | storeError (e : StoreError)

def IndexerRegistrarError.ofStoreError : StoreError → IndexerRegistrarError
  | .deploymentNotFound hash => .deploymentNotFound hash
  | e => .storeError e

variable (isNumeric) in
def locators (self : SiteAllocation C) (hash : DeploymentHash) :
    Outcome StoreError (List DeploymentLocator) := do
  let sites ← (self.rows hash).mapM fun row => .ofExcept (Primary.Site.tryFrom isNumeric row)
  return sites.map Primary.Site.toLocator

variable (isNumeric) in
/-- How the registrar finds the deployment that it has created. -/
def locate (self : SiteAllocation C) (hash : DeploymentHash) :
    Outcome IndexerRegistrarError DeploymentLocator := do
  match ← (self.locators isNumeric hash).mapErr .ofStoreError with
  | [] => .err (.deploymentNotFound hash)
  | [deployment] => .ok deployment
  | locations => .err (.storeError (.unknown ("there are " ++ toString locations.length ++
      " different deployments with id " ++ hash)))

theorem rows_isPrefix (h : s.step isNumeric config calls (c, action) = some s')
    (hash : DeploymentHash) : s.rows hash <+: s'.rows hash := by
  rcases step_cases h with ⟨-, -, rfl⟩ | ⟨row, st, -, -, hr, -⟩ | ⟨st, hr, -⟩
  · exact prefix_rfl
  · exact ⟨_, (rows_of_append hash hr).symm⟩
  · exact (rows_congr hash hr).symm ▸ prefix_rfl

/-- **Two sites are for ever.** Once a deployment has two sites, no interleaving of further calls
lets the registrar find it again. -/
theorem locate_ne_ok {ok : SiteAllocation C → C × CreateAction → Prop}
    {labels : List (C × CreateAction)} (hrun : Run (step isNumeric config calls) ok s labels s')
    (hrows : 2 ≤ (s.rows hash).length) (deployment : DeploymentLocator) :
    s'.locate isNumeric hash ≠ .ok deployment := by
  have hp : s.rows hash <+: s'.rows hash := by
    refine hrun.invariant (I := fun _ s' => s.rows hash <+: s'.rows hash) prefix_rfl ?_
    intro _ s' l s'' h _ hs
    exact h.trans (rows_isPrefix hs hash)
  intro h
  obtain ⟨locations, hl, h⟩ := bind_eq_ok.1 h
  obtain ⟨sites, hs, hl⟩ := bind_eq_ok.1 (mapErr_eq_ok.1 hl)
  cases hl
  have hlen := (Outcome.mapM_eq_ok.1 hs).length_eq
  have hle := hp.length_le
  rcases sites with - | ⟨site, - | ⟨site', sites⟩⟩
  · cases h
  · rw [length_singleton] at hlen
    omega
  · cases h

def bothAllocate : List (Bool × CreateAction) :=
  [(false, .findSite none), (true, .findSite none), (false, .createSite 1), (true, .createSite 2)]

theorem locate_ne_ok_twoCalls : ∃ s s' : SiteAllocation Bool,
    Run (step Char.isDigit ⟨id, []⟩ twoCalls) (fun _ _ => True) emptyPrimary bothAllocate s ∧
    Run (step Char.isDigit ⟨id, []⟩ twoCalls) (fun _ _ => True) s
      [(true, .createDeployment fun _ => none)] s' ∧
    ∀ deployment, s'.locate Char.isDigit "Qm" ≠ .ok deployment := by
  obtain ⟨s, s', hr, hr', hl⟩ : ∃ s s', Run (step Char.isDigit ⟨id, []⟩ twoCalls) (fun _ _ => True)
      emptyPrimary bothAllocate s ∧ Run (step Char.isDigit ⟨id, []⟩ twoCalls) (fun _ _ => True) s
      [(true, .createDeployment fun _ => none)] s' ∧ (s.rows "Qm").length = 2 :=
    ⟨_, _, .of_foldlM rfl, .of_foldlM rfl, rfl⟩
  exact ⟨s, s', hr, hr', locate_ne_ok hr' hl.ge⟩

end SiteAllocation

end Massbit
