/-
`PostgresAdapter::transact_upserts`.
-/
import Massbit.Analytics.Table
import Massbit.Lib.Outcome
import Massbit.Lib.Transaction

open List

namespace Massbit.Analytics.PostgresAdapter

inductive LogEntry (E : Type) where
  | upserted (entities : ℕ) (table : String)
  | failed (table : String) (e : E)
  | noConnection (e : E)

structure Connection (E : Type) where
  pool : Except E Unit
  beginTransaction : Except E Unit
  delivery : ℕ → Delivery E
  commit : CommitFate E

/-- The result of a call, the database after it, and what was written to the log. -/
structure Transacted (D E : Type) where
  result : Outcome E Unit
  database : D
  log : List (LogEntry E)

variable {D E : Type} (server : Server UpsertCommand D E) (renders : UpsertCommand → Bool)

def entryOf (cmd : UpsertCommand) : Except E Unit → LogEntry E
  | .ok _ => .upserted cmd.values.length cmd.table.name
  | .error e => .failed cmd.table.name e

def upsertEach : List (UpsertCommand × Delivery E) → Session D →
    List (LogEntry E) × Option (Session D)
  | [], s => ([], some s)
  | (cmd, delivery) :: rest, s =>
    if renders cmd then
      let executed := s.execute server cmd delivery
      let others := upsertEach rest executed.2
      (entryOf cmd executed.1 :: others.1, others.2)
    else ([], none)

def deliveries (conn : Connection E) (commands : List UpsertCommand) :
    List (UpsertCommand × Delivery E) :=
  commands.zipIdx.map fun x => (x.1, conn.delivery x.2)

def committed (fate : CommitFate E) (db : D) (log : List (LogEntry E)) (s : Session D) :
    Transacted D E :=
  match s.commit server db fate with
  | (.ok _, db') => ⟨.ok (), db', log⟩
  | (.error e, db') => ⟨.err e, db', log⟩

def transactUpserts (conn : Connection E) (commands : List UpsertCommand) (db : D) :
    Transacted D E :=
  match conn.pool with
  | .error e => ⟨.err e, db, [.noConnection e]⟩
  | .ok _ =>
    match conn.beginTransaction with
    | .error e => ⟨.err e, db, []⟩
    | .ok _ =>
      match upsertEach server renders (deliveries conn commands) (.active db) with
      | (log, none) => ⟨.panic, db, log⟩
      | (log, some s) => committed server conn.commit db log s

def applyAll (commands : List UpsertCommand) (db : D) : Except E D :=
  commands.foldlM (fun db cmd => server.run cmd db) db

def Transacted.Fails (self : Transacted D E) : Prop :=
  self.result = .panic ∨ ∃ table e, .failed table e ∈ self.log

/-- A success means that all commands were applied, and an error that nothing happened. -/
def AllOrNothing (commands : List UpsertCommand) (db : D) (r : Transacted D E) : Prop :=
  (r.result = .ok () → applyAll server commands db = .ok r.database) ∧
    (r.Fails → (∃ e, r.result = .err e) ∧ r.database = db)

/-- Every command can be built, is sent and is carried out. -/
def EverySucceeds (conn : Connection E) (commands : List UpsertCommand) (db : D) : Prop :=
  (∀ x ∈ deliveries conn commands, renders x.1 ∧ x.2 = .sent) ∧
    ∃ db', applyAll server commands db = .ok db'

variable {server renders}

def NoneFailed (log : List (LogEntry E)) : Prop := ∀ table e, .failed table e ∉ log

variable {log : List (LogEntry E)} {s : Session D} {conn : Connection E}
  {commands : List UpsertCommand} {db : D}

theorem noneFailed_cons {cmd : UpsertCommand} {result : Except E Unit} :
    NoneFailed (entryOf cmd result :: log) ↔ result = .ok () ∧ NoneFailed log := by
  rcases result with e | -
  · refine iff_of_false (fun h => h cmd.table.name e mem_cons_self) ?_
    rintro ⟨h, -⟩
    cases h
  · constructor
    · exact fun h => ⟨rfl, fun table e hm => h table e (mem_cons_of_mem _ hm)⟩
    · rintro ⟨-, h⟩ table e hm
      rcases mem_cons.1 hm with hm | hm
      · cases hm
      · exact h table e hm

theorem upsertEach_active_iff {l : List (UpsertCommand × Delivery E)} {work : D} :
    (upsertEach server renders l (.active work)).2 = some s ∧
        NoneFailed (upsertEach server renders l (.active work)).1 ↔
      (∀ x ∈ l, renders x.1 ∧ x.2 = .sent) ∧
        ∃ work', applyAll server (l.map Prod.fst) work = .ok work' ∧ s = .active work' := by
  induction l generalizing work with
  | nil =>
    refine ⟨?_, ?_⟩
    · rintro ⟨h, -⟩
      exact ⟨nofun, work, rfl, (Option.some.inj h).symm⟩
    · rintro ⟨-, work', hw, rfl⟩
      obtain rfl : work = work' := Except.ok.inj hw
      exact ⟨rfl, nofun⟩
  | cons x l ih =>
    obtain ⟨cmd, delivery⟩ := x
    rw [upsertEach, forall_mem_cons]
    by_cases hr : renders cmd = true
    · rw [if_pos hr]
      dsimp only
      rw [noneFailed_cons, Session.execute_fst_eq_ok]
      constructor
      · rintro ⟨hs, ⟨hse, _, work₁, ⟨⟩, hru, ha⟩, hlo⟩
        rw [ha] at hs hlo
        obtain ⟨hl, work', hw', hs'⟩ := ih.1 ⟨hs, hlo⟩
        refine ⟨⟨⟨hr, hse⟩, hl⟩, work', ?_, hs'⟩
        rw [applyAll, map_cons, foldlM_cons, hru]
        exact hw'
      · rintro ⟨⟨⟨-, hse⟩, hl⟩, work', hw', hs'⟩
        obtain rfl : delivery = .sent := hse
        rw [applyAll, map_cons, foldlM_cons] at hw'
        cases hru : server.run cmd work with
        | error e =>
          rw [hru] at hw'
          cases hw'
        | ok work₁ =>
          rw [hru] at hw'
          have ha : ((Session.active work).execute server cmd .sent).2 = .active work₁ := by
            rw [Session.execute, hru]
          rw [ha]
          obtain ⟨hs, hlo⟩ := ih.2 ⟨hl, work', hw', hs'⟩
          exact ⟨hs, ⟨rfl, work, work₁, rfl, hru, rfl⟩, hlo⟩
    · rw [if_neg hr]
      refine iff_of_false (fun h => by cases h.1) ?_
      rintro ⟨⟨⟨h, -⟩, -⟩, -⟩
      exact hr h

theorem map_fst_deliveries (conn : Connection E) (commands : List UpsertCommand) :
    (deliveries conn commands).map Prod.fst = commands := by
  rw [deliveries, map_map]
  exact zipIdx_map_fst 0 commands

theorem everySucceeds_iff :
    EverySucceeds server renders conn commands db ↔
      ∃ s, (upsertEach server renders (deliveries conn commands) (.active db)).2 = some s ∧
        NoneFailed (upsertEach server renders (deliveries conn commands) (.active db)).1 := by
  simp only [upsertEach_active_iff, map_fst_deliveries]
  constructor
  · rintro ⟨hs, db', hdb'⟩
    exact ⟨.active db', hs, db', hdb', rfl⟩
  · rintro ⟨s, hs, db', hdb', -⟩
    exact ⟨hs, db', hdb'⟩

variable {fate : CommitFate E}

theorem not_fails_committed :
    ¬(committed server fate db log s).Fails ↔ NoneFailed log := by
  unfold committed Transacted.Fails NoneFailed
  rcases s.commit server db fate with ⟨e | ⟨⟩, db'⟩
  · simp
  · simp

theorem allOrNothing_of_noneFailed
    (hl : upsertEach server renders (deliveries conn commands) (.active db) = (log, some s))
    (hn : NoneFailed log) :
    AllOrNothing server commands db (committed server conn.commit db log s) := by
  refine ⟨fun hr => ?_, fun hf => absurd hf (not_fails_committed.mpr hn)⟩
  obtain ⟨-, work, hw, rfl⟩ := upsertEach_active_iff.mp
    ⟨congrArg Prod.snd hl, (congrArg (NoneFailed ∘ Prod.fst) hl).mpr hn⟩
  rw [map_fst_deliveries] at hw
  unfold committed at hr ⊢
  rcases hcommit : (Session.active work).commit server db conn.commit with ⟨e | ⟨⟩, db'⟩
  · rw [hcommit] at hr
    cases hr
  · have hle := Session.commit_active_eq_ok (congrArg Prod.fst hcommit)
    rw [hcommit] at hle
    rw [hw]
    exact congrArg Except.ok hle.symm

theorem allOrNothing_of_failed (hf : ¬NoneFailed log) :
    AllOrNothing server commands db (committed server fate db log s) ↔
      ∃ e, s.commit server db fate = (.error e, db) := by
  have hfa : (committed server fate db log s).Fails :=
    not_not.1 fun h => hf (not_fails_committed.1 h)
  unfold AllOrNothing
  rw [imp_iff_right hfa]
  unfold committed
  rcases s.commit server db fate with ⟨e | ⟨⟩, db'⟩
  · constructor
    · simp
    · simp
  · simp

theorem transactUpserts_eq (hpool : conn.pool = .ok ()) (hbegin : conn.beginTransaction = .ok ())
    (commands : List UpsertCommand) (db : D) :
    transactUpserts server renders conn commands db =
      match upsertEach server renders (deliveries conn commands) (.active db) with
      | (log, none) => ⟨.panic, db, log⟩
      | (log, some s) => committed server conn.commit db log s := by
  rw [transactUpserts, hpool]
  rw [hbegin]

/-- **All or nothing** if and only if there is no transaction, every command succeeds, or the
`commit` fails and leaves the database as it was. -/
theorem transactUpserts_right_iff (server : Server UpsertCommand D E)
    (renders : UpsertCommand → Bool) (conn : Connection E) (commands : List UpsertCommand) (db : D) :
    AllOrNothing server commands db (transactUpserts server renders conn commands db) ↔
      (∃ e, conn.pool = .error e) ∨ (∃ e, conn.beginTransaction = .error e) ∨
      EverySucceeds server renders conn commands db ∨
      ∃ s e, (upsertEach server renders (deliveries conn commands) (.active db)).2 = some s ∧
        s.commit server db conn.commit = (.error e, db) := by
  rcases hpool : conn.pool with e | ⟨⟩
  · refine iff_of_true ?_ (.inl ⟨e, rfl⟩)
    rw [transactUpserts, hpool]
    refine ⟨nofun, ?_⟩
    simp
  rcases hbegin : conn.beginTransaction with e | ⟨⟩
  · refine iff_of_true ?_ (.inr (.inl ⟨e, rfl⟩))
    rw [transactUpserts, hpool]
    rw [hbegin]
    refine ⟨nofun, ?_⟩
    simp
  rw [transactUpserts_eq hpool hbegin, everySucceeds_iff, or_iff_right (by nofun),
    or_iff_right (by nofun)]
  rcases hl : upsertEach server renders (deliveries conn commands) (.active db) with ⟨log, - | s⟩
  · -- a command that can not be built
    refine iff_of_false (fun h => ?_) ?_
    · obtain ⟨⟨e, he⟩, -⟩ := h.2 (.inl rfl)
      cases he
    · simp
  by_cases hn : NoneFailed log
  · refine iff_of_true ?_ (.inl ⟨s, rfl, hn⟩)
    exact allOrNothing_of_noneFailed hl hn
  · rw [allOrNothing_of_failed hn]
    constructor
    · exact fun h => .inr ⟨s, h.choose, rfl, h.choose_spec⟩
    · rintro (⟨-, -, h⟩ | ⟨_, e, ⟨⟩, h⟩)
      · exact absurd h hn
      · exact ⟨e, h⟩

def connection (delivery : Delivery String) : Connection String where
  pool := .ok ()
  beginTransaction := .ok ()
  delivery i := if i = 1 then delivery else .sent
  commit := .acknowledged

def serverWith (tables : List String) : Server UpsertCommand (List (String × ℕ)) String where
  run cmd db :=
    if cmd.table.name ∈ tables then .ok (db ++ [(cmd.table.name, cmd.values.length)])
    else .error "relation does not exist"
  ignored := "current transaction is aborted, commands ignored until end of transaction block"
  disconnected := "server closed the connection unexpectedly"

def sampleCommands : List UpsertCommand :=
  [{ table := .new "solana_account_transactions" [], values := [∅] },
    { table := .new "solana_transactions" [], values := [∅] }]

theorem transactUpserts_ok_of_failed :
    (transactUpserts (serverWith ["solana_account_transactions"]) (fun _ => true) (connection .sent)
        sampleCommands []
      = ⟨.ok (), [], [.upserted 1 "solana_account_transactions",
          .failed "solana_transactions" "relation does not exist"]⟩ ∧
      ¬AllOrNothing (serverWith ["solana_account_transactions"]) sampleCommands []
        (transactUpserts (serverWith ["solana_account_transactions"]) (fun _ => true)
          (connection .sent) sampleCommands [])) ∧
    transactUpserts (serverWith ["solana_account_transactions", "solana_transactions"])
        (fun _ => true) (connection (.refused "number of parameters must be between 0 and 65535"))
        sampleCommands []
      = ⟨.ok (), [("solana_account_transactions", 1)], [.upserted 1 "solana_account_transactions",
          .failed "solana_transactions" "number of parameters must be between 0 and 65535"]⟩ ∧
      ¬AllOrNothing (serverWith ["solana_account_transactions", "solana_transactions"])
        sampleCommands []
        (transactUpserts (serverWith ["solana_account_transactions", "solana_transactions"])
          (fun _ => true)
          (connection (.refused "number of parameters must be between 0 and 65535"))
          sampleCommands []) := by
  refine ⟨⟨rfl, fun h => ?_⟩, rfl, fun h => ?_⟩
  · have ha := h.1 rfl
    cases ha
  · obtain ⟨-, hdb⟩ := h.2 (.inr ⟨_, _, .tail _ (.head _)⟩)
    cases hdb

end Massbit.Analytics.PostgresAdapter
