import Simvacation.Concurrent
import Simvacation.Transactions

/-!
Runs on LMDB, call by call. Between two calls into the library, and between a call and
the clock reading that belongs to it, other runs go on or this one is killed. Still
`lmdb_vdb_recent`, `lmdb_vdb_store_reply` and `lmdb_vdb_gc` are steps: the first takes
place when its transaction begins, the others when theirs is committed.
-/

namespace Simvacation.LmdbCalls

open CString Numerals Yasl Vutil SendMessage Vdb Main Machine Transactions
open Concurrent (Process)

section

variable {σ : Type}

/-- `lmdb_vdb_recent` behind `mdb_txn_begin`; the last call is `mdb_txn_abort`. -/
def recentScript (calls : Calls) (vdb : VDB) (sender : Bytes) (interval : ℤ)
    (vars : VdbStatus → σ) : Script LmdbDb σ false :=
  let key := lmdbVdbKey vdb.rcpt sender
  -- `mdb_dbi_open`
  .look fun _ =>
    if !calls.dbiOpen then .finish false (vars .ok)
    else
      -- `mdb_get`
      .look fun db =>
        match if calls.mdbGet && validKey key then db.get key else none with
        | none => .finish false (vars .ok)
        | some data =>
          if data.length ≠ 8 then .finish false (vars .ok)
          else
            let last := ofBytes64 data
            -- `time`
            .look fun _ =>
              if calls.time < 0 then .finish false (vars .ok)
              else if calls.time < addTime last interval then .finish false (vars .recent)
              else .finish false (vars .ok)

/-- `lmdb_vdb_store_reply` behind `mdb_txn_begin`. -/
def storeReplyScript (calls : Calls) (vdb : VDB) (sender : Bytes) (vars : σ) :
    Script LmdbDb σ true :=
  -- `mdb_dbi_open`
  .look fun _ =>
    if !calls.dbiOpen then .finish false vars
    else
      let key := lmdbVdbKey vdb.rcpt sender
      -- `mdb_put`
      if !(calls.mdbPut && validKey key) then .look fun _ => .finish false vars
      else .edit (fun db => db.insert key (toBytes64 calls.time)) (.finish calls.txnCommit vars)

/-- The cursor loop with `mdb_cursor_get` and `mdb_del`; it ends with `mdb_txn_commit`. -/
def gcLoopScript (calls : Calls) (expire : ℤ) (vars : σ) :
    ℕ → ℕ → Option Bytes → Script LmdbDb σ true
  | 0, _, _ => .finish calls.txnCommit vars
  | fuel + 1, n, pos =>
    .look fun db =>
      if !calls.cursorGet n then .finish calls.txnCommit vars
      else
        match db.next pos with
        | none => .finish calls.txnCommit vars
        | some (key, data) =>
          let rest := gcLoopScript calls expire vars fuel (n + 1) (some key)
          if gcExpired calls expire key data then
            .edit (fun db => if calls.mdbDel n then db.erase key else db) rest
          else rest

/-- `lmdb_vdb_gc` behind `mdb_txn_begin`. -/
def gcScript (calls : Calls) (vars : σ) : Script LmdbDb σ true :=
  let expire := calls.time - expiry
  -- `mdb_dbi_open`
  .look fun _ =>
    if !calls.dbiOpen then .finish false vars
    else
      -- `mdb_cursor_open`
      .look fun db =>
        if !calls.cursorOpen then .finish false vars
        else gcLoopScript calls expire vars (db.entries.length + 1) 0 none

variable {calls : Calls} {db : LmdbDb} {vdb : VDB} {sender : Bytes}

theorem eval_recentScript {interval : ℤ} {vars : VdbStatus → σ} (h : calls.txnBegin = true) :
    ((recentScript calls vdb sender interval vars).eval db db).2 =
      vars (lmdbVdbRecent calls db vdb sender interval) := by
  simp only [recentScript, lmdbVdbRecent, Script.eval, h, Bool.not_true, Bool.false_eq_true,
    ite_false]
  cases hdbi : calls.dbiOpen with
  | false => rfl
  | true =>
    simp only [Bool.not_true, Bool.false_eq_true, ite_false, Script.eval]
    cases (if calls.mdbGet && validKey (lmdbVdbKey vdb.rcpt sender) then
      db.get (lmdbVdbKey vdb.rcpt sender) else none) with
    | none => rfl
    | some data =>
      simp only
      by_cases hlen : data.length ≠ 8
      · rw [if_pos hlen, if_pos hlen]
        rfl
      · rw [if_neg hlen, if_neg hlen]
        simp only [Script.eval]
        split
        · rfl
        · split <;> rfl

theorem eval_storeReplyScript {vars : σ} (htime : ¬ calls.time < 0) (h : calls.txnBegin = true) :
    (storeReplyScript calls vdb sender vars).eval db db =
      ((lmdbVdbStoreReply calls db vdb sender).2, vars) := by
  simp only [storeReplyScript, lmdbVdbStoreReply, Script.eval, htime, h, Bool.not_true,
    Bool.false_eq_true, ite_false]
  cases hdbi : calls.dbiOpen with
  | false => rfl
  | true =>
    simp only [Bool.not_true, Bool.false_eq_true, ite_false]
    cases hput : calls.mdbPut && validKey (lmdbVdbKey vdb.rcpt sender) with
    | false => rfl
    | true =>
      cases hcommit : calls.txnCommit with
      | false => rfl
      | true => rfl

theorem eval_gcLoopScript {expire : ℤ} {vars : σ} (base : LmdbDb) (fuel n : ℕ)
    (pos : Option Bytes) :
    (gcLoopScript calls expire vars fuel n pos).eval base db =
      (if calls.txnCommit then gcLoop calls expire fuel n pos db else base, vars) := by
  induction fuel generalizing db n pos with
  | zero => rfl
  | succ fuel ih =>
    unfold gcLoopScript gcLoop
    simp only [Script.eval]
    cases hget : calls.cursorGet n with
    | false => rfl
    | true =>
      cases hnext : db.next pos with
      | none => rfl
      | some e =>
        simp only [Bool.not_true, Bool.false_eq_true, ite_false]
        by_cases hexpired : gcExpired calls expire e.1 e.2 = true
        · rw [if_pos hexpired, Script.eval, ih]
          simp only [hexpired, Bool.true_and]
        · rw [if_neg hexpired, ih]
          simp [hexpired]

theorem eval_gcScript {vars : σ} (htime : ¬ calls.time < 0) (h : calls.txnBegin = true) :
    (gcScript calls vars).eval db db = (lmdbVdbGc calls db, vars) := by
  simp only [gcScript, lmdbVdbGc, Script.eval, htime, h, Bool.not_true, Bool.false_eq_true,
    ite_false]
  cases hdbi : calls.dbiOpen with
  | false => rfl
  | true =>
    simp only [Bool.not_true, Bool.false_eq_true, ite_false, Script.eval]
    cases hcursor : calls.cursorOpen with
    | false => rfl
    | true => exact eval_gcLoopScript db _ 0 none

end

variable {L : Type}

/-- A run of `simvacation`, or one of `simunvacation` that comes to the collection. -/
inductive Job (L : Type) where
  | reply (proc : Process L)
  | collect (calls : Calls)

inductive Action where
  | query
  | clock
  | record
  | send
  | collect
  deriving DecidableEq, Repr

/-- How far a run has come, with its variables. In `timed` it has read the clock for a
record or for a cutoff. -/
inductive Phase (L : Type) where
  | start
  | queried (m : Accepted L) (sender canon : Bytes)
  | timed (m : Accepted L) (sender canon : Bytes)
  | recorded (m : Accepted L) (sender canon : Bytes)
  | collecting
  | finished

def Phase.afterQuery (m : Accepted L) (sender canon : Bytes) : VdbStatus → Phase L
  | .recent => .finished
  | .ok => .queried m sender canon

/-- The next calls of a run. -/
def Job.next : Job L → Phase L → Move LmdbDb (Phase L) Action
  | .reply proc, .start =>
    match admitted proc.args proc.world with
    | .error _ => .go .query .finished
    | .ok (m, sender, canon) =>
      let calls := proc.world.recent
      let after := Phase.afterQuery m sender canon
      if !calls.txnBegin then .go .query (after .ok)
      else .begin .query false (recentScript calls m.vdbh canon m.interval after)
  | .reply _, .queried m sender canon => .go .clock (.timed m sender canon)
  | .reply proc, .timed m sender canon =>
    let calls := proc.world.storeReply
    let after := .recorded m sender canon
    if calls.time < 0 then .go .record after
    else if !calls.txnBegin then .go .record after
    else .begin .record true (storeReplyScript calls m.vdbh canon after)
  | .reply _, .recorded _ _ _ => .go .send .finished
  | .collect _, .start => .go .clock .collecting
  | .collect calls, .collecting =>
    if calls.time < 0 then .go .collect .finished
    else if !calls.txnBegin then .go .collect .finished
    else .begin .collect true (gcScript calls .finished)
  | _, _ => .stop

/-- The next function of a run. -/
def Job.function : Job L → LmdbDb → Phase L → Option (Action × LmdbDb × Phase L)
  | .reply proc, db, .start =>
    match admitted proc.args proc.world with
    | .error _ => some (.query, db, .finished)
    | .ok (m, sender, canon) =>
      let status := lmdbVdbRecent proc.world.recent db m.vdbh canon m.interval
      some (.query, db, .afterQuery m sender canon status)
  | .reply _, db, .queried m sender canon => some (.clock, db, .timed m sender canon)
  | .reply proc, db, .timed m sender canon =>
    some (.record, (lmdbVdbStoreReply proc.world.storeReply db m.vdbh canon).2,
      .recorded m sender canon)
  | .reply _, db, .recorded _ _ _ => some (.send, db, .finished)
  | .collect _, db, .start => some (.clock, db, .collecting)
  | .collect calls, db, .collecting => some (.collect, lmdbVdbGc calls db, .finished)
  | _, _, _ => none

abbrev Runs (L : Type) := Serial LmdbDb (Phase L)

def Runs.init (db : LmdbDb) : Runs L := ⟨db, fun _ => .start⟩

/-- Runs that are interrupted between functions only. -/
def functions (jobs : ℕ → Job L) : Machine (Runs L) (Step Action) (Option (Step Action)) where
  step s i :=
    match (jobs i.pid).function s.db (s.vars i.pid) with
    | none => (s, none)
    | some (name, db, phase) =>
      if name = i.name then (⟨db, Function.update s.vars i.pid phase⟩, some i) else (s, none)

/-- What a function does is what its calls come to. -/
theorem function_eq (job : Job L) (db : LmdbDb) (phase : Phase L) :
    job.function db phase = (job.next phase).eval db := by
  fun_cases Job.next job phase with
  | case1 proc ending h =>
    simp only [Job.function, h]
    rfl
  | case2 proc m sender canon h calls after hbegin =>
    have hrecent : lmdbVdbRecent proc.world.recent db m.vdbh canon m.interval = .ok := by
      unfold lmdbVdbRecent
      simp only [show (!proc.world.recent.txnBegin) = true from hbegin, ite_true]
    simp only [Job.function, h, hrecent]
    rfl
  | case3 proc m sender canon h calls after hbegin =>
    have hbegin' : calls.txnBegin = true := by simpa using hbegin
    have heval := @eval_recentScript _ calls db m.vdbh canon m.interval after hbegin'
    simp only [Job.function, h]
    exact congrArg some (Prod.ext rfl (Prod.ext (eval_reader _ db).symm heval.symm))
  | case4 => rfl
  | case5 proc m sender canon calls after htime =>
    simp only [Job.function, lmdbVdbStoreReply]
    rw [if_pos htime]
    rfl
  | case6 proc m sender canon calls after htime hbegin =>
    simp only [Job.function, lmdbVdbStoreReply]
    rw [if_neg htime, if_pos hbegin]
    rfl
  | case7 proc m sender canon calls after htime hbegin =>
    have hbegin' : calls.txnBegin = true := by simpa using hbegin
    rw [Move.eval, eval_storeReplyScript htime hbegin']
    rfl
  | case8 => rfl
  | case9 => rfl
  | case10 calls htime =>
    simp only [Job.function, lmdbVdbGc]
    rw [if_pos htime]
    rfl
  | case11 calls htime hbegin =>
    simp only [Job.function, lmdbVdbGc]
    rw [if_neg htime, if_pos hbegin]
    rfl
  | case12 calls htime hbegin =>
    have hbegin' : calls.txnBegin = true := by simpa using hbegin
    rw [Move.eval, eval_gcScript htime hbegin']
    rfl
  | case13 job phase hstart hqueried htimed hrecorded hclock hcollecting =>
    cases job with
    | reply proc =>
      cases phase with
      | start => exact absurd rfl (hstart proc rfl)
      | queried m sender canon => exact absurd rfl (hqueried proc m sender canon rfl)
      | timed m sender canon => exact absurd rfl (htimed proc m sender canon rfl)
      | recorded m sender canon => exact absurd rfl (hrecorded proc m sender canon rfl)
      | collecting => rfl
      | finished => rfl
    | collect calls =>
      cases phase with
      | start => exact absurd rfl (hclock calls rfl)
      | collecting => exact absurd rfl (hcollecting calls rfl)
      | queried => rfl
      | timed => rfl
      | recorded => rfl
      | finished => rfl

theorem functions_eq_serial (jobs : ℕ → Job L) :
    functions jobs = serial fun p => (jobs p).next := by
  simp only [functions, serial, function_eq]
  congr 1
  funext s i
  cases ((jobs i.pid).next (s.vars i.pid)).eval s.db with
  | none => rfl
  | some r => rfl

/-- Whatever order the calls of any number of runs come in, and wherever runs are
killed, the database and the variables of the runs are those of runs in which every
function of the reply store is one step: a query where its transaction begins, a record
and a collection where theirs ends. -/
theorem calls_refine_functions (jobs : ℕ → Job L) (db : LmdbDb) (events : List Event) :
    let machine := Transactions.calls fun p => (jobs p).next
    let before := ⟨db, none, fun _ => .outside .start⟩
    let steps := machine.outputs before events
    let after := machine.final before events
    let runs := (functions jobs).final (Runs.init db) steps
    (functions jobs).outputs (Runs.init db) steps = steps ∧ after.db = runs.db ∧
      ∀ p phase, after.client p = .outside phase → runs.vars p = phase := by
  simp only
  rw [functions_eq_serial]
  obtain ⟨hrefines, houtputs⟩ :=
    refines_run (@refines_init _ _ _ (fun p => (jobs p).next) db fun _ => Phase.start) events
  refine ⟨houtputs, hrefines.db, fun p phase hclient => ?_⟩
  have hvars := hrefines.vars p
  rw [hclient] at hvars
  exact hvars

/-- A run that nobody interrupts does what `main` does. -/
theorem run_alone {jobs : ℕ → Job L} {p : ℕ} {proc : Process L} {store : Store}
    (hjob : jobs p = .reply proc)
    (hlmdb : ∀ m sender canon, admitted proc.args proc.world = .ok (m, sender, canon) →
      m.vdb = lmdbVdb) :
    let steps : List (Step Action) := [.query, .clock, .record, .send].map fun c => ⟨p, c⟩
    let outcome := main proc.args proc.world store
    ((functions jobs).final (Runs.init store.lmdb) steps).db = outcome.store.lmdb ∧
      (⟨p, .send⟩ ∈ (functions jobs).outputs (Runs.init store.lmdb) steps ↔
        outcome.recorded = true) := by
  simp only
  cases h : admitted proc.args proc.world with
  | error ending =>
    simp [Machine.final, Machine.outputs, Machine.run, functions, Job.function, hjob, h,
      Runs.init, main]
  | ok admission =>
    obtain ⟨m, sender, canon⟩ := admission
    have hvdb := hlmdb m sender canon h
    have hmain : main proc.args proc.world store = m.respond proc.world store sender canon := by
      simp only [main, h]
    have hquery : m.query proc.world.recent store canon =
        (lmdbVdbRecent proc.world.recent store.lmdb m.vdbh canon m.interval, store) := by
      rw [Accepted.query, hvdb]
      rfl
    rw [hmain]
    cases hrecent : lmdbVdbRecent proc.world.recent store.lmdb m.vdbh canon m.interval with
    | recent =>
      rw [respond_of_recent (by rw [hquery, hrecent]), hquery]
      simp [Machine.final, Machine.outputs, Machine.run, functions, Job.function, hjob, h,
        Runs.init, hrecent, Phase.afterQuery]
    | ok =>
      rw [respond_of_not_recent (by simp [hquery, hrecent]), hquery]
      simp [Machine.final, Machine.outputs, Machine.run, functions, Job.function, hjob, h,
        Runs.init, hrecent, Phase.afterQuery, Accepted.record, hvdb, lmdbVdb]

end Simvacation.LmdbCalls
