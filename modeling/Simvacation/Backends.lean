import Simvacation.ReplyTable

/-!
Runs of storage calls. Any sequence of `recent` and `store_reply` calls, by
handles of any recipients on one shared store, gets the answers of the table
from the redis backend and from the lmdb backend.
-/

namespace Simvacation.Backends

open CString Numerals Yasl Vutil Vdb Expiring Machine ReplyTable

inductive Request where
  | storeReply
  | recent
  deriving DecidableEq, Repr

/-- A call through the handle of a recipient. -/
structure Call where
  request : Request
  rcpt : Bytes
  sender : Bytes
  calls : Calls

def Call.key (c : Call) : Key := tableKey c.rcpt c.sender

/-- `recent` asks the server before it reads the clock, `store_reply` after it. -/
def Call.span (c : Call) : Span :=
  match c.request with
  | .recent => ⟨c.calls.serverTime, c.calls.time⟩
  | .storeReply => ⟨c.calls.time, c.calls.serverTime⟩

/-- EXPIRE and DEL may fail. -/
structure NoStorageError (calls : Calls) : Prop where
  get : calls.get = true
  set : calls.set = true
  txnBegin : calls.txnBegin = true
  dbiOpen : calls.dbiOpen = true
  mdbGet : calls.mdbGet = true
  mdbPut : calls.mdbPut = true
  txnCommit : calls.txnCommit = true

structure Call.Valid (interval : Bytes → ℤ) (c : Call) : Prop where
  noNul : 0 ∉ c.rcpt
  length : c.rcpt.length ≤ 489
  kept : Kept interval c.rcpt
  time : InRange c.calls.time
  calls : NoStorageError c.calls

/-- What redis needs to follow the table. -/
structure Call.RedisOk (interval : Bytes → ℤ) (c : Call) : Prop where
  noNul : 0 ∉ c.rcpt
  kept : Kept interval c.rcpt
  time : InRange c.calls.time
  calls : NoStorageError c.calls

/-- What lmdb needs; here any interval will do. -/
structure Call.LmdbOk (interval : Bytes → ℤ) (c : Call) : Prop where
  noNul : 0 ∉ c.rcpt
  key : validKey (lmdbVdbKey c.rcpt c.sender) = true
  addable : Addable (interval c.rcpt)
  time : InRange c.calls.time
  calls : NoStorageError c.calls

/-- The answer to `recent`; `store_reply` has none. -/
def backendMachine (vdb : VdbBackend) (interval : Bytes → ℤ) :
    Machine Store Call (Option VdbStatus) where
  step store c :=
    match c.request with
    | .storeReply => ((vdb.storeReply c.calls store ⟨c.rcpt⟩ c.sender).2, none)
    | .recent =>
      let r := vdb.recent c.calls store ⟨c.rcpt⟩ c.sender (interval c.rcpt)
      (r.2, some r.1)

def tableMachine (interval : Bytes → ℤ) : Machine Table Call (Option VdbStatus) where
  step T c :=
    match c.request with
    | .storeReply => (Function.update T c.key (some c.calls.time), none)
    | .recent =>
      let fresh := (T c.key).any fun last => c.calls.time < last + interval c.rcpt
      (T, some (if fresh then .recent else .ok))

section

variable {interval : Bytes → ℤ}

theorem Call.Valid.redisOk {c : Call} (h : c.Valid interval) : c.RedisOk interval :=
  ⟨h.noNul, h.kept, h.time, h.calls⟩

theorem Call.Valid.lmdbOk {c : Call} (h : c.Valid interval) : c.LmdbOk interval := by
  have hlen := length_keyText_le c.key
  have hrcpt : c.key.1.length ≤ 489 := h.length
  have hkey : validKey (lmdbVdbKey c.rcpt c.sender) = true := by
    rw [lmdbVdbKey_eq]
    exact validKey_lmdbKey (k := c.key) (by omega)
  exact ⟨h.noNul, hkey, h.kept.addable, h.time, h.calls⟩

theorem Call.LmdbOk.storable {c : Call} (h : c.LmdbOk interval) : Storable c.key := by
  have hkey := h.key
  rw [lmdbVdbKey_eq] at hkey
  exact storable_of_validKey h.noNul hkey

theorem fresh_iff_any (T : Table) (c : Call) :
    Fresh (limit interval) T (tableKey c.rcpt c.sender) c.calls.time ↔
      ((T c.key).any fun last => c.calls.time < last + interval c.rcpt) = true := by
  simp [Fresh, Call.key, limit, tableKey, Option.any_eq_true]

theorem status_eq {s : VdbStatus} {p : Prop} {b : Bool} (h : s = .recent ↔ p) (hb : p ↔ b = true) :
    s = if b then .recent else .ok := by
  cases s with
  | ok =>
    have hp : ¬ p := fun e => by cases h.mpr e
    rw [if_neg (fun e => hp (hb.mpr e))]
  | recent => rw [if_pos (hb.mp (h.mp rfl))]

theorem redis_simulates : (backendMachine redisVdb interval).Simulates (tableMachine interval)
    Call.span (Call.RedisOk interval) fun t store T => RedisTracks interval t store.redis T := by
  intro t store T c hR hvalid hfirst hspan
  have hrange := hvalid.time
  cases hreq : c.request with
  | storeReply =>
    simp only [Call.span, hreq] at hfirst hspan
    simp only [backendMachine, tableMachine, Call.span, hreq, and_true]
    exact (redisVdbStoreReply_tracks hR hvalid.noNul hvalid.calls.set hfirst hspan hrange).2
  | recent =>
    simp only [Call.span, hreq] at hfirst hspan
    simp only [backendMachine, tableMachine, Call.span, hreq]
    obtain ⟨hstatus, hR'⟩ := @redisVdbRecent_tracks interval t T c.calls c.rcpt c.sender _ hR
      hvalid.noNul hvalid.kept hvalid.calls.get hfirst hspan hrange.1
    exact ⟨hR', congrArg some (status_eq hstatus (fresh_iff_any T c))⟩

theorem lmdb_simulates : (backendMachine lmdbVdb interval).Simulates (tableMachine interval)
    Call.span (Call.LmdbOk interval) fun t store T => LmdbTracks interval t store.lmdb T := by
  intro t store T c hR hvalid hfirst hspan
  have hrange := hvalid.time
  have hcalls := hvalid.calls
  cases hreq : c.request with
  | storeReply =>
    simp only [Call.span, hreq] at hfirst hspan
    simp only [backendMachine, tableMachine, Call.span, hreq, and_true]
    exact (lmdbVdbStoreReply_tracks hR hvalid.storable hcalls.txnBegin hcalls.dbiOpen hcalls.mdbPut
      hcalls.txnCommit hfirst hrange).2.mono hspan
  | recent =>
    simp only [Call.span, hreq] at hfirst hspan
    simp only [backendMachine, tableMachine, Call.span, hreq]
    have ht : t ≤ c.calls.time := hfirst.trans hspan
    have hstatus := lmdbVdbRecent_tracks hR hvalid.storable hvalid.addable hcalls.txnBegin
      hcalls.dbiOpen hcalls.mdbGet ht hrange.1
    exact ⟨Tracks.mono hR ht, congrArg some (status_eq hstatus (fresh_iff_any T c))⟩

theorem redisTracks_empty (t : ℤ) : RedisTracks interval t Store.empty.redis Table.empty :=
  fun _ _ => rfl

theorem lmdbTracks_empty (t : ℤ) : LmdbTracks interval t Store.empty.lmdb Table.empty :=
  fun _ _ => rfl

/-- The answers to the calls of one recipient. -/
def answersOf (rcpt : Bytes) (calls : List Call) (answers : List (Option VdbStatus)) :
    List (Option VdbStatus) :=
  ((calls.zip answers).filter fun p => p.1.rcpt = rcpt).map Prod.snd

/-- In the table no recipient sees the entries of another. -/
theorem table_isolated (rcpt : Bytes) {T U : Table} (h : ∀ f, T (rcpt, f) = U (rcpt, f))
    (calls : List Call) :
    answersOf rcpt calls ((tableMachine interval).run T calls) =
      (tableMachine interval).run U (calls.filter fun c => c.rcpt = rcpt) := by
  induction calls generalizing T U with
  | nil => rfl
  | cons c calls ih =>
    unfold answersOf at ih ⊢
    simp only [Machine.run, List.zip_cons_cons, List.filter_cons]
    by_cases hc : c.rcpt = rcpt
    · subst hc
      have hkey : T c.key = U c.key := h _
      have hstep : ∀ f, ((tableMachine interval).step T c).1 (c.rcpt, f) =
          ((tableMachine interval).step U c).1 (c.rcpt, f) := by
        intro f
        cases hreq : c.request with
        | storeReply =>
          simp only [tableMachine, hreq]
          by_cases hf : (c.rcpt, f) = c.key
          · rw [hf, Function.update_self, Function.update_self]
          · rw [Function.update_of_ne hf, Function.update_of_ne hf, h]
        | recent =>
          simp only [tableMachine, hreq]
          exact h f
      have hanswer : ((tableMachine interval).step T c).2 =
          ((tableMachine interval).step U c).2 := by
        cases hreq : c.request with
        | storeReply => simp only [tableMachine, hreq]
        | recent => simp only [tableMachine, hreq, hkey]
      simp only [decide_true, ite_true, List.map_cons, Machine.run, hanswer]
      rw [ih hstep]
    · have hstep : ∀ f, ((tableMachine interval).step T c).1 (rcpt, f) = U (rcpt, f) := by
        intro f
        cases hreq : c.request with
        | storeReply =>
          simp only [tableMachine, hreq]
          have hne : (rcpt, f) ≠ c.key := fun e => hc (congrArg Prod.fst e).symm
          rw [Function.update_of_ne hne, h]
        | recent =>
          simp only [tableMachine, hreq]
          exact h f
      simp only [hc, decide_false, Bool.false_eq_true, ite_false]
      exact ih hstep

/-- Both backends answer every run of calls as the table does, and a recipient
gets the answers it would get if there were no others. -/
theorem backends_refine_table {calls : List Call} {t : ℤ}
    (hvalid : ∀ c ∈ calls, c.Valid interval) (hclock : Chronological Call.span t calls) :
    (backendMachine redisVdb interval).run Store.empty calls =
        (tableMachine interval).run Table.empty calls ∧
      (backendMachine lmdbVdb interval).run Store.empty calls =
        (tableMachine interval).run Table.empty calls ∧
      ∀ vdb ∈ [redisVdb, lmdbVdb], ∀ rcpt,
        answersOf rcpt calls ((backendMachine vdb interval).run Store.empty calls) =
          (backendMachine vdb interval).run Store.empty (calls.filter fun c => c.rcpt = rcpt) := by
  have hredis : ∀ cs : List Call, (∀ c ∈ cs, c.Valid interval) → Chronological Call.span t cs →
      (backendMachine redisVdb interval).run Store.empty cs =
        (tableMachine interval).run Table.empty cs :=
    fun cs hcs => redis_simulates.run_eq (redisTracks_empty t) fun c hc => (hcs c hc).redisOk
  have hlmdb : ∀ cs : List Call, (∀ c ∈ cs, c.Valid interval) → Chronological Call.span t cs →
      (backendMachine lmdbVdb interval).run Store.empty cs =
        (tableMachine interval).run Table.empty cs :=
    fun cs hcs => lmdb_simulates.run_eq (lmdbTracks_empty t) fun c hc => (hcs c hc).lmdbOk
  refine ⟨hredis calls hvalid hclock, hlmdb calls hvalid hclock, fun vdb hvdb rcpt => ?_⟩
  have hvalid' : ∀ c ∈ calls.filter fun c => c.rcpt = rcpt, c.Valid interval :=
    fun c hc => hvalid c (List.mem_of_mem_filter hc)
  have hclock' := hclock.filter fun c => decide (c.rcpt = rcpt)
  simp only [List.mem_cons, List.not_mem_nil, or_false] at hvdb
  rcases hvdb with rfl | rfl
  · rw [hredis calls hvalid hclock, hredis _ hvalid' hclock']
    exact table_isolated rcpt (fun _ => rfl) calls
  · rw [hlmdb calls hvalid hclock, hlmdb _ hvalid' hclock']
    exact table_isolated rcpt (fun _ => rfl) calls

end

theorem noStorageError_succeed (now : ℤ) : NoStorageError (Calls.succeed now) :=
  ⟨rfl, rfl, rfl, rfl, rfl, rfl, rfl⟩

def exampleCalls : List Call :=
  [⟨.storeReply, bytes "bob", bytes "a@b", Calls.succeed 100⟩,
    ⟨.recent, bytes "bob", bytes "a@b", Calls.succeed 150⟩]

/-- A query within the minute after a reply. -/
theorem backends_refine_table_minute :
    (backendMachine redisVdb fun _ => 60).run Store.empty exampleCalls =
        (tableMachine fun _ => 60).run Table.empty exampleCalls ∧
      (backendMachine lmdbVdb fun _ => 60).run Store.empty exampleCalls =
        (tableMachine fun _ => 60).run Table.empty exampleCalls ∧
      ∀ vdb ∈ [redisVdb, lmdbVdb], ∀ rcpt,
        answersOf rcpt exampleCalls
            ((backendMachine vdb fun _ => 60).run Store.empty exampleCalls) =
          (backendMachine vdb fun _ => 60).run Store.empty
            (exampleCalls.filter fun c => c.rcpt = rcpt) := by
  have hvalid : ∀ c ∈ exampleCalls, c.Valid fun _ => 60 := by
    intro c hc
    simp only [exampleCalls, List.mem_cons, List.not_mem_nil, or_false] at hc
    rcases hc with rfl | rfl
    · exact ⟨by decide, by decide, ⟨by decide, by decide⟩, ⟨by decide, by decide⟩,
        noStorageError_succeed _⟩
    · exact ⟨by decide, by decide, ⟨by decide, by decide⟩, ⟨by decide, by decide⟩,
        noStorageError_succeed _⟩
  have hclock : Chronological Call.span 0 exampleCalls := by decide
  exact backends_refine_table hvalid hclock

end Simvacation.Backends
