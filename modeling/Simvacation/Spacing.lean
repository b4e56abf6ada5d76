import Simvacation.Backends
import Simvacation.Main

/-!
The two backends that keep records, and what a record guarantees. While the
store follows a table, an entry of the table bounds from below the time of every
later query that does not find it; storage calls and garbage collection keep it
or replace it with a later one.
-/

namespace Simvacation.Spacing

open CString Numerals Yasl Vutil Vdb Vlu Expiring Machine ReplyTable Backends Main

inductive Backend where
  | redis
  | lmdb
  deriving DecidableEq, Repr

namespace Backend

def name : Backend → Bytes
  | redis => bytes "redis"
  | lmdb => bytes "lmdb"

def vdb : Backend → VdbBackend
  | redis => redisVdb
  | lmdb => lmdbVdb

/-- LMDB refuses the keys that are too long for it. -/
def Takes : Backend → Bytes → Bytes → Prop
  | redis, _, _ => True
  | lmdb, rcpt, canon => validKey (lmdbVdbKey rcpt canon) = true

/-- The intervals for which a record stays; Redis drops it after 7 days. -/
def Keeps : Backend → ℤ → Prop
  | redis, u => 0 < u ∧ u ≤ expiry
  | lmdb, u => 0 < u ∧ u < 2 ^ 62

def Ok : Backend → (Bytes → ℤ) → Call → Prop
  | redis => Call.RedisOk
  | lmdb => Call.LmdbOk

/-- The store follows a table of times. -/
def Follows : Backend → (Bytes → ℤ) → ℤ → Store → Table → Prop
  | redis, interval, t, store, T => RedisTracks interval t store.redis T
  | lmdb, interval, t, store, T => LmdbTracks interval t store.lmdb T

variable {interval : Bytes → ℤ}

theorem simulates (b : Backend) : (backendMachine b.vdb interval).Simulates (tableMachine interval)
    Call.span (b.Ok interval) (b.Follows interval) := by
  cases b with
  | redis => exact redis_simulates
  | lmdb => exact lmdb_simulates

theorem follows_empty (b : Backend) (t : ℤ) : b.Follows interval t Store.empty Table.empty := by
  cases b with
  | redis => exact redisTracks_empty t
  | lmdb => exact lmdbTracks_empty t

theorem Follows.mono {b : Backend} {t t' : ℤ} {store : Store} {T : Table}
    (h : b.Follows interval t store T) (ht : t ≤ t') : b.Follows interval t' store T := by
  cases b with
  | redis => exact Tracks.mono h ht
  | lmdb => exact Tracks.mono h ht

theorem ok_of_keeps {b : Backend} {c : Call} (hnul : 0 ∉ c.rcpt)
    (hkeeps : b.Keeps (interval c.rcpt)) (htakes : b.Takes c.rcpt c.sender)
    (htime : InRange c.calls.time) (hcalls : NoStorageError c.calls) : b.Ok interval c := by
  cases b with
  | redis => exact ⟨hnul, ⟨hkeeps.1.le, hkeeps.2⟩, htime, hcalls⟩
  | lmdb => exact ⟨hnul, htakes, ⟨hkeeps.1.le, hkeeps.2⟩, htime, hcalls⟩

theorem handle_eq {b : Backend} {config : Config} {calls : InitCalls} {rcpt : Bytes} {vdbh : VDB}
    (h : b.vdb.init config calls rcpt = some vdbh) : vdbh = ⟨rcpt⟩ := by
  cases b with
  | redis =>
    simp only [vdb, redisVdb, redisVdbInit] at h
    repeat' split at h
    all_goals cases h
    rfl
  | lmdb =>
    simp only [vdb, lmdbVdb, lmdbVdbInit] at h
    repeat' split at h
    all_goals cases h
    rfl

end Backend

/-- The store follows a table in which `k` has an entry for `l` or later. -/
def Noted (b : Backend) (interval : Bytes → ℤ) (k : Key) (l t : ℤ) (store : Store) : Prop :=
  l ≤ t ∧ ∃ T, b.Follows interval t store T ∧ ∃ last, T k = some last ∧ l ≤ last

def Followed (b : Backend) (interval : Bytes → ℤ) (t : ℤ) (store : Store) : Prop :=
  ∃ T, b.Follows interval t store T

section

variable {b : Backend} {interval : Bytes → ℤ} {k : Key} {l t : ℤ} {store : Store} {c : Call}

theorem Noted.mono {t' : ℤ} (h : Noted b interval k l t store) (ht : t ≤ t') :
    Noted b interval k l t' store := by
  obtain ⟨hl, T, hT, hlast⟩ := h
  exact ⟨hl.trans ht, T, hT.mono ht, hlast⟩

theorem Followed.mono {t' : ℤ} (h : Followed b interval t store) (ht : t ≤ t') :
    Followed b interval t' store := by
  obtain ⟨T, hT⟩ := h
  exact ⟨T, hT.mono ht⟩

theorem Followed.step (h : Followed b interval t store) (hok : b.Ok interval c)
    (hfirst : t ≤ c.span.first) (hspan : c.span.first ≤ c.span.last) :
    Followed b interval c.span.last ((backendMachine b.vdb interval).step store c).1 := by
  obtain ⟨T, hT⟩ := h
  exact ⟨_, (b.simulates t store T c hT hok hfirst hspan).1⟩

/-- A storage call keeps the entry or puts a later one in its place. -/
theorem Noted.step (h : Noted b interval k l t store) (hok : b.Ok interval c)
    (hfirst : t ≤ c.span.first) (hspan : c.span.first ≤ c.span.last) :
    Noted b interval k l c.span.last ((backendMachine b.vdb interval).step store c).1 := by
  obtain ⟨hl, T, hT, last, hlast, hle⟩ := h
  refine ⟨by omega, _, (b.simulates t store T c hT hok hfirst hspan).1, ?_⟩
  cases hreq : c.request with
  | recent =>
    simp only [tableMachine, hreq]
    exact ⟨last, hlast, hle⟩
  | storeReply =>
    simp only [Call.span, hreq] at hfirst
    simp only [tableMachine, hreq]
    by_cases hk : k = c.key
    · subst hk
      exact ⟨c.calls.time, Function.update_self _ _ _, by omega⟩
    · exact ⟨last, (Function.update_of_ne hk _ _).trans hlast, hle⟩

/-- A query that does not find the entry comes an interval after it. -/
theorem Noted.query (h : Noted b interval k l t store) (hok : b.Ok interval c)
    (hfirst : t ≤ c.span.first) (hspan : c.span.first ≤ c.span.last) (hreq : c.request = .recent)
    (hkey : c.key = k)
    (hanswer : ((backendMachine b.vdb interval).step store c).2 ≠ some .recent) :
    l + interval c.rcpt ≤ c.calls.time := by
  obtain ⟨hl, T, hT, last, hlast, hle⟩ := h
  rw [(b.simulates t store T c hT hok hfirst hspan).2] at hanswer
  simp only [tableMachine, hreq, hkey, hlast, Option.any_some, decide_eq_true_eq] at hanswer
  by_contra hlt
  apply hanswer
  rw [if_pos (by omega)]

/-- What `store_reply` leaves. -/
theorem Followed.note (h : Followed b interval t store) (hok : b.Ok interval c)
    (hfirst : t ≤ c.span.first) (hspan : c.span.first ≤ c.span.last)
    (hreq : c.request = .storeReply) :
    Noted b interval c.key c.calls.time c.span.last
      ((backendMachine b.vdb interval).step store c).1 := by
  obtain ⟨T, hT⟩ := h
  have hstep := (b.simulates t store T c hT hok hfirst hspan).1
  simp only [Call.span, hreq] at hspan hstep ⊢
  refine ⟨hspan, _, hstep, c.calls.time, ?_, le_refl _⟩
  simp only [tableMachine, hreq, Function.update_self]

end

section

variable {L : Type}

/-- A run in which no storage call fails and the clock, which is also that of
the Redis server, does not go back. -/
structure RunValid (b : Backend) (interval : Bytes → ℤ) (args : Args) (world : World L) : Prop where
  query : world.recent.serverTime ≤ world.recent.time
  record : world.recent.time ≤ world.storeReply.time
  stored : world.storeReply.time ≤ world.storeReply.serverTime
  sent : world.storeReply.serverTime ≤ world.host.time
  queryRange : InRange world.recent.time
  recordRange : InRange world.storeReply.time
  recent : NoStorageError world.recent
  storeReply : NoStorageError world.storeReply
  uses : ∀ m sender canon, admitted args world = .ok (m, sender, canon) →
    m.vdb = b.vdb ∧ m.interval = interval m.rcpt ∧ b.Takes m.rcpt canon

variable {b : Backend} {interval : Bytes → ℤ} {args : Args} {world : World L} {m : Accepted L}
  {sender canon : Bytes}

def queryCall (world : World L) (rcpt canon : Bytes) : Call := ⟨.recent, rcpt, canon, world.recent⟩

def recordCall (world : World L) (rcpt canon : Bytes) : Call :=
  ⟨.storeReply, rcpt, canon, world.storeReply⟩

theorem accept_of_admitted (h : admitted args world = .ok (m, sender, canon)) :
    accept args world = .ok m := by
  unfold admitted at h
  obtain ⟨m', hm, h⟩ := bind_eq_ok.mp h
  obtain ⟨pair, -, h⟩ := bind_eq_ok.mp h
  cases h
  exact hm

section

variable (hv : RunValid b interval args world)

include hv

theorem RunValid.handle (h : admitted args world = .ok (m, sender, canon)) :
    0 ∉ m.rcpt ∧ m.vdbh = ⟨m.rcpt⟩ := by
  obtain ⟨hlookup, hinit⟩ := accept_eq_ok (accept_of_admitted h)
  obtain ⟨hvdb, -, -⟩ := hv.uses m sender canon h
  rw [Found.init, hvdb] at hinit
  exact ⟨nul_notMem_rcpt hlookup, Backend.handle_eq hinit⟩

theorem RunValid.query_eq (h : admitted args world = .ok (m, sender, canon)) (store : Store) :
    (backendMachine b.vdb interval).step store (queryCall world m.rcpt canon) =
      ((m.query world.recent store canon).2, some (m.query world.recent store canon).1) := by
  obtain ⟨hvdb, hinterval, -⟩ := hv.uses m sender canon h
  simp only [backendMachine, queryCall, Accepted.query, hvdb, hinterval, (hv.handle h).2]

theorem RunValid.record_eq (h : admitted args world = .ok (m, sender, canon)) (store : Store) :
    (backendMachine b.vdb interval).step store (recordCall world m.rcpt canon) =
      (m.record world.storeReply store canon, none) := by
  obtain ⟨hvdb, -, -⟩ := hv.uses m sender canon h
  simp only [backendMachine, recordCall, Accepted.record, hvdb, (hv.handle h).2]

variable (hkeeps : ∀ rcpt, b.Keeps (interval rcpt))

include hkeeps

theorem RunValid.query_ok (h : admitted args world = .ok (m, sender, canon)) :
    b.Ok interval (queryCall world m.rcpt canon) :=
  Backend.ok_of_keeps (hv.handle h).1 (hkeeps m.rcpt) (hv.uses m sender canon h).2.2 hv.queryRange
    hv.recent

theorem RunValid.record_ok (h : admitted args world = .ok (m, sender, canon)) :
    b.Ok interval (recordCall world m.rcpt canon) :=
  Backend.ok_of_keeps (hv.handle h).1 (hkeeps m.rcpt) (hv.uses m sender canon h).2.2 hv.recordRange
    hv.storeReply

variable {k : Key} {l t : ℤ} {store : Store}

/-- The query of a run keeps what is known of the store, and says how long ago
the entry was made when it does not find it. -/
theorem RunValid.noted_query (h : admitted args world = .ok (m, sender, canon))
    (ht : t ≤ world.recent.serverTime) (hn : Noted b interval k l t store) :
    Noted b interval k l world.recent.time (m.query world.recent store canon).2 ∧
      (tableKey m.rcpt canon = k → (m.query world.recent store canon).1 ≠ .recent →
        l + interval m.rcpt ≤ world.recent.time) := by
  have hstep := hn.step (hv.query_ok hkeeps h) ht hv.query
  have hquery := hn.query (hv.query_ok hkeeps h) ht hv.query rfl
  rw [hv.query_eq h] at hstep hquery
  exact ⟨hstep, fun hk hne => hquery hk fun e => hne (Option.some.inj e)⟩

theorem RunValid.followed_query (h : admitted args world = .ok (m, sender, canon))
    (ht : t ≤ world.recent.serverTime) (hf : Followed b interval t store) :
    Followed b interval world.recent.time (m.query world.recent store canon).2 := by
  have hstep := hf.step (hv.query_ok hkeeps h) ht hv.query
  rwa [hv.query_eq h] at hstep

theorem RunValid.noted_record (h : admitted args world = .ok (m, sender, canon))
    (ht : t ≤ world.storeReply.time) (hn : Noted b interval k l t store) :
    Noted b interval k l world.storeReply.serverTime (m.record world.storeReply store canon) := by
  have hstep := hn.step (hv.record_ok hkeeps h) ht hv.stored
  rwa [hv.record_eq h] at hstep

/-- The record of a run is an entry for its key. -/
theorem RunValid.note (h : admitted args world = .ok (m, sender, canon))
    (ht : t ≤ world.storeReply.time) (hf : Followed b interval t store) :
    Noted b interval (tableKey m.rcpt canon) world.storeReply.time world.storeReply.serverTime
      (m.record world.storeReply store canon) := by
  have hstep := hf.note (hv.record_ok hkeeps h) ht hv.stored rfl
  rwa [hv.record_eq h] at hstep

end

/-- Runs with such a configuration use the backend and the interval in it. -/
theorem uses_storeConfig {world : World Unit} {m : Accepted Unit} {u : ℤ}
    (hbuild : world.build = ⟨true, true, true⟩)
    (hconfig : world.config =
      ⟨some (storeConfig b.name u), fun _ => false, fun _ => none, fun _ file => file⟩)
    (h : admitted args world = .ok (m, sender, canon)) : m.vdb = b.vdb ∧ m.interval = u := by
  obtain ⟨hlookup, -⟩ := accept_eq_ok (accept_of_admitted h)
  obtain ⟨-, hread, ⟨provider, hprovider, hvdb⟩, provider', hprovider', hvlu⟩ :=
    lookup_eq_ok hlookup
  have hm : m.config = storeConfig b.name u := by
    unfold readVacationConfig at hread
    rw [hconfig] at hread
    cases hfile : args.parse.configFile with
    | none =>
      rw [hfile] at hread
      exact (Option.some.inj hread).symm
    | some file =>
      rw [hfile] at hread
      cases hread
  rw [hm] at hprovider hprovider'
  have hname : provider = b.name := (Option.some.inj hprovider).symm
  have hnull : provider' = bytes "null" := (Option.some.inj hprovider').symm
  rw [hname, hbuild] at hvdb
  rw [hnull, hbuild] at hvlu
  have hbackend : vdbBackend ⟨true, true, true⟩ b.name = some b.vdb := by
    cases b with
    | redis => rfl
    | lmdb => rfl
  have hlookupBackend : vluBackend ⟨true, true, true⟩ world.ldapVlu (bytes "null") = some nullVlu :=
    rfl
  refine ⟨(Option.some.inj (hbackend.symm.trans hvdb)).symm, ?_⟩
  have hvlu' : m.vlu = nullVlu := (Option.some.inj (hlookupBackend.symm.trans hvlu)).symm
  rw [Accepted.interval, hvlu', hm]
  rfl

theorem admitted_deliver {world : World L} {s r : Bytes}
    (h : admitted (deliver s r) world = .ok (m, sender, canon)) :
    m.rcpt = cstr r ∧ checkFrom (cstr s) = some canon := by
  obtain ⟨hlookup, -⟩ := accept_eq_ok (accept_of_admitted h)
  obtain ⟨⟨operand, hoperand, hrcpt⟩, -⟩ := lookup_eq_ok hlookup
  have hr : r = operand := Option.some.inj hoperand
  unfold admitted at h
  obtain ⟨m', -, h⟩ := bind_eq_ok.mp h
  obtain ⟨pair, hcheck, h⟩ := bind_eq_ok.mp h
  cases h
  have hsome : checkSender (some (cstr s)) = .ok (sender, canon) := hcheck
  rw [checkSender_some] at hsome
  refine ⟨by rw [hrcpt, hr], ?_⟩
  cases hfrom : checkFrom (cstr s) with
  | none =>
    rw [hfrom] at hsome
    cases hsome
  | some c =>
    rw [hfrom] at hsome
    cases hsome
    rfl

/-- A delivery to bob. -/
def toBob (b : Backend) (u : ℤ) (now : ℕ) : World Unit :=
  World.succeed (storeConfig b.name u) now (bytes "To: bob\n\n")

theorem takes_bob {b : Backend} {world : World Unit} {m : Accepted Unit} {sender canon : Bytes}
    (h : admitted (deliver (bytes "a@b") (bytes "bob")) world = .ok (m, sender, canon)) :
    b.Takes m.rcpt canon := by
  obtain ⟨hrcpt, hcanon⟩ := admitted_deliver h
  have hfrom : checkFrom (cstr (bytes "a@b")) = some (bytes "a@b") := by decide
  rw [hrcpt, Option.some.inj (hcanon.symm.trans hfrom)]
  cases b with
  | redis => trivial
  | lmdb =>
    have hkey : validKey (lmdbVdbKey (cstr (bytes "bob")) (bytes "a@b")) = true := by decide +kernel
    exact hkey

theorem runValid_toBob (b : Backend) (u : ℤ) {now : ℕ} (hnow : InRange now) :
    RunValid b (fun _ => u) (deliver (bytes "a@b") (bytes "bob")) (toBob b u now) where
  query := le_refl _
  record := le_refl _
  stored := le_refl _
  sent := le_refl _
  queryRange := hnow
  recordRange := hnow
  recent := noStorageError_succeed now
  storeReply := noStorageError_succeed now
  uses m sender canon h := by
    obtain ⟨hvdb, hinterval⟩ := uses_storeConfig rfl rfl h
    exact ⟨hvdb, hinterval, takes_bob h⟩

theorem Noted.followed (h : Noted b interval k l t store) : Followed b interval t store := by
  obtain ⟨-, T, hT, -⟩ := h
  exact ⟨T, hT⟩

end

end Simvacation.Spacing
