import Simvacation.Numerals
import Simvacation.Rabin
import Simvacation.SortedMap
import Simvacation.Vutil
import Mathlib.Data.List.Lex

/-!
The reply store (`vdb.c`, `vdb_redis.c`, `vdb_lmdb.c`). A backend is a table of
functions on the shared store. How the system and library calls of one function
come out is given by `Calls`: the clock readings, and whether each call
succeeds. Redis keeps a value with the time at which it expires; LMDB keeps
bytes under keys of 1 to 511 bytes in the order of `memcmp`.
-/

namespace Simvacation.Vdb

open CString Numerals Rabin Yasl Vutil

/-- Lists over it are in the order of `memcmp`, a shorter key before its continuations. -/
instance byteOrder : LinearOrder UInt8 where
  le_refl := UInt8.le_refl
  le_trans _ _ _ := UInt8.le_trans
  lt_iff_le_not_ge a b := by
    rw [UInt8.lt_iff_toNat_lt, UInt8.le_iff_toNat_le, UInt8.le_iff_toNat_le]
    omega
  le_antisymm _ _ := UInt8.le_antisymm
  le_total := UInt8.le_total
  toDecidableLE := inferInstance

inductive VdbStatus where
  | ok
  | recent
  deriving DecidableEq, Repr

/-- The calls of one vdb function. -/
structure Calls where
  /-- `time(NULL)`, negative when it fails -/
  time : ℤ
  /-- the clock of the Redis server -/
  serverTime : ℤ
  get : Bool
  set : Bool
  expire : Bool
  del : Bool
  txnBegin : Bool
  dbiOpen : Bool
  mdbGet : Bool
  mdbPut : Bool
  txnCommit : Bool
  cursorOpen : Bool
  cursorGet : ℕ → Bool
  mdbDel : ℕ → Bool
  /-- where the value of a key is mapped, as a signed number -/
  address : Bytes → ℤ

/-- All calls succeed, at one moment. -/
def Calls.succeed (now : ℤ) : Calls where
  time := now
  serverTime := now
  get := true
  set := true
  expire := true
  del := true
  txnBegin := true
  dbiOpen := true
  mdbGet := true
  mdbPut := true
  txnCommit := true
  cursorOpen := true
  cursorGet _ := true
  mdbDel _ := true
  address _ := 2 ^ 47

structure RedisEntry where
  value : Bytes
  expireAt : Option ℤ
  deriving DecidableEq, Repr

abbrev RedisDb := Bytes → Option RedisEntry

namespace RedisDb

/-- A key is gone from the time at which it expires. -/
def lookup (db : RedisDb) (now : ℤ) (key : Bytes) : Option RedisEntry :=
  (db key).filter fun e => e.expireAt.all (now < ·)

def get (db : RedisDb) (now : ℤ) (key : Bytes) : Option Bytes :=
  (lookup db now key).map RedisEntry.value

/-- SET takes the expiry of an old value away. -/
def set (db : RedisDb) (key value : Bytes) : RedisDb :=
  Function.update db key (some ⟨value, none⟩)

def expire (db : RedisDb) (now : ℤ) (key : Bytes) (seconds : ℤ) : RedisDb :=
  match lookup db now key with
  | some e => Function.update db key (some { e with expireAt := some (now + seconds) })
  | none => db

def del (db : RedisDb) (key : Bytes) : RedisDb := Function.update db key none

end RedisDb

abbrev LmdbDb := SortedMap Bytes Bytes

structure Store where
  redis : RedisDb
  lmdb : LmdbDb

def Store.empty : Store := ⟨fun _ => none, SortedMap.empty⟩

/-- A handle; the connection or environment in it is the shared store. -/
structure VDB where
  rcpt : Bytes
  deriving DecidableEq, Repr

/-- Addition of `time_t`, 64 bits wide. -/
def addTime (t u : ℤ) : ℤ := Int.bmod (t + u) (2 ^ 64)

/-- The text of `%s:%lx`. -/
def userKey (rcpt sender : Bytes) : Bytes :=
  cstr rcpt ++ bytes ":" ++ printHex (rabinFingerprint true sender).toNat

def redisVdbKey (rcpt sender : Bytes) : Bytes := bytes "simvacation:user:" ++ userKey rcpt sender

def lmdbVdbKey (rcpt sender : Bytes) : Bytes :=
  yaslrange (bytes "user:" ++ userKey rcpt sender) 0 511

/-- The reply store keeps records for 7 days. -/
def expiry : ℤ := 604800

def redisVdbRecent (calls : Calls) (db : RedisDb) (vdb : VDB) (sender : Bytes) (interval : ℤ) :
    VdbStatus × RedisDb :=
  let key := redisVdbKey vdb.rcpt sender
  match if calls.get then db.get calls.serverTime key else none with
  | none => (.ok, db)
  | some str =>
    let last := strtoll str
    if calls.time < 0 then (.ok, db)
    else if calls.time < addTime last interval then (.recent, db)
    else (.ok, if calls.del then db.del key else db)

def redisVdbStoreReply (calls : Calls) (db : RedisDb) (vdb : VDB) (sender : Bytes) :
    VacResult × RedisDb :=
  if calls.time < 0 then (.tempfail, db)
  else
    let key := redisVdbKey vdb.rcpt sender
    -- `snprintf` with room for 16 bytes
    let value := (printInt calls.time).take 15
    let db := if calls.set then db.set key value else db
    let db := if calls.expire then db.expire calls.serverTime key expiry else db
    (.ok, db)

/-- LMDB refuses empty keys and keys longer than 511 bytes. -/
def validKey (key : Bytes) : Bool := 0 < key.length && key.length ≤ 511

def lmdbVdbRecent (calls : Calls) (db : LmdbDb) (vdb : VDB) (sender : Bytes) (interval : ℤ) :
    VdbStatus :=
  let key := lmdbVdbKey vdb.rcpt sender
  if !calls.txnBegin then .ok
  else if !calls.dbiOpen then .ok
  else
    match if calls.mdbGet && validKey key then db.get key else none with
    | none => .ok
    | some data =>
      if data.length ≠ 8 then .ok
      else
        let last := ofBytes64 data
        if calls.time < 0 then .ok
        else if calls.time < addTime last interval then .recent
        else .ok

def lmdbVdbStoreReply (calls : Calls) (db : LmdbDb) (vdb : VDB) (sender : Bytes) :
    VacResult × LmdbDb :=
  if calls.time < 0 then (.tempfail, db)
  else if !calls.txnBegin then (.tempfail, db)
  else if !calls.dbiOpen then (.tempfail, db)
  else
    let key := lmdbVdbKey vdb.rcpt sender
    if !(calls.mdbPut && validKey key) then (.tempfail, db)
    else if !calls.txnCommit then (.tempfail, db)
    else (.ok, db.insert key (toBytes64 calls.time))

/-- The test for an expired record. The value stands behind its key in memory,
and it is the address of the value that is compared. -/
def gcExpired (calls : Calls) (expire : ℤ) (key data : Bytes) : Bool :=
  (key ++ data).take 5 = bytes "user:" && data.length = 8 && calls.address key < expire

/-- The cursor loop; `n` counts its iterations. -/
def gcLoop (calls : Calls) (expire : ℤ) : ℕ → ℕ → Option Bytes → LmdbDb → LmdbDb
  | 0, _, _, db => db
  | fuel + 1, n, pos, db =>
    if !calls.cursorGet n then db
    else
      match db.next pos with
      | none => db
      | some (key, data) =>
        let db := if gcExpired calls expire key data && calls.mdbDel n then db.erase key else db
        gcLoop calls expire fuel (n + 1) (some key) db

/-- Every iteration moves the cursor to a greater key, so the entries bound their number. -/
def lmdbVdbGc (calls : Calls) (db : LmdbDb) : LmdbDb :=
  if calls.time < 0 then db
  else
    let expire := calls.time - expiry
    if !calls.txnBegin then db
    else if !calls.dbiOpen then db
    else if !calls.cursorOpen then db
    else
      let db' := gcLoop calls expire (db.entries.length + 1) 0 none db
      if calls.txnCommit then db' else db

/-- The calls of an `init` function. -/
structure InitCalls where
  calloc : Bool
  redisPort : Bool
  urclConnect : Bool
  mdbEnvCreate : Bool
  mdbEnvSetAssert : Bool
  mdbEnvSetMapsize : Bool
  mdbEnvOpen : Bool
  deriving DecidableEq, Repr

def redisVdbInit (config : Config) (calls : InitCalls) (rcpt : Bytes) : Option VDB :=
  if (config (bytes "redis.host")).isNone then none
  else if !calls.redisPort then none
  else if !calls.calloc then none
  else if !calls.urclConnect then none
  else some ⟨rcpt⟩

def lmdbVdbInit (config : Config) (calls : InitCalls) (rcpt : Bytes) : Option VDB :=
  if (config (bytes "lmdb.path")).isNone then none
  else if !calls.calloc then none
  else if !calls.mdbEnvCreate then none
  else if !calls.mdbEnvSetAssert then none
  else if !calls.mdbEnvSetMapsize then none
  else if !calls.mdbEnvOpen then none
  else some ⟨rcpt⟩

structure VdbBackend where
  init : Config → InitCalls → Bytes → Option VDB
  recent : Calls → Store → VDB → Bytes → ℤ → VdbStatus × Store
  storeReply : Calls → Store → VDB → Bytes → VacResult × Store
  getNames : Store → VDB → List Bytes
  clean : Store → VDB → Bytes → Store
  gc : Calls → Store → VDB → Store

/-- The default functions. The null handle carries no recipient. -/
def nullVdb : VdbBackend where
  init _ calls _ := if calls.calloc then some ⟨[]⟩ else none
  recent _ store _ _ _ := (.ok, store)
  storeReply _ store _ _ := (.ok, store)
  getNames _ _ := []
  clean store _ _ := store
  gc _ store _ := store

def redisVdb : VdbBackend :=
  { nullVdb with
    init := redisVdbInit
    recent := fun calls store vdb sender interval =>
      let (status, db) := redisVdbRecent calls store.redis vdb sender interval
      (status, { store with redis := db })
    storeReply := fun calls store vdb sender =>
      let (result, db) := redisVdbStoreReply calls store.redis vdb sender
      (result, { store with redis := db }) }

def lmdbVdb : VdbBackend :=
  { nullVdb with
    init := lmdbVdbInit
    recent := fun calls store vdb sender interval =>
      (lmdbVdbRecent calls store.lmdb vdb sender interval, store)
    storeReply := fun calls store vdb sender =>
      let (result, db) := lmdbVdbStoreReply calls store.lmdb vdb sender
      (result, { store with lmdb := db })
    gc := fun calls store _ => { store with lmdb := lmdbVdbGc calls store.lmdb } }

/-- What the program was compiled with. -/
structure Build where
  haveUrcl : Bool
  haveLmdb : Bool
  haveLdap : Bool
  deriving DecidableEq, Repr

def vdbBackend (build : Build) (provider : Bytes) : Option VdbBackend :=
  if strcasecmp (cstr provider) (bytes "redis") = 0 then
    if build.haveUrcl then some redisVdb else none
  else if strcasecmp (cstr provider) (bytes "lmdb") = 0 then
    if build.haveLmdb then some lmdbVdb else none
  else if strcasecmp (cstr provider) (bytes "null") = 0 then some nullVdb
  else none

theorem vdbBackend_cases {build : Build} {provider : Bytes} {vdb : VdbBackend}
    (h : vdbBackend build provider = some vdb) :
    vdb = redisVdb ∨ vdb = lmdbVdb ∨ vdb = nullVdb := by
  unfold vdbBackend at h
  repeat' split at h
  all_goals cases h
  · exact Or.inl rfl
  · exact Or.inr (Or.inl rfl)
  · exact Or.inr (Or.inr rfl)

end Simvacation.Vdb
