import Simvacation.CleanUp
import Simvacation.Collection
import Simvacation.Records

/-!
What a run of `simunvacation` leaves in the reply store. No backend tells it
whom it has records of, so it cleans up nobody; only the LMDB store is swept,
and there the addresses of the values decide.
-/

namespace Simvacation.Forgetting

open CString Numerals Yasl Vutil Vdb Vlu Ldap Main Spacing Records Collection CleanUp

/-- A call of `store_reply`. -/
structure Reply where
  calls : Calls
  rcpt : Bytes
  sender : Bytes

/-- The store after a sequence of calls, however they come out. -/
def stored (b : Backend) (replies : List Reply) : Store :=
  replies.foldl (fun store r => (b.vdb.storeReply r.calls store ⟨r.rcpt⟩ r.sender).2) Store.empty

/-- The moment of a run, by the clock that its backend goes by. -/
def moment (calls : Calls) : Backend → ℤ
  | .redis => calls.serverTime
  | .lmdb => calls.time

/-- The record of a pair. -/
def held (store : Store) (now : ℤ) (rcpt sender : Bytes) : Backend → Option RedisEntry
  | .redis => store.redis.lookup now (redisVdbKey rcpt sender)
  | .lmdb => (store.lmdb.get (lmdbVdbKey rcpt sender)).map fun data => ⟨data, none⟩

def stamp (e : RedisEntry) : Backend → ℤ
  | .redis => strtoll e.value
  | .lmdb => ofBytes64 e.value

variable {L : Type}

/-- Neither a user nor a group who is away, as the responder sees it. -/
def Gone (cleaner : Cleaner L) (rcpt : Bytes) : Prop :=
  (lookupRcpt cleaner.vlu cleaner.config cleaner.vluh rcpt).map Prod.fst = some .permfail

/-- Nothing is left of the recipients who are back, and the young records of all others stay. -/
structure Forgets (b : Backend) (cleaner : Cleaner L) (now : ℤ) (before after : Store) : Prop where
  gone : ∀ rcpt, 0 ∉ rcpt → Gone cleaner rcpt → ∀ sender, held after now rcpt sender b = none
  kept : ∀ rcpt, 0 ∉ rcpt → ¬ Gone cleaner rcpt → ∀ sender e,
    held before now rcpt sender b = some e → now - stamp e b < 604800 →
      held after now rcpt sender b = some e

/-- What the sweep of the store has to find. Redis is not swept at all. -/
def LeftToSweep (cleaner : Cleaner L) (calls : Calls) (before : Store) : Backend → Prop
  | .redis => ∀ rcpt, 0 ∉ rcpt → Gone cleaner rcpt → ∀ sender,
      before.redis.lookup calls.serverTime (redisVdbKey rcpt sender) = none
  | .lmdb => ∀ rcpt, 0 ∉ rcpt → ∀ sender data,
      before.lmdb.get (lmdbVdbKey rcpt sender) = some data →
        (Gone cleaner rcpt →
          0 ≤ calls.time ∧ calls.address (lmdbVdbKey rcpt sender) < calls.time - 604800) ∧
        (¬ Gone cleaner rcpt → calls.time - ofBytes64 data < 604800 → 0 ≤ calls.time →
          calls.time - 604800 ≤ calls.address (lmdbVdbKey rcpt sender))

theorem unMain_eq_gc {options : List Opt} {world : UnWorld L} {cleaner : Cleaner L}
    (h : unInit options world = .ok cleaner) (store : Store) :
    (unMain options world store).2 = cleaner.vdb.gc world.gc store cleaner.vdbh := by
  obtain ⟨provider, hvdb⟩ := unInit_eq_ok h
  simp only [unMain, h, getNames_eq_nil hvdb, Cleaner.clean]

/-- Every value in the store is a timestamp. -/
def Timestamps (db : LmdbDb) : Prop := ∀ key data, db.get key = some data → data.length = 8

theorem timestamps_storeReply {calls : Calls} {db : LmdbDb} (h : Timestamps db)
    (rcpt sender : Bytes) : Timestamps (lmdbVdbStoreReply calls db ⟨rcpt⟩ sender).2 := by
  by_cases hwrites : LmdbWrites calls (lmdbVdbKey rcpt sender)
  · rw [lmdbVdbStoreReply_of_writes hwrites]
    intro key data hget
    rw [SortedMap.get_insert] at hget
    split at hget
    · cases hget
      exact toBytes64_length _
    · exact h key data hget
  · rw [lmdbVdbStoreReply_of_not_writes hwrites]
    exact h

theorem timestamps_stored (replies : List Reply) : Timestamps (stored .lmdb replies).lmdb := by
  induction replies using List.reverseRecOn with
  | nil =>
    intro key data hget
    cases hget
  | append_singleton replies r ih =>
    rw [stored, List.foldl_append]
    exact timestamps_storeReply ih r.rcpt r.sender

theorem user_isPrefix_lmdbVdbKey (rcpt sender : Bytes) :
    bytes "user:" <+: lmdbVdbKey rcpt sender := by
  have hcut := yaslrange_take (bytes "user:" ++ userKey rcpt sender) 511
  rw [Nat.cast_ofNat] at hcut
  rw [lmdbVdbKey, hcut]
  exact List.prefix_take_iff.mpr ⟨List.prefix_append _ _, by decide⟩

/-- The sweep goes by the addresses. -/
theorem get_swept {calls : Calls} (hgc : NoLmdbError calls) {db : LmdbDb} (hdb : Timestamps db)
    (rcpt sender data : Bytes) :
    (lmdbVdbGc calls db).get (lmdbVdbKey rcpt sender) = some data ↔
      db.get (lmdbVdbKey rcpt sender) = some data ∧
        (0 ≤ calls.time → calls.time - 604800 ≤ calls.address (lmdbVdbKey rcpt sender)) := by
  rw [get_lmdbVdbGc hgc]
  apply and_congr_right
  intro hget
  apply imp_congr_right
  intro _
  have huser : bytes "user:" <+: lmdbVdbKey rcpt sender ++ data :=
    (user_isPrefix_lmdbVdbKey rcpt sender).trans (List.prefix_append _ _)
  rw [← Bool.not_eq_true, gcExpired_eq_true_iff]
  simp only [huser, hdb _ _ hget, true_and, not_lt, expiry]

/-- A run forgets the recipients who are back if and only if there is nothing of them in Redis,
or every value of theirs in LMDB, and no young one of others, is mapped below the cutoff. -/
theorem forgets_iff {b : Backend} {options : List Opt} {world : UnWorld L} {cleaner : Cleaner L}
    (hinit : unInit options world = .ok cleaner) (hvdb : cleaner.vdb = b.vdb)
    (hgc : NoLmdbError world.gc) (replies : List Reply) :
    Forgets b cleaner (moment world.gc b) (stored b replies)
        (unMain options world (stored b replies)).2 ↔
      LeftToSweep cleaner world.gc (stored b replies) b := by
  rw [unMain_eq_gc hinit, hvdb]
  cases b with
  | redis =>
    constructor
    · intro h
      exact h.gone
    · intro h
      exact ⟨h, fun _ _ _ _ _ he _ => he⟩
  | lmdb =>
    have hswept := get_swept hgc (timestamps_stored replies)
    constructor
    · intro h rcpt hrcpt sender data hget
      refine ⟨fun hgone => ?_, fun haway hyoung htime => ?_⟩
      · have hnone := Option.map_eq_none_iff.mp (h.gone rcpt hrcpt hgone sender)
        by_contra hkept
        have hstays : 0 ≤ world.gc.time →
            world.gc.time - 604800 ≤ world.gc.address (lmdbVdbKey rcpt sender) :=
          fun htime => not_lt.mp fun hlow => hkept ⟨htime, hlow⟩
        have hsome := (hswept rcpt sender data).mpr ⟨hget, hstays⟩
        exact Option.some_ne_none data (hsome.symm.trans hnone)
      · have hheld : held (stored .lmdb replies) (moment world.gc .lmdb) rcpt sender .lmdb =
            some ⟨data, none⟩ := congrArg (Option.map fun data => RedisEntry.mk data none) hget
        obtain ⟨data', hget', heq⟩ :=
          Option.map_eq_some_iff.mp (h.kept rcpt hrcpt haway sender _ hheld hyoung)
        exact ((hswept rcpt sender data').mp hget').2 htime
    · intro h
      refine ⟨fun rcpt hrcpt hgone sender => ?_, fun rcpt hrcpt haway sender e he hyoung => ?_⟩
      · apply Option.map_eq_none_iff.mpr
        by_contra hsome
        obtain ⟨data, hget⟩ := Option.ne_none_iff_exists'.mp hsome
        obtain ⟨hbefore, hhigh⟩ := (hswept rcpt sender data).mp hget
        obtain ⟨htime, hlow⟩ := (h rcpt hrcpt sender data hbefore).1 hgone
        exact absurd (hhigh htime) (not_le.mpr hlow)
      · obtain ⟨data, hget, rfl⟩ := Option.map_eq_some_iff.mp he
        have hhigh := (h rcpt hrcpt sender data hget).2 haway hyoung
        exact Option.map_eq_some_iff.mpr
          ⟨data, (hswept rcpt sender data).mpr ⟨hget, hhigh⟩, rfl⟩

/-- A directory without entries. -/
def nobody : LdapCalls := ⟨true, true, true, true, fun _ _ _ => .success [], some 1700000100⟩

def storeAndDirectory (b : Backend) : VacConfig where
  strings path :=
    if path = bytes "core.vdb" then some b.name
    else if path = bytes "core.vlu" then some (bytes "ldap")
    else some (bytes "option")
  seconds _ := 604800

/-- Every call of the run succeeds, and nobody is found. -/
def nobodyFound (b : Backend) : UnWorld VluLdap where
  build := ⟨true, true, true⟩
  config := ⟨some (storeAndDirectory b), fun _ => false, fun _ => none, fun _ file => file⟩
  ldapVlu := ldapVlu nobody
  calloc := true
  init := ⟨true, true, true, true, true, true, true⟩
  gc := Calls.succeed 1700000100

def nobodyCleaner (b : Backend) : Cleaner VluLdap where
  config := storeAndDirectory b
  vdb := b.vdb
  vdbh := ⟨bytes "simunvacation"⟩
  vlu := ldapVlu nobody
  vluh := .ldap ⟨⟨bytes "option", bytes "option", bytes "option", bytes "option", bytes "option",
    bytes "option", bytes "option", bytes "option"⟩, none, bytes "option", none, 0, none⟩

theorem unInit_nobodyFound (b : Backend) : unInit [] (nobodyFound b) = .ok (nobodyCleaner b) := by
  cases b <;> rfl

def bobReply : Reply := ⟨Calls.succeed 1700000000, bytes "bob", bytes "alice@example.com"⟩

theorem forgets_iff_bob :
    Forgets .lmdb (nobodyCleaner .lmdb) 1700000100 (stored .lmdb [bobReply])
        (unMain [] (nobodyFound .lmdb) (stored .lmdb [bobReply])).2 ↔
      LeftToSweep (nobodyCleaner .lmdb) (Calls.succeed 1700000100) (stored .lmdb [bobReply])
        .lmdb :=
  forgets_iff (unInit_nobodyFound .lmdb) rfl (noLmdbError_succeed 1700000100) [bobReply]

theorem bob_gone (b : Backend) : Gone (nobodyCleaner b) (bytes "bob") := by
  cases b <;> rfl

/-- Bob is back, and his record stays. -/
theorem record_of_bob_stays :
    (¬ Forgets .redis (nobodyCleaner .redis) 1700000100 (stored .redis [bobReply])
        (unMain [] (nobodyFound .redis) (stored .redis [bobReply])).2) ∧
      ¬ Forgets .lmdb (nobodyCleaner .lmdb) 1700000100 (stored .lmdb [bobReply])
        (unMain [] (nobodyFound .lmdb) (stored .lmdb [bobReply])).2 := by
  refine ⟨fun h => ?_, fun h => ?_⟩
  · have hnone := h.gone (bytes "bob") (by decide) (bob_gone .redis) (bytes "alice@example.com")
    revert hnone
    decide +kernel
  · have hnone := h.gone (bytes "bob") (by decide) (bob_gone .lmdb) (bytes "alice@example.com")
    revert hnone
    decide +kernel

end Simvacation.Forgetting
