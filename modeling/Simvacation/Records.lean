import Simvacation.Spacing

/-!
Whether a reply is on record when it is sent. `main` does not look at what
`store_reply` returns, and the redis backend reports success whatever the server
answers. So a reply is on record exactly when it was written and still counts, or
when nothing was written and an older record does.
-/

namespace Simvacation.Records

open CString Numerals Yasl Vutil SendMessage Vdb Vlu ReplyTable Main Spacing

/-- An entry that has not expired. -/
def Live (e : RedisEntry) (now : ℤ) : Prop := ∀ x ∈ e.expireAt, now < x

instance (e : RedisEntry) (now : ℤ) : Decidable (Live e now) :=
  inferInstanceAs (Decidable (∀ x ∈ e.expireAt, now < x))

/-- SET wrote the time, which has neither expired nor run out at `now`. -/
structure RedisWritten (reply : Calls) (now interval : ℤ) : Prop where
  time : 0 ≤ reply.time
  set : reply.set = true
  live : reply.expire = true → now < reply.serverTime + expiry
  recent : now < addTime (strtoll ((printInt reply.time).take 15)) interval

/-- An EXPIRE without a SET before it. -/
def renewed (reply : Calls) (e : RedisEntry) : RedisEntry :=
  if 0 ≤ reply.time ∧ reply.expire = true ∧ Live e reply.serverTime then
    { e with expireAt := some (reply.serverTime + expiry) }
  else e

/-- Nothing was written, and the record `e` from before was neither found by the
query and deleted, nor has it expired or run out. -/
structure RedisOlder (query reply : Calls) (e : RedisEntry) (now interval : ℤ) : Prop where
  unset : ¬ (0 ≤ reply.time ∧ reply.set = true)
  kept : ¬ (query.get = true ∧ Live e query.serverTime ∧ 0 ≤ query.time ∧ query.del = true)
  live : Live (renewed reply e) now
  recent : now < addTime (strtoll e.value) interval

structure LmdbWrites (reply : Calls) (key : Bytes) : Prop where
  time : 0 ≤ reply.time
  txnBegin : reply.txnBegin = true
  dbiOpen : reply.dbiOpen = true
  mdbPut : reply.mdbPut = true
  key : validKey key = true
  txnCommit : reply.txnCommit = true

section Redis

variable {db : RedisDb} {key : Bytes} {e : RedisEntry} {now : ℤ}

theorem lookup_eq_some_iff : db.lookup now key = some e ↔ db key = some e ∧ Live e now := by
  unfold RedisDb.lookup Live
  rw [Option.filter_eq_some_iff]
  simp [Option.all_eq_true]

theorem not_live_of_lookup (h : db.lookup now key = none) (he : db key = some e) :
    ¬ Live e now := by
  intro hlive
  rw [lookup_eq_some_iff.mpr ⟨he, hlive⟩] at h
  cases h

variable {query reply : Calls} {rcpt sender : Bytes} {interval : ℤ}

/-- A working query finds a record that has neither expired nor run out. -/
theorem redisVdbRecent_succeed (hnow : 0 ≤ now) :
    (redisVdbRecent (Calls.succeed now) db ⟨rcpt⟩ sender interval).1 = .recent ↔
      ∃ e, db (redisVdbKey rcpt sender) = some e ∧ Live e now ∧
        now < addTime (strtoll e.value) interval := by
  rw [redisVdbRecent_eq interval rfl hnow, ← redisVdbKey_eq]
  simp only [Calls.succeed]
  cases hfound : db.lookup now (redisVdbKey rcpt sender) with
  | none =>
    refine iff_of_false (by simp) ?_
    intro hparts
    obtain ⟨e, he, hlive, -⟩ := hparts
    exact not_live_of_lookup hfound he hlive
  | some e =>
    obtain ⟨he, hlive⟩ := lookup_eq_some_iff.mp hfound
    simp only
    constructor
    · intro hrecent
      refine ⟨e, he, hlive, ?_⟩
      by_contra hold
      rw [if_neg hold] at hrecent
      cases hrecent
    · intro hparts
      obtain ⟨e', he', -, hrecent⟩ := hparts
      rw [he] at he'
      cases he'
      rw [if_pos hrecent]

/-- A query that does not say `recent` leaves the record, unless it finds and deletes it. -/
theorem entry_after_query (h : (redisVdbRecent query db ⟨rcpt⟩ sender interval).1 ≠ .recent) :
    (redisVdbRecent query db ⟨rcpt⟩ sender interval).2 (redisVdbKey rcpt sender) = some e ↔
      db (redisVdbKey rcpt sender) = some e ∧
        ¬ (query.get = true ∧ Live e query.serverTime ∧ 0 ≤ query.time ∧ query.del = true) := by
  unfold redisVdbRecent at h ⊢
  by_cases hget : query.get = true
  · simp only [hget, ite_true, RedisDb.get] at h ⊢
    cases hfound : db.lookup query.serverTime (redisVdbKey rcpt sender) with
    | none =>
      simp only [Option.map_none]
      constructor
      · exact fun he => ⟨he, fun hkept => not_live_of_lookup hfound he hkept.2.1⟩
      · exact fun hparts => hparts.1
    | some e' =>
      obtain ⟨he', hlive⟩ := lookup_eq_some_iff.mp hfound
      rw [hfound] at h
      simp only [Option.map_some] at h ⊢
      by_cases htime : query.time < 0
      · rw [if_pos htime]
        exact (and_iff_left fun hkept => Int.not_le.mpr htime hkept.2.2.1).symm
      · rw [if_neg htime] at h ⊢
        by_cases hrecent : query.time < addTime (strtoll e'.value) interval
        · rw [if_pos hrecent] at h
          exact absurd rfl h
        · rw [if_neg hrecent]
          by_cases hdel : query.del = true
          · rw [if_pos hdel]
            refine iff_of_false (by simp [RedisDb.del]) ?_
            intro hparts
            obtain ⟨he, hkept⟩ := hparts
            rw [he'] at he
            cases he
            exact hkept ⟨trivial, hlive, Int.not_lt.mp htime, hdel⟩
          · rw [if_neg hdel]
            exact (and_iff_left fun hkept => hdel hkept.2.2.2).symm
  · simp [hget]

/-- SET leaves the new value, with the expiry of the EXPIRE behind it if that succeeds. -/
theorem entry_after_set (htime : 0 ≤ reply.time) (hset : reply.set = true) :
    (redisVdbStoreReply reply db ⟨rcpt⟩ sender).2 (redisVdbKey rcpt sender) =
      some ⟨(printInt reply.time).take 15,
        if reply.expire then some (reply.serverTime + expiry) else none⟩ := by
  have hself : ∀ value, db.set (redisVdbKey rcpt sender) value (redisVdbKey rcpt sender) =
      some ⟨value, none⟩ := fun value => Function.update_self _ _ _
  have hlookup : ∀ value, (db.set (redisVdbKey rcpt sender) value).lookup reply.serverTime
      (redisVdbKey rcpt sender) = some ⟨value, none⟩ :=
    fun value => lookup_eq_some_iff.mpr ⟨hself value, by simp [Live]⟩
  unfold redisVdbStoreReply
  simp only [if_neg (Int.not_lt.mpr htime), hset, ite_true]
  by_cases hexpire : reply.expire = true
  · simp only [hexpire, ite_true, RedisDb.expire, hlookup, Function.update_self]
  · simp [hexpire, hself]

/-- Without a SET the old value stays, and at most its expiry is set anew. -/
theorem entry_without_set (hunset : ¬ (0 ≤ reply.time ∧ reply.set = true)) :
    (redisVdbStoreReply reply db ⟨rcpt⟩ sender).2 (redisVdbKey rcpt sender) =
      (db (redisVdbKey rcpt sender)).map (renewed reply) := by
  unfold redisVdbStoreReply
  by_cases htime : reply.time < 0
  · have hsame : renewed reply = id := by
      funext e
      exact if_neg fun h => Int.not_le.mpr htime h.1
    simp [htime, hsame]
  · have hset : reply.set ≠ true := fun h => hunset ⟨Int.not_lt.mp htime, h⟩
    simp only [if_neg htime, if_neg hset]
    by_cases hexpire : reply.expire = true
    · simp only [hexpire, ite_true, RedisDb.expire]
      cases hfound : db.lookup reply.serverTime (redisVdbKey rcpt sender) with
      | some e =>
        obtain ⟨he, hlive⟩ := lookup_eq_some_iff.mp hfound
        simp only [Function.update_self, he, Option.map_some]
        rw [renewed, if_pos ⟨Int.not_lt.mp htime, hexpire, hlive⟩]
      | none =>
        cases he : db (redisVdbKey rcpt sender) with
        | none => simp [he]
        | some e =>
          have hold := not_live_of_lookup hfound he
          rw [Option.map_some, renewed, if_neg fun h => hold h.2.2]
          exact he
    · have hsame : renewed reply = id := by
        funext e
        exact if_neg fun h => hexpire h.2.1
      simp [hexpire, hsame]

/-- On record at `now`, after a query that let the reply pass. -/
theorem redis_on_record_iff (hnow : 0 ≤ now)
    (h : (redisVdbRecent query db ⟨rcpt⟩ sender interval).1 ≠ .recent) :
    (redisVdbRecent (Calls.succeed now) (redisVdbStoreReply reply
        (redisVdbRecent query db ⟨rcpt⟩ sender interval).2 ⟨rcpt⟩ sender).2
        ⟨rcpt⟩ sender interval).1 = .recent ↔
      RedisWritten reply now interval ∨
        ∃ e, db (redisVdbKey rcpt sender) = some e ∧ RedisOlder query reply e now interval := by
  rw [redisVdbRecent_succeed hnow]
  by_cases hset : 0 ≤ reply.time ∧ reply.set = true
  · rw [or_iff_left fun hparts => hparts.elim fun e he => he.2.unset hset]
    simp only [entry_after_set hset.1 hset.2]
    constructor
    · intro hparts
      obtain ⟨e, he, hlive, hrecent⟩ := hparts
      cases he
      refine ⟨hset.1, hset.2, fun hexpire => ?_, hrecent⟩
      rw [hexpire] at hlive
      exact hlive _ rfl
    · intro hwritten
      refine ⟨_, rfl, ?_, hwritten.recent⟩
      intro x hx
      by_cases hexpire : reply.expire = true
      · rw [if_pos hexpire] at hx
        cases hx
        exact hwritten.live hexpire
      · rw [if_neg hexpire] at hx
        cases hx
  · rw [or_iff_right fun hwritten => hset ⟨hwritten.time, hwritten.set⟩]
    simp only [entry_without_set hset, Option.map_eq_some_iff, entry_after_query h]
    have hvalue : ∀ e, (renewed reply e).value = e.value := by
      intro e
      unfold renewed
      split <;> rfl
    constructor
    · intro hparts
      obtain ⟨e', ⟨e, ⟨he, hkept⟩, rfl⟩, hlive, hrecent⟩ := hparts
      rw [hvalue] at hrecent
      exact ⟨e, he, hset, hkept, hlive, hrecent⟩
    · intro hparts
      obtain ⟨e, he, holder⟩ := hparts
      refine ⟨_, ⟨e, ⟨he, holder.kept⟩, rfl⟩, holder.live, ?_⟩
      rw [hvalue]
      exact holder.recent

end Redis

section Lmdb

variable {db : LmdbDb} {now : ℤ} {reply : Calls} {rcpt sender : Bytes} {interval : ℤ}

theorem addTime_bmod (t u : ℤ) : addTime (Int.bmod t (2 ^ 64)) u = addTime t u :=
  Int.bmod_add_bmod

theorem lmdbVdbStoreReply_of_writes (h : LmdbWrites reply (lmdbVdbKey rcpt sender)) :
    (lmdbVdbStoreReply reply db ⟨rcpt⟩ sender).2 =
      db.insert (lmdbVdbKey rcpt sender) (toBytes64 reply.time) := by
  simp [lmdbVdbStoreReply, Int.not_lt.mpr h.time, h.txnBegin, h.dbiOpen, h.mdbPut, h.key,
    h.txnCommit]

/-- A transaction that fails leaves the database as it was. -/
theorem lmdbVdbStoreReply_of_not_writes (h : ¬ LmdbWrites reply (lmdbVdbKey rcpt sender)) :
    (lmdbVdbStoreReply reply db ⟨rcpt⟩ sender).2 = db := by
  by_cases htime : reply.time < 0
  · simp [lmdbVdbStoreReply, htime]
  by_cases htxn : reply.txnBegin = true
  case neg => simp [lmdbVdbStoreReply, htime, htxn]
  by_cases hdbi : reply.dbiOpen = true
  case neg => simp [lmdbVdbStoreReply, htime, htxn, hdbi]
  by_cases hput : reply.mdbPut = true
  case neg => simp [lmdbVdbStoreReply, htime, htxn, hdbi, hput]
  by_cases hkey : validKey (lmdbVdbKey rcpt sender) = true
  case neg => simp [lmdbVdbStoreReply, htime, htxn, hdbi, hput, hkey]
  by_cases hcommit : reply.txnCommit = true
  case neg => simp [lmdbVdbStoreReply, htime, htxn, hdbi, hput, hkey, hcommit]
  exact absurd ⟨Int.not_lt.mp htime, htxn, hdbi, hput, hkey, hcommit⟩ h

theorem lmdb_on_record_iff (hnow : 0 ≤ now) :
    lmdbVdbRecent (Calls.succeed now) (lmdbVdbStoreReply reply db ⟨rcpt⟩ sender).2 ⟨rcpt⟩ sender
        interval = .recent ↔
      (LmdbWrites reply (lmdbVdbKey rcpt sender) ∧ now < addTime reply.time interval) ∨
        (¬ LmdbWrites reply (lmdbVdbKey rcpt sender) ∧
          lmdbVdbRecent (Calls.succeed now) db ⟨rcpt⟩ sender interval = .recent) := by
  by_cases hwrites : LmdbWrites reply (lmdbVdbKey rcpt sender)
  · rw [lmdbVdbStoreReply_of_writes hwrites, or_iff_left fun h => h.1 hwrites,
      and_iff_right hwrites]
    have hread : addTime (ofBytes64 (toBytes64 reply.time)) interval =
        addTime reply.time interval := by
      rw [ofBytes64_toBytes64_bmod, addTime_bmod]
    unfold lmdbVdbRecent
    simp [Calls.succeed, hwrites.key, SortedMap.get_insert, toBytes64_length, hread,
      Int.not_lt.mpr hnow]
  · rw [lmdbVdbStoreReply_of_not_writes hwrites, or_iff_right fun h => hwrites h.1,
      and_iff_right hwrites]

end Lmdb

variable {L : Type}

/-- A query of the store with the clock of the sending, in which no call fails,
finds that the sender was answered. -/
def OnRecord (m : Accepted L) (world : World L) (store : Store) (canon : Bytes) : Prop :=
  (m.query (Calls.succeed world.host.time) store canon).1 = .recent

/-- The reply was written and counts, or nothing was written and an older record counts. -/
def Recorded (b : Backend) (m : Accepted L) (world : World L) (store : Store) (canon : Bytes) :
    Prop :=
  match b with
  | .redis => RedisWritten world.storeReply world.host.time m.interval ∨
      ∃ e, store.redis (redisVdbKey m.vdbh.rcpt canon) = some e ∧
        RedisOlder world.recent world.storeReply e world.host.time m.interval
  | .lmdb => (LmdbWrites world.storeReply (lmdbVdbKey m.vdbh.rcpt canon) ∧
        world.host.time < addTime world.storeReply.time m.interval) ∨
      (¬ LmdbWrites world.storeReply (lmdbVdbKey m.vdbh.rcpt canon) ∧
        OnRecord m world store canon)

section

variable {args : Args} {world : World L} {store : Store} {m : Accepted L} {sender canon : Bytes}

/-- A response is handed over only behind a query that let it pass and a `store_reply`. -/
theorem store_of_response (h : admitted args world = .ok (m, sender, canon))
    (hresponse : (main args world store).response.isSome = true) :
    (m.query world.recent store canon).1 ≠ .recent ∧ (main args world store).store =
      m.record world.storeReply (m.query world.recent store canon).2 canon := by
  have hmain : main args world store = m.respond world store sender canon := by
    simp only [main, h]
  rw [hmain] at hresponse ⊢
  by_cases hrecent : (m.query world.recent store canon).1 = .recent
  · rw [respond_of_recent hrecent] at hresponse
    cases hresponse
  · rw [respond_of_not_recent hrecent]
    exact ⟨hrecent, rfl⟩

theorem onRecord_record_iff {b : Backend} (hvdb : m.vdb = b.vdb)
    (h : (m.query world.recent store canon).1 ≠ .recent) :
    OnRecord m world (m.record world.storeReply (m.query world.recent store canon).2 canon)
        canon ↔ Recorded b m world store canon := by
  have hnow : (0 : ℤ) ≤ world.host.time := Int.natCast_nonneg _
  cases b with
  | redis =>
    simp only [OnRecord, Recorded, Accepted.query, Accepted.record, hvdb, Backend.vdb] at h ⊢
    exact redis_on_record_iff hnow h
  | lmdb =>
    have hrecent : ∀ calls store, lmdbVdb.recent calls store m.vdbh canon m.interval =
        (lmdbVdbRecent calls store.lmdb m.vdbh canon m.interval, store) := fun _ _ => rfl
    have hreply : (lmdbVdb.storeReply world.storeReply store m.vdbh canon).2.lmdb =
        (lmdbVdbStoreReply world.storeReply store.lmdb m.vdbh canon).2 := rfl
    simp only [OnRecord, Recorded, Accepted.query, Accepted.record, hvdb, Backend.vdb, hrecent,
      hreply]
    exact lmdb_on_record_iff hnow

/-- A reply that is handed to the mailer is on record at that time exactly when
`store_reply` wrote it and it still counts, or an older record does. -/
theorem reply_on_record_iff {b : Backend} (h : admitted args world = .ok (m, sender, canon))
    (hvdb : m.vdb = b.vdb) (hresponse : (main args world store).response.isSome = true) :
    OnRecord m world (main args world store).store canon ↔ Recorded b m world store canon := by
  obtain ⟨hquery, hstore⟩ := store_of_response h hresponse
  rw [hstore]
  exact onRecord_record_iff hvdb hquery

end

/-- The redis server refuses the SET. -/
def setFails : World Unit :=
  { toBob .redis 60 100 with storeReply := { Calls.succeed 100 with set := false } }

theorem exists_admitted {args : Args} {world : World L} {store : Store}
    (h : (main args world store).response.isSome = true) :
    ∃ m sender canon, admitted args world = .ok (m, sender, canon) := by
  cases hadmitted : admitted args world with
  | error ending =>
    have hmain : main args world store = ⟨ending, store, false, none⟩ := by
      simp only [main, hadmitted]
    rw [hmain] at h
    cases h
  | ok admission => exact ⟨_, _, _, rfl⟩

theorem reply_on_record : ∃ (m : Accepted Unit) (sender canon : Bytes),
    admitted (deliver (bytes "a@b") (bytes "bob")) (toBob .redis 60 100) = .ok (m, sender, canon) ∧
      OnRecord m (toBob .redis 60 100)
        (main (deliver (bytes "a@b") (bytes "bob")) (toBob .redis 60 100) Store.empty).store
        canon := by
  have hresponse : (main (deliver (bytes "a@b") (bytes "bob")) (toBob .redis 60 100)
      Store.empty).response.isSome = true := by
    decide +kernel
  obtain ⟨m, sender, canon, h⟩ := exists_admitted hresponse
  obtain ⟨hvdb, hinterval⟩ := @uses_storeConfig .redis _ _ _ _ _ _ rfl rfl h
  refine ⟨m, sender, canon, h, (reply_on_record_iff h hvdb hresponse).mpr (Or.inl ?_)⟩
  rw [hinterval]
  exact ⟨by decide, rfl, by decide, by decide +kernel⟩

/-- The response is sent, and there is no record of it. -/
theorem reply_not_on_record : ¬ ∀ (b : Backend) (args : Args) (world : World Unit) (store : Store)
    (m : Accepted Unit) (sender canon : Bytes), admitted args world = .ok (m, sender, canon) →
      m.vdb = b.vdb → 0 < m.interval → (main args world store).response.isSome = true →
      OnRecord m world (main args world store).store canon := by
  intro hall
  have hresponse : (main (deliver (bytes "a@b") (bytes "bob")) setFails
      Store.empty).response.isSome = true := by
    decide +kernel
  obtain ⟨m, sender, canon, h⟩ := exists_admitted hresponse
  obtain ⟨hvdb, hinterval⟩ := @uses_storeConfig .redis _ _ _ _ _ _ rfl rfl h
  obtain ⟨hquery, hstore⟩ := store_of_response h hresponse
  have hrecord := hall .redis _ _ _ m sender canon h hvdb (by rw [hinterval]; decide) hresponse
  rw [hstore, onRecord_record_iff hvdb hquery] at hrecord
  rcases hrecord with hwritten | ⟨e, he, -⟩
  · exact absurd hwritten.set (by decide)
  · cases he

end Simvacation.Records
