import Simvacation.Expiring
import Simvacation.Machine
import Simvacation.Vdb

/-!
The reply store as a table. The table maps a recipient and the fingerprint of a
sender to the time of the last reply; it says what both backends are for. Redis
loses a record when it expires or is found stale, LMDB when it is collected;
neither loses one that still counts, so both answer as the table does.
-/

namespace Simvacation.ReplyTable

open CString Numerals Rabin Yasl Vutil Vdb Expiring Machine

/-- A recipient and the fingerprint of a sender. -/
abbrev Key := Bytes × BitVec 64

abbrev Table := Key → Option ℤ

def Table.empty : Table := fun _ => none

def tableKey (rcpt sender : Bytes) : Key := (rcpt, rabinFingerprint true sender)

/-- The part of a store key that both backends share. -/
def keyText (k : Key) : Bytes := cstr k.1 ++ bytes ":" ++ printHex k.2.toNat

def redisKey (k : Key) : Bytes := bytes "simvacation:user:" ++ keyText k

def lmdbKey (k : Key) : Bytes := yaslrange (bytes "user:" ++ keyText k) 0 511

theorem redisVdbKey_eq (rcpt sender : Bytes) :
    redisVdbKey rcpt sender = redisKey (tableKey rcpt sender) := rfl

theorem lmdbVdbKey_eq (rcpt sender : Bytes) :
    lmdbVdbKey rcpt sender = lmdbKey (tableKey rcpt sender) := rfl

/-- The last colon of a key stands in front of the fingerprint. -/
theorem keyText_inj {k j : Key} (hk : 0 ∉ k.1) (hj : 0 ∉ j.1) (h : keyText k = keyText j) :
    k = j := by
  have hhex : ∀ n, (58 : UInt8) ∉ printHex n := fun n => notMem_printHex (by decide)
  have hsplit : ∀ i : Key, 0 ∉ i.1 → keyText i = i.1 ++ 58 :: printHex i.2.toNat := by
    intro i hi
    rw [keyText, cstr_eq_self hi, List.append_assoc]
    rfl
  rw [hsplit k hk, hsplit j hj] at h
  have hlen : k.1.length = j.1.length := by
    have hlast := congrArg (strrchr · 58) h
    simp only [strrchr_append_cons (hhex _)] at hlast
    exact Option.some.inj hlast
  obtain ⟨hrcpt, hrest⟩ := List.append_inj h hlen
  have hfp := printHex_injective (List.cons.inj hrest).2
  exact Prod.ext hrcpt (BitVec.eq_of_toNat_eq hfp)

theorem redisKey_inj {k j : Key} (hk : 0 ∉ k.1) (hj : 0 ∉ j.1) (h : redisKey k = redisKey j) :
    k = j := keyText_inj hk hj (List.append_cancel_left h)

theorem length_keyText_le (k : Key) : (keyText k).length ≤ k.1.length + 17 := by
  have hhex : (printHex k.2.toNat).length ≤ 16 :=
    length_printBase_le (by decide) (by decide) (lt_of_lt_of_le k.2.isLt (by norm_num))
  have hcstr := (prefix_of_cstr k.1).length_le
  have hcolon : (bytes ":").length = 1 := rfl
  rw [keyText, List.length_append, List.length_append, hcolon]
  omega

/-- The keys that LMDB takes; they are not cut. -/
def Storable (k : Key) : Prop := 0 ∉ k.1 ∧ (keyText k).length ≤ 506

theorem lmdbKey_eq {k : Key} (h : (keyText k).length ≤ 506) :
    lmdbKey k = bytes "user:" ++ keyText k := by
  have huser : (bytes "user:").length = 5 := rfl
  have hcut := yaslrange_take (bytes "user:" ++ keyText k) 511
  rw [lmdbKey]
  rw [Nat.cast_ofNat] at hcut
  rw [hcut]
  apply List.take_of_length_le
  rw [List.length_append, huser]
  omega

theorem lmdbKey_inj {k j : Key} (hk : Storable k) (hj : Storable j) (h : lmdbKey k = lmdbKey j) :
    k = j := by
  rw [lmdbKey_eq hk.2, lmdbKey_eq hj.2] at h
  exact keyText_inj hk.1 hj.1 (List.append_cancel_left h)

theorem validKey_lmdbKey {k : Key} (h : (keyText k).length ≤ 506) :
    validKey (lmdbKey k) = true := by
  have huser : (bytes "user:").length = 5 := rfl
  have hlen : (lmdbKey k).length = 5 + (keyText k).length := by
    rw [lmdbKey_eq h, List.length_append, huser]
  simp only [validKey, hlen, Bool.and_eq_true, decide_eq_true_eq]
  omega

/-- LMDB takes exactly the keys that are not cut. -/
theorem storable_of_validKey {k : Key} (hk : 0 ∉ k.1) (h : validKey (lmdbKey k) = true) :
    Storable k := by
  refine ⟨hk, ?_⟩
  have huser : (bytes "user:").length = 5 := rfl
  have hcut := yaslrange_take (bytes "user:" ++ keyText k) 511
  rw [Nat.cast_ofNat] at hcut
  simp only [validKey, lmdbKey, hcut, Bool.and_eq_true, decide_eq_true_eq, List.length_take,
    List.length_append, huser] at h
  omega

/-- Clock readings for which nothing overflows or is cut. -/
def InRange (t : ℤ) : Prop := 0 ≤ t ∧ t < 10 ^ 15

/-- Intervals that can be added to such a reading. -/
def Addable (u : ℤ) : Prop := 0 ≤ u ∧ u < 2 ^ 62

theorem addTime_eq {t u : ℤ} (ht : InRange t) (hu : Addable u) : addTime t u = t + u := by
  obtain ⟨h0, h1⟩ := ht
  obtain ⟨h2, h3⟩ := hu
  norm_num at h1 h3
  apply Int.bmod_eq_of_le <;> norm_num <;> omega

theorem printInt_take {t : ℤ} (h : InRange t) : (printInt t).take 15 = printInt t := by
  obtain ⟨h0, h1⟩ := h
  have hlen : (printBase 10 t.natAbs).length ≤ 15 :=
    length_printBase_le (by decide) (by decide) (by norm_num at h1 ⊢; omega)
  rw [printInt, if_neg (by omega)]
  exact List.take_of_length_le hlen

theorem strtoll_printInt_of_inRange {t : ℤ} (h : InRange t) : strtoll (printInt t) = t := by
  obtain ⟨h0, h1⟩ := h
  norm_num at h1
  exact strtoll_printInt h0 (by norm_num; omega)

section

variable {interval : Bytes → ℤ} {t : ℤ} {T : Table} {calls : Calls} {rcpt sender : Bytes}

/-- An interval for which a record lives long enough. -/
def Kept (interval : Bytes → ℤ) (rcpt : Bytes) : Prop := 0 ≤ interval rcpt ∧ interval rcpt ≤ expiry

theorem Kept.addable (h : Kept interval rcpt) : Addable (interval rcpt) := by
  obtain ⟨h0, h1⟩ := h
  simp only [expiry] at h1
  exact ⟨h0, by norm_num; omega⟩

def limit (interval : Bytes → ℤ) (k : Key) : ℤ := interval k.1

/-- A Redis record for a time does not expire within 7 days of it. -/
def RedisHolds (e : RedisEntry) (last : ℤ) : Prop :=
  InRange last ∧ e.value = printInt last ∧ ∀ x ∈ e.expireAt, last + expiry ≤ x

def LmdbHolds (data : Bytes) (last : ℤ) : Prop := InRange last ∧ data = toBytes64 last

def RedisTracks (interval : Bytes → ℤ) (t : ℤ) (db : RedisDb) (T : Table) : Prop :=
  Tracks (fun k => 0 ∉ k.1 ∧ Kept interval k.1) (limit interval) RedisHolds t
    (fun k => db (redisKey k)) T

def LmdbTracks (interval : Bytes → ℤ) (t : ℤ) (db : LmdbDb) (T : Table) : Prop :=
  Tracks (fun k => Storable k ∧ Addable (interval k.1)) (limit interval) LmdbHolds t
    (fun k => db.get (lmdbKey k)) T

theorem strtoll_of_redisHolds {e : RedisEntry} {last : ℤ} (h : RedisHolds e last) :
    strtoll e.value = last := by
  rw [h.2.1, strtoll_printInt_of_inRange h.1]

theorem ofBytes64_of_lmdbHolds {data : Bytes} {last : ℤ} (h : LmdbHolds data last) :
    ofBytes64 data = last := by
  obtain ⟨⟨h0, h1⟩, rfl⟩ := h
  norm_num at h1
  exact ofBytes64_toBytes64 (by norm_num; omega) (by norm_num; omega)

theorem lookup_cases (db : RedisDb) (now : ℤ) (key : Bytes) : db.lookup now key = db key ∨
    (db.lookup now key = none ∧ ∃ e x, db key = some e ∧ x ∈ e.expireAt ∧ x ≤ now) := by
  unfold RedisDb.lookup
  cases hdb : db key with
  | none => exact Or.inl rfl
  | some e =>
    cases hx : e.expireAt with
    | none => simp [hx]
    | some x =>
      by_cases hlt : now < x
      · simp [hx, hlt]
      · right
        exact ⟨by simp [hx, hlt], e, x, rfl, hx, by omega⟩

/-- What Redis finds is the record, unless the entry no longer counts. -/
theorem RedisTracks.lookup {db : RedisDb} (h : RedisTracks interval t db T) {k : Key}
    (hk : 0 ∉ k.1 ∧ Kept interval k.1) {now : ℤ} : db.lookup now (redisKey k) = db (redisKey k) ∨
      (db.lookup now (redisKey k) = none ∧ ∀ last ∈ T k, last + limit interval k ≤ now) := by
  rcases lookup_cases db now (redisKey k) with heq | ⟨hnone, e, x, he, hx, hle⟩
  · exact Or.inl heq
  · right
    refine ⟨hnone, ?_⟩
    obtain ⟨last, hT, -, -, hexpire⟩ := Tracks.holds_of_record h hk he
    have hlong := hexpire x hx
    have hshort : limit interval k ≤ expiry := hk.2.2
    rw [hT]
    rintro _ ⟨⟩
    omega

/-- A query in which no call fails. -/
theorem redisVdbRecent_eq {db : RedisDb} (u : ℤ) (hget : calls.get = true) (hnow : 0 ≤ calls.time) :
    redisVdbRecent calls db ⟨rcpt⟩ sender u =
      match db.lookup calls.serverTime (redisKey (tableKey rcpt sender)) with
      | none => (.ok, db)
      | some e =>
        if calls.time < addTime (strtoll e.value) u then (.recent, db)
        else (.ok, if calls.del then db.del (redisKey (tableKey rcpt sender)) else db) := by
  unfold redisVdbRecent
  simp only [redisVdbKey_eq, hget, ite_true, RedisDb.get]
  cases db.lookup calls.serverTime (redisKey (tableKey rcpt sender)) with
  | none => rfl
  | some e => simp only [Option.map_some, if_neg (Int.not_lt.mpr hnow)]

/-- Redis answers as the table does, and deletes only what no longer counts. -/
theorem redisVdbRecent_tracks {db : RedisDb} (h : RedisTracks interval t db T)
    (hrcpt : 0 ∉ rcpt) (hkept : Kept interval rcpt) (hget : calls.get = true)
    (hserver : t ≤ calls.serverTime) (htime : calls.serverTime ≤ calls.time)
    (hnow : 0 ≤ calls.time) :
    ((redisVdbRecent calls db ⟨rcpt⟩ sender (interval rcpt)).1 = .recent ↔
        Fresh (limit interval) T (tableKey rcpt sender) calls.time) ∧
      RedisTracks interval calls.time
        (redisVdbRecent calls db ⟨rcpt⟩ sender (interval rcpt)).2 T := by
  have hk : 0 ∉ (tableKey rcpt sender).1 ∧ Kept interval (tableKey rcpt sender).1 := ⟨hrcpt, hkept⟩
  have hlater : RedisTracks interval calls.time db T := Tracks.mono h (by omega)
  have hfound : db.lookup calls.serverTime (redisKey (tableKey rcpt sender)) =
      db (redisKey (tableKey rcpt sender)) ∨
      (db.lookup calls.serverTime (redisKey (tableKey rcpt sender)) = none ∧
        ∀ last ∈ T (tableKey rcpt sender),
          last + limit interval (tableKey rcpt sender) ≤ calls.time) := by
    rcases h.lookup hk with heq | ⟨hnone, hstale⟩
    · exact Or.inl heq
    · exact Or.inr ⟨hnone, fun last hl => (hstale last hl).trans htime⟩
  have hfresh := Tracks.fresh_iff hlater hk (le_refl calls.time)
    (fun _ _ => strtoll_of_redisHolds) hfound
  rw [hfresh, redisVdbRecent_eq _ hget hnow]
  cases he : db.lookup calls.serverTime (redisKey (tableKey rcpt sender)) with
  | none => simpa [he] using hlater
  | some e =>
    have hrecord : db (redisKey (tableKey rcpt sender)) = some e := by
      rcases hfound with heq | ⟨hnone, -⟩
      · rw [← heq, he]
      · rw [hnone] at he
        contradiction
    obtain ⟨last, hlast, hholds⟩ := Tracks.holds_of_record h hk hrecord
    have hread := strtoll_of_redisHolds hholds
    have hsum : addTime (strtoll e.value) (interval rcpt) = last + interval rcpt := by
      rw [hread, addTime_eq hholds.1 hkept.addable]
    have hiff : (∃ e' ∈ some e,
        calls.time < strtoll e'.value + limit interval (tableKey rcpt sender)) ↔
        calls.time < last + interval rcpt := by
      simp [hread, limit, tableKey]
    rw [hiff]
    simp only [hsum]
    by_cases hrecent : calls.time < last + interval rcpt
    · simpa [hrecent] using hlater
    · rw [if_neg hrecent]
      refine ⟨by simp [hrecent], Tracks.lose hlater fun j hj => ?_⟩
      by_cases hjk : j = tableKey rcpt sender
      · subst hjk
        by_cases hdel : calls.del = true
        · right
          rw [if_pos hdel, hlast]
          refine ⟨Function.update_self _ _ _, ?_⟩
          rintro _ ⟨⟩
          exact Int.not_lt.mp hrecent
        · left
          rw [if_neg hdel]
      · left
        have hkey : redisKey j ≠ redisKey (tableKey rcpt sender) :=
          fun e' => hjk (redisKey_inj hj.1 hk.1 e')
        split
        · exact Function.update_of_ne hkey _ _
        · rfl

/-- SET, and an EXPIRE that may fail, leave a record that lives long enough. -/
theorem set_expire (db : RedisDb) (key value : Bytes) (now : ℤ) (ok : Bool) :
    let db' := if ok then (db.set key value).expire now key expiry else db.set key value
    (∃ e, db' key = some e ∧ e.value = value ∧ ∀ x ∈ e.expireAt, now + expiry ≤ x) ∧
      ∀ other, other ≠ key → db' other = db other := by
  have hset : ∀ other, other ≠ key → db.set key value other = db other :=
    fun other hne => Function.update_of_ne hne _ _
  have hself : db.set key value key = some ⟨value, none⟩ := Function.update_self _ _ _
  cases ok with
  | false => exact ⟨⟨⟨value, none⟩, hself, rfl, by simp⟩, hset⟩
  | true =>
    have hlookup : (db.set key value).lookup now key = some ⟨value, none⟩ := by
      rw [RedisDb.lookup, hself]
      rfl
    simp only [ite_true, RedisDb.expire, hlookup]
    constructor
    · exact ⟨⟨value, some (now + expiry)⟩, Function.update_self _ _ _, rfl, by simp⟩
    · intro other hne
      rw [Function.update_of_ne hne, hset other hne]

theorem redisVdbStoreReply_tracks {db : RedisDb} (h : RedisTracks interval t db T)
    (hrcpt : 0 ∉ rcpt) (hset : calls.set = true) (ht : t ≤ calls.time)
    (hserver : calls.time ≤ calls.serverTime) (hrange : InRange calls.time) :
    (redisVdbStoreReply calls db ⟨rcpt⟩ sender).1 = .ok ∧
      RedisTracks interval calls.serverTime (redisVdbStoreReply calls db ⟨rcpt⟩ sender).2
        (Function.update T (tableKey rcpt sender) (some calls.time)) := by
  have hlater : RedisTracks interval calls.serverTime db T := Tracks.mono h (by omega)
  unfold redisVdbStoreReply
  simp only [redisVdbKey_eq, if_neg (Int.not_lt.mpr hrange.1), hset, ite_true,
    printInt_take hrange, true_and]
  obtain ⟨⟨e, he, hvalue, hexpire⟩, hother⟩ := set_expire db (redisKey (tableKey rcpt sender))
    (printInt calls.time) calls.serverTime calls.expire
  refine Tracks.put hlater (fun j hj hjk => ?_) he ⟨hrange, hvalue, fun x hx => ?_⟩
  · exact hother _ fun heq => hjk (redisKey_inj hj.1 hrcpt heq)
  · have := hexpire x hx
    omega

/-- A query in which no call fails. -/
theorem lmdbVdbRecent_eq {db : LmdbDb} (u : ℤ) (hkey : Storable (tableKey rcpt sender))
    (htxn : calls.txnBegin = true) (hdbi : calls.dbiOpen = true) (hget : calls.mdbGet = true)
    (hnow : 0 ≤ calls.time) : lmdbVdbRecent calls db ⟨rcpt⟩ sender u =
      match db.get (lmdbKey (tableKey rcpt sender)) with
      | none => .ok
      | some data =>
        if data.length ≠ 8 then .ok
        else if calls.time < addTime (ofBytes64 data) u then .recent
        else .ok := by
  have hvalid := validKey_lmdbKey hkey.2
  unfold lmdbVdbRecent
  cases hdata : db.get (lmdbKey (tableKey rcpt sender)) with
  | none => simp [lmdbVdbKey_eq, htxn, hdbi, hdata]
  | some data =>
    simp [lmdbVdbKey_eq, htxn, hdbi, hget, hvalid, hdata, if_neg (Int.not_lt.mpr hnow)]

theorem lmdbVdbRecent_tracks {db : LmdbDb} (h : LmdbTracks interval t db T)
    (hkey : Storable (tableKey rcpt sender)) (hadd : Addable (interval rcpt))
    (htxn : calls.txnBegin = true) (hdbi : calls.dbiOpen = true) (hget : calls.mdbGet = true)
    (ht : t ≤ calls.time) (hnow : 0 ≤ calls.time) :
    lmdbVdbRecent calls db ⟨rcpt⟩ sender (interval rcpt) = .recent ↔
      Fresh (limit interval) T (tableKey rcpt sender) calls.time := by
  have hk : Storable (tableKey rcpt sender) ∧ Addable (interval (tableKey rcpt sender).1) :=
    ⟨hkey, hadd⟩
  have hfresh := Tracks.fresh_iff h hk ht (fun _ _ => ofBytes64_of_lmdbHolds) (Or.inl rfl)
  rw [hfresh, lmdbVdbRecent_eq _ hkey htxn hdbi hget hnow]
  cases he : db.get (lmdbKey (tableKey rcpt sender)) with
  | none => simp
  | some data =>
    obtain ⟨last, hlast, hholds⟩ := Tracks.holds_of_record h hk he
    have hread := ofBytes64_of_lmdbHolds hholds
    have hlen : data.length = 8 := by rw [hholds.2, toBytes64_length]
    have hsum : addTime last (interval rcpt) = last + interval rcpt := addTime_eq hholds.1 hadd
    have hlimit : limit interval (tableKey rcpt sender) = interval rcpt := rfl
    simp [hlen, hread, hsum, hlimit]

theorem lmdbVdbStoreReply_tracks {db : LmdbDb} (h : LmdbTracks interval t db T)
    (hkey : Storable (tableKey rcpt sender)) (htxn : calls.txnBegin = true)
    (hdbi : calls.dbiOpen = true) (hput : calls.mdbPut = true) (hcommit : calls.txnCommit = true)
    (ht : t ≤ calls.time) (hrange : InRange calls.time) :
    (lmdbVdbStoreReply calls db ⟨rcpt⟩ sender).1 = .ok ∧
      LmdbTracks interval calls.time (lmdbVdbStoreReply calls db ⟨rcpt⟩ sender).2
        (Function.update T (tableKey rcpt sender) (some calls.time)) := by
  have hlater : LmdbTracks interval calls.time db T := Tracks.mono h ht
  unfold lmdbVdbStoreReply
  simp only [lmdbVdbKey_eq, if_neg (Int.not_lt.mpr hrange.1), htxn, hdbi, hput, hcommit,
    validKey_lmdbKey hkey.2, Bool.and_self, Bool.not_true, Bool.false_eq_true, ite_false, true_and]
  refine Tracks.put hlater (fun j hj hjk => ?_) ?_ ⟨hrange, rfl⟩
  · have hne : lmdbKey j ≠ lmdbKey (tableKey rcpt sender) :=
      fun heq => hjk (lmdbKey_inj hj.1 hkey heq)
    rw [SortedMap.get_insert, if_neg hne]
  · rw [SortedMap.get_insert, if_pos rfl]

end

end Simvacation.ReplyTable
