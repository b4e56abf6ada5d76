import Simvacation.Vdb

/-!
Garbage collection of the LMDB store. The loop is a sweep over the sorted map,
so it visits every record once, whatever it deletes on the way. Its test
compares the address of a value with the cutoff and not the timestamp stored
there, so what it deletes is right exactly when the two comparisons agree.
-/

namespace Simvacation.Collection

open CString Numerals Vdb

/-- No call of `lmdb_vdb_gc` into LMDB fails. -/
structure NoLmdbError (calls : Calls) : Prop where
  txnBegin : calls.txnBegin = true
  dbiOpen : calls.dbiOpen = true
  cursorOpen : calls.cursorOpen = true
  cursorGet : ∀ n, calls.cursorGet n = true
  mdbDel : ∀ n, calls.mdbDel n = true
  txnCommit : calls.txnCommit = true

/-- A user's record with a timestamp that is more than 7 days old. -/
def Expired (now : ℤ) (key data : Bytes) : Prop :=
  bytes "user:" <+: key ∧ data.length = 8 ∧ ofBytes64 data < now - expiry

/-- The records left are those of before without the expired ones. -/
def CollectsExpired (calls : Calls) (db : LmdbDb) : Prop :=
  ∀ key data, (lmdbVdbGc calls db).get key = some data ↔
    db.get key = some data ∧ ¬ Expired calls.time key data

/-- The address of a value lies below the cutoff exactly when its timestamp
does; a key that reads as `user:` only together with its value stays; and
nothing has expired when the clock cannot be read. -/
structure AddressesFit (calls : Calls) (db : LmdbDb) : Prop where
  user : 0 ≤ calls.time → ∀ key data, db.get key = some data → data.length = 8 →
    bytes "user:" <+: key →
      (calls.address key < calls.time - expiry ↔ ofBytes64 data < calls.time - expiry)
  other : 0 ≤ calls.time → ∀ key data, db.get key = some data → data.length = 8 →
    ¬ bytes "user:" <+: key → bytes "user:" <+: key ++ data →
      calls.time - expiry ≤ calls.address key
  clock : calls.time < 0 → ∀ key data, db.get key = some data → ¬ Expired calls.time key data

theorem gcLoop_eq_sweep {calls : Calls} (h : NoLmdbError calls) (expire : ℤ) (fuel n : ℕ)
    (pos : Option Bytes) (db : LmdbDb) :
    gcLoop calls expire fuel n pos db = db.sweep (gcExpired calls expire) fuel pos := by
  induction fuel generalizing n pos db with
  | zero => rfl
  | succ fuel ih =>
    unfold gcLoop SortedMap.sweep
    rw [h.cursorGet n]
    cases db.next pos with
    | none => rfl
    | some e =>
      simp only [h.mdbDel n, Bool.not_true, Bool.false_eq_true, ite_false, Bool.and_true, ih]

theorem gcExpired_eq_true_iff {calls : Calls} {expire : ℤ} {key data : Bytes} :
    gcExpired calls expire key data = true ↔
      bytes "user:" <+: key ++ data ∧ data.length = 8 ∧ calls.address key < expire := by
  have htake : (key ++ data).take 5 = bytes "user:" ↔ bytes "user:" <+: key ++ data := by
    rw [List.prefix_iff_eq_take, eq_comm]
    rfl
  simp only [gcExpired, Bool.and_eq_true, decide_eq_true_eq, htake, and_assoc]

/-- What the collection leaves. -/
theorem get_lmdbVdbGc {calls : Calls} (h : NoLmdbError calls) (db : LmdbDb) (key data : Bytes) :
    (lmdbVdbGc calls db).get key = some data ↔ db.get key = some data ∧
      (0 ≤ calls.time → gcExpired calls (calls.time - expiry) key data = false) := by
  unfold lmdbVdbGc
  by_cases htime : calls.time < 0
  · rw [if_pos htime]
    exact (and_iff_left fun hle => absurd htime (not_lt.mpr hle)).symm
  · have hfuel : db.ahead none < db.entries.length + 1 :=
      Nat.lt_succ_of_le (db.ahead_le_length none)
    rw [if_neg htime]
    simp only [h.txnBegin, h.dbiOpen, h.cursorOpen, h.txnCommit, Bool.not_true, Bool.false_eq_true,
      ite_false, ite_true, gcLoop_eq_sweep h, SortedMap.get_sweep _ hfuel, Option.all_none,
      Bool.true_and, Option.filter_eq_some_iff, Bool.not_eq_true']
    exact and_congr_right fun _ => (imp_iff_right (not_lt.mp htime)).symm

/-- The collection is right about a record. -/
theorem collects_iff {calls : Calls} (h : NoLmdbError calls) (db : LmdbDb) :
    CollectsExpired calls db ↔ ∀ key data, db.get key = some data →
      ((0 ≤ calls.time ∧ gcExpired calls (calls.time - expiry) key data = true) ↔
        Expired calls.time key data) := by
  unfold CollectsExpired
  refine forall₂_congr fun key data => ?_
  rw [get_lmdbVdbGc h, and_congr_right_iff]
  have hnot : (0 ≤ calls.time → gcExpired calls (calls.time - expiry) key data = false) ↔
      ¬ (0 ≤ calls.time ∧ gcExpired calls (calls.time - expiry) key data = true) := by
    rw [not_and, Bool.not_eq_true]
  rw [hnot, not_iff_not]

/-- The records whose key starts with `user:` and whose timestamp is older than
7 days go, and no others, exactly when the addresses fit. -/
theorem gc_collects_iff {calls : Calls} (h : NoLmdbError calls) (db : LmdbDb) :
    CollectsExpired calls db ↔ AddressesFit calls db := by
  rw [collects_iff h]
  simp only [gcExpired_eq_true_iff, Expired]
  constructor
  · intro hall
    refine ⟨fun htime key data hget hlen huser => ?_,
      fun htime key data hget hlen huser hboth => ?_, fun htime key data hget hexp => ?_⟩
    · have hboth : bytes "user:" <+: key ++ data := huser.trans (List.prefix_append _ _)
      have hiff := hall key data hget
      simp only [htime, hboth, hlen, huser, true_and] at hiff
      exact hiff
    · by_contra hlow
      exact huser ((hall key data hget).mp ⟨htime, hboth, hlen, not_le.mp hlow⟩).1
    · exact absurd ((hall key data hget).mpr hexp).1 (not_le.mpr htime)
  · intro hfit key data hget
    by_cases htime : 0 ≤ calls.time
    · constructor
      · rintro ⟨-, hboth, hlen, hlow⟩
        by_cases huser : bytes "user:" <+: key
        · exact ⟨huser, hlen, (hfit.user htime key data hget hlen huser).mp hlow⟩
        · exact absurd (hfit.other htime key data hget hlen huser hboth) (not_le.mpr hlow)
      · rintro ⟨huser, hlen, hold⟩
        exact ⟨htime, huser.trans (List.prefix_append _ _), hlen,
          (hfit.user htime key data hget hlen huser).mpr hold⟩
    · constructor
      · exact fun htaken => absurd htaken.1 htime
      · exact fun hexp => absurd hexp (hfit.clock (not_le.mp htime) key data hget)

theorem noLmdbError_succeed (now : ℤ) : NoLmdbError (Calls.succeed now) :=
  ⟨rfl, rfl, rfl, fun _ => rfl, fun _ => rfl, rfl⟩

/-- A store with one record of the given time. -/
def oneRecord (t : ℤ) : LmdbDb := SortedMap.empty.insert (bytes "user:bob:1f") (toBytes64 t)

theorem get_oneRecord {t : ℤ} {key data : Bytes} (h : (oneRecord t).get key = some data) :
    key = bytes "user:bob:1f" ∧ data = toBytes64 t := by
  rw [oneRecord, SortedMap.get_insert] at h
  split at h
  · next hkey => exact ⟨hkey, (Option.some.inj h).symm⟩
  · cases h

/-- A record of yesterday, an old one, and one of another kind. -/
def threeRecords : LmdbDb :=
  ((oneRecord 1699900000).insert (bytes "user:alice:2a") (toBytes64 1690000000)).insert
    (bytes "totals") (toBytes64 12)

/-- The value of the old one is mapped low. -/
def lowAlice : Calls :=
  { Calls.succeed 1700000000 with
    address := fun key => if key = bytes "user:alice:2a" then 4096 else 2 ^ 46 }

theorem get_threeRecords {key data : Bytes} (h : threeRecords.get key = some data) :
    (key = bytes "totals" ∧ data = toBytes64 12) ∨
      (key = bytes "user:alice:2a" ∧ data = toBytes64 1690000000) ∨
        (key = bytes "user:bob:1f" ∧ data = toBytes64 1699900000) := by
  rw [threeRecords, SortedMap.get_insert] at h
  split at h
  · next hkey => exact Or.inl ⟨hkey, (Option.some.inj h).symm⟩
  · rw [SortedMap.get_insert] at h
    split at h
    · next hkey => exact Or.inr (Or.inl ⟨hkey, (Option.some.inj h).symm⟩)
    · exact Or.inr (Or.inr (get_oneRecord h))

/-- The old record is collected, and the others are kept. -/
theorem fresh_record_kept : CollectsExpired lowAlice threeRecords := by
  have hcalls : NoLmdbError lowAlice := ⟨rfl, rfl, rfl, fun _ => rfl, fun _ => rfl, rfl⟩
  apply (gc_collects_iff hcalls _).mpr
  refine ⟨fun _ key data hget _ huser => ?_, fun _ key data hget _ huser hboth => ?_,
    fun hneg => absurd hneg (by decide)⟩
  · rcases get_threeRecords hget with ⟨rfl, rfl⟩ | ⟨rfl, rfl⟩ | ⟨rfl, rfl⟩
    · exact absurd huser (by decide)
    · exact iff_of_true (by decide +kernel) (by decide +kernel)
    · exact iff_of_false (by decide +kernel) (by decide +kernel)
  · rcases get_threeRecords hget with ⟨rfl, rfl⟩ | ⟨rfl, rfl⟩ | ⟨rfl, rfl⟩
    · exact absurd hboth (by decide +kernel)
    · exact absurd (by decide) huser
    · exact absurd (by decide) huser

/-- A record of 1970 is kept as well, since its value is mapped high up. -/
theorem old_record_kept : ¬ ∀ (calls : Calls) (db : LmdbDb), NoLmdbError calls →
    CollectsExpired calls db := by
  intro h
  have hcollects := h (Calls.succeed 1700000000) (oneRecord 0) (noLmdbError_succeed _)
  have hkept := (hcollects (bytes "user:bob:1f") (toBytes64 0)).mp (by decide +kernel)
  exact hkept.2 ⟨by decide, toBytes64_length 0, by decide +kernel⟩

end Simvacation.Collection
