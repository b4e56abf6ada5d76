import Simvacation.ReplyTable

/-!
The keys of the LMDB store. `lmdb_vdb_key` cuts the text of a key so that
LMDB takes it, but keeps one byte more than the 511 that it allows. A key that
is cut is refused, and the fingerprint at its end is no longer whole.
-/

namespace Simvacation.StoreKeys

open CString Numerals Rabin Yasl Vutil Vdb ReplyTable

/-- The store takes the key, finds what it stored, and the key tells the pair apart from
every other. -/
structure GoodKey (rcpt sender : Bytes) : Prop where
  fits : (lmdbVdbKey rcpt sender).length ≤ 511
  stored : ∀ (db : LmdbDb) (now : ℤ), 0 ≤ now →
    lmdbVdbStoreReply (Calls.succeed now) db ⟨rcpt⟩ sender =
      (.ok, db.insert (lmdbVdbKey rcpt sender) (toBytes64 now))
  found : ∀ (db : LmdbDb) (now last interval : ℤ), 0 ≤ now → -2 ^ 63 ≤ last → last < 2 ^ 63 →
    db.get (lmdbVdbKey rcpt sender) = some (toBytes64 last) →
      lmdbVdbRecent (Calls.succeed now) db ⟨rcpt⟩ sender interval =
        if now < addTime last interval then .recent else .ok
  distinct : ∀ rcpt' sender', 0 ∉ rcpt' → lmdbVdbKey rcpt' sender' = lmdbVdbKey rcpt sender →
    rcpt' = rcpt ∧ rabinFingerprint true sender' = rabinFingerprint true sender

/-- The length of a recipient and of the fingerprint behind it. -/
def keyLength (rcpt sender : Bytes) : ℕ :=
  rcpt.length + (printHex (rabinFingerprint true sender).toNat).length

theorem length_keyText {rcpt : Bytes} (h : 0 ∉ rcpt) (sender : Bytes) :
    (keyText (tableKey rcpt sender)).length = keyLength rcpt sender + 1 := by
  have hcolon : (bytes ":").length = 1 := rfl
  have htext : keyText (tableKey rcpt sender) = rcpt ++ bytes ":" ++
      printHex (rabinFingerprint true sender).toNat := by
    rw [keyText, tableKey, cstr_eq_self h]
  rw [htext, List.length_append, List.length_append, hcolon, keyLength]
  omega

theorem length_lmdbVdbKey {rcpt : Bytes} (h : 0 ∉ rcpt) (sender : Bytes) :
    (lmdbVdbKey rcpt sender).length = min 512 (keyLength rcpt sender + 6) := by
  have huser : (bytes "user:").length = 5 := rfl
  have hcut := yaslrange_take (bytes "user:" ++ keyText (tableKey rcpt sender)) 511
  rw [Nat.cast_ofNat] at hcut
  rw [lmdbVdbKey_eq, lmdbKey, hcut, List.length_take, List.length_append, huser,
    length_keyText h]
  omega

/-- A key is good if and only if nothing of it is cut and it stays within the limit. -/
theorem goodKey_iff {rcpt : Bytes} (h : 0 ∉ rcpt) (sender : Bytes) :
    GoodKey rcpt sender ↔ keyLength rcpt sender ≤ 505 := by
  constructor
  · intro hgood
    have hfits := hgood.fits
    rw [length_lmdbVdbKey h] at hfits
    omega
  · intro hlen
    have hkey : Storable (tableKey rcpt sender) := by
      refine ⟨h, ?_⟩
      rw [length_keyText h]
      omega
    have hvalid := validKey_lmdbKey hkey.2
    refine ⟨?_, ?_, ?_, ?_⟩
    · rw [length_lmdbVdbKey h]
      omega
    · intro db now hnow
      rw [← lmdbVdbKey_eq] at hvalid
      simp [lmdbVdbStoreReply, Calls.succeed, hvalid, Int.not_lt.mpr hnow]
    · intro db now last interval hnow hlow hhigh hget
      rw [lmdbVdbRecent_eq interval hkey rfl rfl rfl hnow, ← lmdbVdbKey_eq, hget]
      simp only [toBytes64_length, ne_eq, not_true_eq_false, ite_false,
        ofBytes64_toBytes64 hlow hhigh]
      rfl
    · intro rcpt' sender' h' heq
      rw [lmdbVdbKey_eq, lmdbVdbKey_eq] at heq
      have hvalid' : validKey (lmdbKey (tableKey rcpt' sender')) = true := by
        rw [heq]
        exact hvalid
      have hkey' := storable_of_validKey h' hvalid'
      have hinj := lmdbKey_inj hkey' hkey heq
      exact ⟨congrArg Prod.fst hinj, congrArg Prod.snd hinj⟩

theorem keyLength_alice (n : ℕ) :
    keyLength (List.replicate n 97) (bytes "alice@example.com") = n + 16 := by
  have hprint : (printHex (rabinFingerprint true (bytes "alice@example.com")).toNat).length =
      16 := by decide +kernel
  rw [keyLength, hprint, List.length_replicate]

/-- The longest recipient with a good key, and one letter more. -/
theorem goodKey_alice : GoodKey (List.replicate 489 97) (bytes "alice@example.com") ∧
    ¬ GoodKey (List.replicate 490 97) (bytes "alice@example.com") := by
  have hnul : ∀ n, (0 : UInt8) ∉ List.replicate n 97 :=
    fun n hmem => absurd (List.eq_of_mem_replicate hmem) (by decide)
  constructor
  · apply (goodKey_iff (hnul 489) (bytes "alice@example.com")).mpr
    rw [keyLength_alice]
  · intro hgood
    have hlen := (goodKey_iff (hnul 490) (bytes "alice@example.com")).mp hgood
    rw [keyLength_alice] at hlen
    omega

/-- The store refuses the key of a recipient of 512 letters. -/
theorem long_recipient_refused : (0 : UInt8) ∉ List.replicate 512 97 ∧
    ¬ GoodKey (List.replicate 512 97) (bytes "alice@example.com") := by
  have hnul : (0 : UInt8) ∉ List.replicate 512 97 :=
    fun hmem => absurd (List.eq_of_mem_replicate hmem) (by decide)
  refine ⟨hnul, fun hgood => ?_⟩
  have hfits := hgood.fits
  rw [length_lmdbVdbKey hnul, keyLength, List.length_replicate] at hfits
  omega

end Simvacation.StoreKeys
