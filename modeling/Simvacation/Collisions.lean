import Simvacation.Fingerprint

/-!
Which strings share a fingerprint. What stands behind two strings makes no
difference, so the senders of one domain collide only with their local parts; up
to eight bytes there are no collisions, and of the strings with one beginning and
eight more bytes each word is the fingerprint of exactly one.
-/

namespace Simvacation.Collisions

open Polynomial CString Rabin BinaryPolynomials Fingerprint

theorem rabinFingerprint_eq_iff (charSigned : Bool) (s t : Bytes) :
    rabinFingerprint charSigned s = rabinFingerprint charSigned t ↔
      AdjoinRoot.mk (modulus rabinLow) (digitsPoly (bitString s)) =
        AdjoinRoot.mk (modulus rabinLow) (digitsPoly (bitString t)) := by
  rw [← residue_rabinFingerprint charSigned, ← residue_rabinFingerprint charSigned]
  exact (residue_injective rabinLow).eq_iff.symm

theorem digitsPoly_bitString_append (s t : Bytes) : digitsPoly (bitString (s ++ t)) =
    X ^ (8 * t.length) * digitsPoly (bitString s) + digitsPoly (bitString t) := by
  rw [bitString_append, digitsPoly_append, length_bitString]

/-- A common ending neither makes a collision nor resolves one. -/
theorem rabinFingerprint_append_iff (charSigned : Bool) (s t u : Bytes) :
    rabinFingerprint charSigned (s ++ u) = rabinFingerprint charSigned (t ++ u) ↔
      rabinFingerprint charSigned s = rabinFingerprint charSigned t := by
  rw [rabinFingerprint_eq_iff, rabinFingerprint_eq_iff, digitsPoly_bitString_append,
    digitsPoly_bitString_append, map_add, map_add, add_left_inj]
  exact mk_X_pow_mul_inj (by decide) (by decide) _

theorem degree_bitString_lt {s : Bytes} (h : s.length ≤ 8) :
    (digitsPoly (bitString s)).degree < (64 : ℕ) := by
  apply (degree_digitsPoly_lt _).trans_le
  rw [length_bitString]
  exact_mod_cast Nat.mul_le_mul_left 8 h

/-- Leading zeros count for nothing. -/
theorem digitsPoly_zeros (k : ℕ) (s : Bytes) :
    digitsPoly (bitString (List.replicate k 0 ++ s)) = digitsPoly (bitString s) := by
  induction k with
  | zero => rfl
  | succ k ih =>
    rw [List.replicate_succ, List.cons_append, digitsPoly_bitString_cons, ih]
    simp [poly_zero]

theorem dropWhile_zeros (k : ℕ) (s : Bytes) :
    (List.replicate k (0 : UInt8) ++ s).dropWhile (· = 0) = s.dropWhile (· = 0) := by
  induction k with
  | zero => rfl
  | succ k ih =>
    rw [List.replicate_succ, List.cons_append, List.dropWhile_cons_of_pos (by decide)]
    exact ih

theorem zeros_dropWhile (s : Bytes) :
    ∃ k, s = List.replicate k 0 ++ s.dropWhile (· = 0) := by
  refine ⟨(s.takeWhile (· = 0)).length, ?_⟩
  have hzeros : s.takeWhile (· = 0) = List.replicate (s.takeWhile (· = 0)).length 0 := by
    rw [List.eq_replicate_iff]
    exact ⟨rfl, fun c hc => by simpa using List.mem_takeWhile_imp hc⟩
  rw [← hzeros]
  exact List.takeWhile_append_dropWhile.symm

/-- Up to eight bytes the fingerprint is the number that the bytes are. -/
theorem rabinFingerprint_short_iff {s t : Bytes} (hs : s.length ≤ 8) (ht : t.length ≤ 8)
    (charSigned : Bool) : rabinFingerprint charSigned s = rabinFingerprint charSigned t ↔
      s.dropWhile (· = 0) = t.dropWhile (· = 0) := by
  rw [rabinFingerprint_eq_iff]
  constructor
  · intro h
    have hpoly := mk_inj_of_degree_lt (by decide) (by decide) (degree_bitString_lt hs)
      (degree_bitString_lt ht) h
    rw [← digitsPoly_zeros (8 - s.length) s, ← digitsPoly_zeros (8 - t.length) t] at hpoly
    have hbits := digitsPoly_inj (by
      simp only [length_bitString, List.length_append, List.length_replicate]
      omega) hpoly
    rw [← dropWhile_zeros (8 - s.length) s, bitString_injective hbits, dropWhile_zeros]
  · intro h
    obtain ⟨j, hj⟩ := zeros_dropWhile s
    obtain ⟨k, hk⟩ := zeros_dropWhile t
    rw [hj, hk, digitsPoly_zeros, digitsPoly_zeros, h]

/-- Senders of one domain collide when their local parts do, and those of up to eight
bytes only when they are the same. -/
theorem same_domain {s t : Bytes} (hs : 0 ∉ s) (ht : 0 ∉ t) (hslen : s.length ≤ 8)
    (htlen : t.length ≤ 8) (domain rcpt : Bytes) :
    (Vdb.redisVdbKey rcpt (s ++ domain) = Vdb.redisVdbKey rcpt (t ++ domain) ↔ s = t) ∧
      ∀ s' t' : Bytes,
        Vdb.redisVdbKey rcpt (s' ++ domain) = Vdb.redisVdbKey rcpt (t' ++ domain) ↔
          Vdb.redisVdbKey rcpt s' = Vdb.redisVdbKey rcpt t' := by
  have hkey : ∀ a b : Bytes, Vdb.redisVdbKey rcpt a = Vdb.redisVdbKey rcpt b ↔
      rabinFingerprint true a = rabinFingerprint true b := by
    intro a b
    constructor
    · intro h
      by_contra hne
      exact userKey_ne rcpt hne (List.append_cancel_left h)
    · intro h
      rw [Vdb.redisVdbKey, Vdb.redisVdbKey, Vdb.userKey, Vdb.userKey, h]
  have hdrop : ∀ {a : Bytes}, 0 ∉ a → a.dropWhile (· = 0) = a := by
    intro a ha
    cases a with
    | nil => rfl
    | cons c a =>
      apply List.dropWhile_cons_of_neg
      intro hc
      exact ha (by simp [of_decide_eq_true hc])
  constructor
  · rw [hkey, rabinFingerprint_append_iff, rabinFingerprint_short_iff hslen htlen, hdrop hs,
      hdrop ht]
  · intro s' t'
    rw [hkey, hkey, rabinFingerprint_append_iff]

theorem same_domain_alice :
    (Vdb.redisVdbKey (bytes "carol") (bytes "alice" ++ bytes "@umich.edu") =
        Vdb.redisVdbKey (bytes "carol") (bytes "bob" ++ bytes "@umich.edu") ↔
          bytes "alice" = bytes "bob") ∧
      ∀ s' t' : Bytes,
        Vdb.redisVdbKey (bytes "carol") (s' ++ bytes "@umich.edu") =
            Vdb.redisVdbKey (bytes "carol") (t' ++ bytes "@umich.edu") ↔
          Vdb.redisVdbKey (bytes "carol") s' = Vdb.redisVdbKey (bytes "carol") t' :=
  same_domain (by decide) (by decide) (by decide) (by decide) _ _

/-- The bytes of a word, the highest first. -/
def wordBytes (v : BitVec 64) : Bytes :=
  [56, 48, 40, 32, 24, 16, 8, 0].map fun k => UInt8.ofNat (v.toNat >>> k)

theorem digitsPoly_wordBytes (v : BitVec 64) :
    digitsPoly (bitString (wordBytes v)) = wordPoly v := by
  have hbytes : wordPoly v = _ := poly_chunks 8 (k := 8) v.isLt
  rw [hbytes]
  simp only [wordBytes, List.map_cons, List.map_nil, digitsPoly_bitString_cons, List.length_cons,
    List.length_nil, UInt8.toNat_ofNat', Finset.sum_range_succ, Finset.sum_range_zero]
  have hnil : digitsPoly (bitString []) = 0 := rfl
  rw [hnil]
  ring

/-- With any beginning, eight bytes can be chosen for every fingerprint, in one way. -/
theorem existsUnique_ending (charSigned : Bool) (s : Bytes) (v : BitVec 64) :
    ∃! u : Bytes, u.length = 8 ∧ rabinFingerprint charSigned (s ++ u) = v := by
  have hending : ∀ u : Bytes, u.length = 8 →
      residue rabinLow (rabinFingerprint charSigned (s ++ u)) =
        AdjoinRoot.mk (modulus rabinLow) (X ^ 64 * digitsPoly (bitString s)) +
          AdjoinRoot.mk (modulus rabinLow) (digitsPoly (bitString u)) := by
    intro u hu
    rw [residue_rabinFingerprint, digitsPoly_bitString_append, hu, map_add]
  -- the word that the beginning leaves
  obtain ⟨r, hr⟩ : ∃ r : BitVec 64, residue rabinLow r =
      AdjoinRoot.mk (modulus rabinLow) (X ^ 64 * digitsPoly (bitString s)) := by
    refine ⟨rabinFingerprint charSigned (s ++ List.replicate 8 0), ?_⟩
    have hzeros := digitsPoly_zeros 8 []
    rw [List.append_nil] at hzeros
    have hnil : digitsPoly (bitString []) = 0 := rfl
    rw [hending _ List.length_replicate, hzeros, hnil, map_zero, add_zero]
  refine ⟨wordBytes (r ^^^ v), ⟨rfl, ?_⟩, ?_⟩
  · apply residue_injective rabinLow
    have hword : AdjoinRoot.mk (modulus rabinLow) (digitsPoly (bitString (wordBytes (r ^^^ v)))) =
        residue rabinLow (r ^^^ v) := by
      rw [digitsPoly_wordBytes, residue]
    rw [hending _ rfl, ← hr, hword, ← residue_xor, ← BitVec.xor_assoc, BitVec.xor_self,
      BitVec.zero_xor]
  · rintro u ⟨hlen, hu⟩
    have hword : residue rabinLow v = residue rabinLow r +
        AdjoinRoot.mk (modulus rabinLow) (digitsPoly (bitString u)) := by
      rw [← hu, hending u hlen, hr]
    have hclass : AdjoinRoot.mk (modulus rabinLow) (digitsPoly (bitString u)) =
        AdjoinRoot.mk (modulus rabinLow) (digitsPoly (bitString (wordBytes (r ^^^ v)))) := by
      have hself : residue rabinLow r + residue rabinLow r = 0 := by
        rw [← residue_xor, BitVec.xor_self, residue_zero]
      rw [digitsPoly_wordBytes, ← residue, residue_xor, hword, ← add_assoc, hself, zero_add]
    have hpoly := mk_inj_of_degree_lt (by decide) (by decide) (degree_bitString_lt hlen.le)
      (degree_bitString_lt (le_refl 8)) hclass
    have hlength : (bitString u).length = (bitString (wordBytes (r ^^^ v))).length := by
      rw [length_bitString, length_bitString, hlen]
      rfl
    exact bitString_injective (digitsPoly_inj hlength hpoly)

end Simvacation.Collisions
