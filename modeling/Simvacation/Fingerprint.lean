import Simvacation.BinaryPolynomials
import Simvacation.ReplyTable

/-!
The fingerprint of `rabin.c` is polynomial reduction. Every table is a table of
multiples, so a lookup multiplies the running value by `X ^ 64`; a block adds its
eight bytes, and the loop computes the remainder of the whole string.
-/

namespace Simvacation.Fingerprint

open Polynomial CString Rabin BinaryPolynomials

/-- The modulus of the tables without its highest term. -/
def rabinLow : BitVec 64 := 0x1b#64

theorem modulus_rabinLow : modulus rabinLow = X ^ 64 + X ^ 4 + X ^ 3 + X + 1 := by
  have hlow : wordPoly rabinLow = X ^ 4 + X ^ 3 + X + 1 := by
    have hsum : poly 27 = 1 + X + X ^ 3 + X ^ 4 := by
      simp [poly, Finset.sum_range_succ, Nat.testBit, Nat.shiftRight_eq_div_pow]
    have htoNat : rabinLow.toNat = 27 := rfl
    rw [wordPoly, htoNat, hsum]
    ring
  rw [modulus, hlow]
  ring

/-- The table holds the multiples of the lowest part times `X ^ shift`. -/
def IsTable (table : List ℕ) (shift : ℕ) : Prop :=
  table.map (BitVec.ofNat 64) = multiples rabinLow ((mulX rabinLow)^[shift] rabinLow) 8

/-- One evaluation for all tables. -/
theorem isTable_tables : IsTable table32 0 ∧ IsTable table40 8 ∧ IsTable table48 16 ∧
    IsTable table56 24 ∧ IsTable table64 32 ∧ IsTable table72 40 ∧ IsTable table80 48 ∧
      IsTable table88 56 := by
  unfold IsTable
  decide +kernel

theorem isTable_table32 : IsTable table32 0 := isTable_tables.1
theorem isTable_table40 : IsTable table40 8 := isTable_tables.2.1
theorem isTable_table48 : IsTable table48 16 := isTable_tables.2.2.1
theorem isTable_table56 : IsTable table56 24 := isTable_tables.2.2.2.1
theorem isTable_table64 : IsTable table64 32 := isTable_tables.2.2.2.2.1
theorem isTable_table72 : IsTable table72 40 := isTable_tables.2.2.2.2.2.1
theorem isTable_table80 : IsTable table80 48 := isTable_tables.2.2.2.2.2.2.1
theorem isTable_table88 : IsTable table88 56 := isTable_tables.2.2.2.2.2.2.2

theorem residue_entry {table : List ℕ} {shift : ℕ} (h : IsTable table shift) (rh : BitVec 64) :
    residue rabinLow (entry table rh shift) = AdjoinRoot.root (modulus rabinLow) ^ 64 *
      AdjoinRoot.mk (modulus rabinLow) (X ^ shift * poly ((rh.toNat >>> shift) % 2 ^ 8)) := by
  have hindex : ((rh >>> shift) &&& 0xff#64).toNat = (rh.toNat >>> shift) % 2 ^ 8 := by
    rw [BitVec.toNat_and, BitVec.toNat_ushiftRight]
    exact Nat.and_two_pow_sub_one_eq_mod _ 8
  obtain ⟨u, hu, hres⟩ := residue_multiples (by decide) rabinLow
    ((mulX rabinLow)^[shift] rabinLow) (Nat.mod_lt (rh.toNat >>> shift) (by decide : 0 < 2 ^ 8))
  rw [← show _ = _ from h, List.getElem?_map, Option.map_eq_some_iff] at hu
  obtain ⟨n, hn, rfl⟩ := hu
  rw [entry, hindex, List.getD_eq_getElem?_getD, hn, Option.getD_some, hres,
    residue_mulX_iterate (by decide), residue_low, map_mul, map_pow, AdjoinRoot.mk_X]
  ring

/-- A lookup shifts the running value by eight bytes. -/
theorem residue_rhLookup (rh : BitVec 64) : residue rabinLow (rhLookup rh) =
    AdjoinRoot.root (modulus rabinLow) ^ 64 * residue rabinLow rh := by
  have hbytes : wordPoly rh = _ := poly_chunks 8 (k := 8) rh.isLt
  rw [rhLookup]
  simp only [residue_xor, residue_entry isTable_table32, residue_entry isTable_table40,
    residue_entry isTable_table48, residue_entry isTable_table56, residue_entry isTable_table64,
    residue_entry isTable_table72, residue_entry isTable_table80, residue_entry isTable_table88]
  rw [residue, hbytes]
  simp only [Finset.sum_range_succ, Finset.sum_range_zero, map_add, map_zero]
  ring

/-- Signed or not, a masked `char` is the number of the byte. -/
theorem maskedChar_eq (charSigned : Bool) (c : UInt8) :
    maskedChar charSigned c = BitVec.ofNat 64 c.toNat := by
  apply forall_byte (P := fun c => maskedChar charSigned c = BitVec.ofNat 64 c.toNat)
  cases charSigned <;> decide +kernel

/-- The extended sign of the highest byte is shifted out. -/
theorem charToU64_shiftLeft (charSigned : Bool) (c : UInt8) :
    charToU64 charSigned c <<< 56 = maskedChar charSigned c <<< 56 := by
  apply forall_byte (P := fun c => charToU64 charSigned c <<< 56 = maskedChar charSigned c <<< 56)
  cases charSigned <;> decide +kernel

theorem wordPoly_maskedChar (charSigned : Bool) (c : UInt8) :
    wordPoly (maskedChar charSigned c) = poly c.toNat := by
  have hlt : c.toNat < 2 ^ 64 := c.toNat_lt.trans (by decide)
  rw [maskedChar_eq, wordPoly, BitVec.toNat_ofNat, Nat.mod_eq_of_lt hlt]

/-- A word shifted within its bounds. -/
theorem wordPoly_shiftLeft {v : BitVec 64} {j k : ℕ} (hv : v.toNat < 2 ^ j) (hjk : j + k ≤ 64) :
    wordPoly (v <<< k) = X ^ k * wordPoly v ∧ (v <<< k).toNat < 2 ^ (j + k) := by
  have hlt : v.toNat <<< k < 2 ^ (j + k) := by
    rw [Nat.shiftLeft_eq, pow_add]
    exact Nat.mul_lt_mul_of_pos_right hv (by positivity)
  have htoNat : (v <<< k).toNat = v.toNat <<< k := by
    rw [BitVec.toNat_shiftLeft]
    exact Nat.mod_eq_of_lt (hlt.trans_le (Nat.pow_le_pow_right (by decide) hjk))
  exact ⟨by rw [wordPoly, htoNat, poly_shiftLeft, wordPoly], by rw [htoNat]; exact hlt⟩

theorem maskedChar_lt (charSigned : Bool) (c : UInt8) :
    (maskedChar charSigned c).toNat < 2 ^ 8 := by
  rw [maskedChar_eq, BitVec.toNat_ofNat]
  exact (Nat.mod_le _ _).trans_lt c.toNat_lt

theorem wordPoly_maskedChar_shiftLeft (charSigned : Bool) (c : UInt8) {k : ℕ} (hk : 8 + k ≤ 64) :
    wordPoly (maskedChar charSigned c <<< k) = X ^ k * poly c.toNat := by
  rw [(wordPoly_shiftLeft (maskedChar_lt charSigned c) hk).1, wordPoly_maskedChar]

/-- The bits of a string, the first byte most significant. -/
def bitString (s : Bytes) : List Bool := s.flatMap fun c => digits 8 c.toNat

theorem length_bitString (s : Bytes) : (bitString s).length = 8 * s.length := by
  induction s with
  | nil => rfl
  | cons c s ih =>
    rw [bitString, List.flatMap_cons, List.length_append, List.length_cons]
    change (digits 8 c.toNat).length + (bitString s).length = _
    rw [ih]
    simp only [digits, List.length_reverse, List.length_map, List.length_range]
    omega

theorem digitsPoly_bitString_cons (c : UInt8) (s : Bytes) : digitsPoly (bitString (c :: s)) =
    X ^ (8 * s.length) * poly c.toNat + digitsPoly (bitString s) := by
  have hcons : bitString (c :: s) = digits 8 c.toNat ++ bitString s := rfl
  rw [hcons, digitsPoly_append, length_bitString, digitsPoly_digits c.toNat_lt]

theorem bitString_append (s t : Bytes) : bitString (s ++ t) = bitString s ++ bitString t :=
  List.flatMap_append

/-- The first loop loses no bit: it runs over at most seven bytes. -/
theorem wordPoly_headLoop (charSigned : Bool) {j : ℕ} {rh : BitVec 64} {s : Bytes}
    (hrh : rh.toNat < 2 ^ j) (hs : j + 8 * s.length ≤ 64) :
    wordPoly (headLoop charSigned rh s) =
      X ^ (8 * s.length) * wordPoly rh + digitsPoly (bitString s) := by
  induction s generalizing j rh with
  | nil => simp [headLoop, bitString, digitsPoly_nil]
  | cons c s ih =>
    rw [List.length_cons] at hs ⊢
    obtain ⟨hpoly, hlt⟩ := wordPoly_shiftLeft (k := 8) hrh (by omega)
    have hmasked := (maskedChar_lt charSigned c).trans_le
      (Nat.pow_le_pow_right (by decide) (Nat.le_add_left 8 j))
    have hnext : ((rh <<< 8) ^^^ maskedChar charSigned c).toNat < 2 ^ (j + 8) := by
      rw [BitVec.toNat_xor]
      exact Nat.xor_lt_two_pow hlt hmasked
    rw [headLoop, ih hnext (by omega), wordPoly_xor, hpoly, wordPoly_maskedChar,
      digitsPoly_bitString_cons]
    ring

/-- A block multiplies the remainder by `X ^ 64` and adds its bytes. -/
theorem residue_blockLoop (charSigned : Bool) (rh : BitVec 64) (s : Bytes)
    (hs : s.length % 8 = 0) : residue rabinLow (blockLoop charSigned rh s) =
      AdjoinRoot.root (modulus rabinLow) ^ (8 * s.length) * residue rabinLow rh +
        AdjoinRoot.mk (modulus rabinLow) (digitsPoly (bitString s)) := by
  fun_induction blockLoop charSigned rh s with
  | case1 rh c0 c1 c2 c3 c4 c5 c6 c7 s ih =>
    have hrest : s.length % 8 = 0 := by
      simp only [List.length_cons] at hs
      omega
    have hchar : ∀ (c : UInt8) {k : ℕ}, 8 + k ≤ 64 →
        residue rabinLow (maskedChar charSigned c <<< k) =
          AdjoinRoot.mk (modulus rabinLow) (X ^ k * poly c.toNat) := by
      intro c k hk
      rw [residue, wordPoly_maskedChar_shiftLeft charSigned c hk]
    have hlast : residue rabinLow (maskedChar charSigned c7) =
        AdjoinRoot.mk (modulus rabinLow) (poly c7.toNat) := by
      rw [residue, wordPoly_maskedChar]
    rw [ih hrest]
    simp only [residue_xor, residue_rhLookup, charToU64_shiftLeft, digitsPoly_bitString_cons,
      List.length_cons, hlast]
    rw [hchar c0 (by decide), hchar c1 (by decide), hchar c2 (by decide), hchar c3 (by decide),
      hchar c4 (by decide), hchar c5 (by decide), hchar c6 (by decide)]
    simp only [map_add, map_mul, map_pow, AdjoinRoot.mk_X]
    ring
  | case2 s rh hshort =>
    -- a number of bytes that is a multiple of eight leaves none
    have hnil : s = [] := by
      rcases s with
        _ | ⟨c0, _ | ⟨c1, _ | ⟨c2, _ | ⟨c3, _ | ⟨c4, _ | ⟨c5, _ | ⟨c6, _ | ⟨c7, s⟩⟩⟩⟩⟩⟩⟩⟩
      case nil => rfl
      case cons.cons.cons.cons.cons.cons.cons.cons =>
        exact (hshort c0 c1 c2 c3 c4 c5 c6 c7 s rfl).elim
      all_goals simp at hs
    subst hnil
    simp [bitString, digitsPoly_nil]

theorem residue_rabinFingerprint (charSigned : Bool) (s : Bytes) :
    residue rabinLow (rabinFingerprint charSigned s) =
      AdjoinRoot.mk (modulus rabinLow) (digitsPoly (bitString s)) := by
  have hhead : (s.take (s.length % 8)).length < 8 := by
    rw [List.length_take]
    exact (Nat.min_le_left _ _).trans_lt (Nat.mod_lt _ (by decide))
  have hblocks : (s.drop (s.length % 8)).length % 8 = 0 := by
    rw [List.length_drop]
    omega
  have hzero : (0 : BitVec 64).toNat < 2 ^ 0 := by decide
  have hpoly := wordPoly_headLoop charSigned hzero (s := s.take (s.length % 8)) (by omega)
  have hsplit : digitsPoly (bitString s) = _ :=
    congrArg (digitsPoly ∘ bitString) (List.take_append_drop (s.length % 8) s).symm
  rw [rabinFingerprint, residue_blockLoop _ _ _ hblocks, residue, hpoly, hsplit,
    Function.comp_apply, bitString_append, digitsPoly_append, length_bitString]
  simp [wordPoly, poly_zero]

/-- Eight tables and eight bytes at a time, the loop divides by the modulus and agrees with
the division bit by bit. -/
theorem rabinFingerprint_eq_remainder (charSigned : Bool) (s : Bytes) :
    wordPoly (rabinFingerprint charSigned s) =
      digitsPoly (bitString s) %ₘ (X ^ 64 + X ^ 4 + X ^ 3 + X + 1) ∧
      rabinFingerprint charSigned s = remainder rabinLow (bitString s) := by
  have hmod := wordPoly_eq_modByMonic (residue_rabinFingerprint charSigned s).symm
  have hrem := wordPoly_eq_modByMonic
    (residue_remainder (by decide) rabinLow (bitString s)).symm
  rw [← modulus_rabinLow]
  exact ⟨hmod, wordPoly_injective (hmod.trans hrem.symm)⟩

theorem digits_byte_injective : Function.Injective fun c : UInt8 => digits 8 c.toNat := by
  intro c d h
  have hpoly := congrArg digitsPoly h
  rw [digitsPoly_digits c.toNat_lt, digitsPoly_digits d.toNat_lt] at hpoly
  exact UInt8.toNat_inj.mp (poly_injective hpoly)

theorem bitString_injective : Function.Injective bitString := by
  intro s t h
  induction s generalizing t with
  | nil =>
    have hlen := congrArg List.length h
    rw [length_bitString, length_bitString, List.length_nil] at hlen
    exact (List.eq_nil_of_length_eq_zero (by omega)).symm
  | cons c s ih =>
    cases t with
    | nil =>
      have hlen := congrArg List.length h
      rw [length_bitString, length_bitString, List.length_nil, List.length_cons] at hlen
      omega
    | cons d t =>
      obtain ⟨hbyte, hrest⟩ := List.append_inj h (by simp only [digits, List.length_reverse,
        List.length_map, List.length_range])
      rw [digits_byte_injective hbyte, ih hrest]

theorem rabinFingerprint_ne {s t : Bytes} (hne : s ≠ t) (hlen : s.length = t.length) {k : ℕ}
    (hwindow : ∀ i, (bitString s)[i]? ≠ (bitString t)[i]? → k ≤ i ∧ i < k + 64)
    (charSigned : Bool) : rabinFingerprint charSigned s ≠ rabinFingerprint charSigned t := by
  intro heq
  have hres := residue_rabinFingerprint charSigned s
  rw [heq, residue_rabinFingerprint] at hres
  apply hne
  apply bitString_injective
  have hbits : (bitString s).length = (bitString t).length := by
    rw [length_bitString, length_bitString, hlen]
  exact eq_of_window (by decide) rabinLow (by decide) hbits hwindow hres.symm

/-- The keys of one recipient are as different as the fingerprints. -/
theorem userKey_ne {s t : Bytes} (rcpt : Bytes)
    (h : rabinFingerprint true s ≠ rabinFingerprint true t) :
    Vdb.userKey rcpt s ≠ Vdb.userKey rcpt t := by
  intro hkey
  apply h
  have hhex := List.append_cancel_left hkey
  exact BitVec.eq_of_toNat_eq (Numerals.printHex_injective hhex)

theorem lmdbVdbKey_untruncated {rcpt s : Bytes}
    (h : (bytes "user:" ++ Vdb.userKey rcpt s).length ≤ 512) :
    Vdb.lmdbVdbKey rcpt s = bytes "user:" ++ Vdb.userKey rcpt s := by
  have hcut := Yasl.yaslrange_take (bytes "user:" ++ Vdb.userKey rcpt s) 511
  rw [Nat.cast_ofNat] at hcut
  rw [Vdb.lmdbVdbKey, hcut]
  exact List.take_of_length_le h

/-- Of two senders that differ within 64 consecutive bits, each has a record of its own. -/
theorem nearby_senders {s t : Bytes} (hne : s ≠ t) (hlen : s.length = t.length) {k : ℕ}
    (hwindow : ∀ i, (bitString s)[i]? ≠ (bitString t)[i]? → k ≤ i ∧ i < k + 64) :
    (∀ charSigned, rabinFingerprint charSigned s ≠ rabinFingerprint charSigned t) ∧
      ∀ rcpt, Vdb.redisVdbKey rcpt s ≠ Vdb.redisVdbKey rcpt t ∧
        ((bytes "user:" ++ Vdb.userKey rcpt s).length ≤ 512 →
          (bytes "user:" ++ Vdb.userKey rcpt t).length ≤ 512 →
            Vdb.lmdbVdbKey rcpt s ≠ Vdb.lmdbVdbKey rcpt t) := by
  have hprint := rabinFingerprint_ne hne hlen hwindow
  refine ⟨hprint, fun rcpt => ⟨?_, ?_⟩⟩
  · intro hkey
    exact userKey_ne rcpt (hprint true) (List.append_cancel_left hkey)
  · intro hs ht hkey
    rw [lmdbVdbKey_untruncated hs, lmdbVdbKey_untruncated ht] at hkey
    exact userKey_ne rcpt (hprint true) (List.append_cancel_left hkey)

/-- Two senders of a list, with the 40 bits in which they differ in the middle. -/
def aliceBounce : Bytes := bytes "mailer+alice@example.edu"

def carolBounce : Bytes := bytes "mailer+carol@example.edu"

theorem bounces_length : aliceBounce.length = 24 ∧ carolBounce.length = 24 := by decide +kernel

theorem bounces_bits : ∀ i < 192, (bitString aliceBounce)[i]? ≠ (bitString carolBounce)[i]? →
    56 ≤ i ∧ i < 56 + 64 := by decide +kernel

theorem nearby_senders_bounces :
    (∀ charSigned, rabinFingerprint charSigned aliceBounce ≠
      rabinFingerprint charSigned carolBounce) ∧
      ∀ rcpt, Vdb.redisVdbKey rcpt aliceBounce ≠ Vdb.redisVdbKey rcpt carolBounce ∧
        ((bytes "user:" ++ Vdb.userKey rcpt aliceBounce).length ≤ 512 →
          (bytes "user:" ++ Vdb.userKey rcpt carolBounce).length ≤ 512 →
            Vdb.lmdbVdbKey rcpt aliceBounce ≠ Vdb.lmdbVdbKey rcpt carolBounce) := by
  obtain ⟨halice, hcarol⟩ := bounces_length
  refine nearby_senders (k := 56) (by decide +kernel) (by rw [halice, hcarol]) ?_
  intro i hi
  by_cases hlt : i < 192
  · exact bounces_bits i hlt hi
  · refine absurd ?_ hi
    rw [List.getElem?_eq_none_iff.mpr, List.getElem?_eq_none_iff.mpr]
    all_goals
      rw [length_bitString]
      omega

end Simvacation.Fingerprint
