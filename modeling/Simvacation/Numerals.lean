import Simvacation.CString
import Mathlib.Data.Nat.Digits.Lemmas
import Mathlib.Tactic.Linarith

/-!
Numbers as text and as bytes: what `printf` writes for an unsigned number in a
base up to sixteen, what it writes for a signed decimal, what `strtoll` reads
back, and the little-endian bytes of a 64-bit value.
-/

namespace Simvacation.Numerals

open CString

/-- The character of a digit, in lower case. -/
def digitChar (d : ℕ) : UInt8 := if d < 10 then UInt8.ofNat (48 + d) else UInt8.ofNat (87 + d)

def printBase (b n : ℕ) : Bytes :=
  if n = 0 then [48] else ((Nat.digits b n).map digitChar).reverse

def printHex (n : ℕ) : Bytes := printBase 16 n

/-- The text of `%lld`. -/
def printInt (n : ℤ) : Bytes :=
  if n < 0 then 45 :: printBase 10 n.natAbs else printBase 10 n.natAbs

theorem digitChar_spec : ∀ d < 16, isxdigit (digitChar d) = true ∧ digitChar d ≠ 58 ∧
    digitChar d ≠ 0 ∧ digitChar d ≠ lf := by decide

theorem mem_printBase {b n : ℕ} (hb : 1 < b) (hb' : b ≤ 16) {c : UInt8} (h : c ∈ printBase b n) :
    ∃ d < b, c = digitChar d := by
  unfold printBase at h
  by_cases hn : n = 0
  · rw [if_pos hn, List.mem_singleton] at h
    exact ⟨0, by omega, h⟩
  · rw [if_neg hn, List.mem_reverse, List.mem_map] at h
    obtain ⟨d, hd, rfl⟩ := h
    exact ⟨d, Nat.digits_lt_base hb hd, rfl⟩

/-- The characters of a printed number are hexadecimal digits. -/
theorem isxdigit_of_mem_printHex {n : ℕ} {c : UInt8} (h : c ∈ printHex n) :
    isxdigit c = true := by
  obtain ⟨d, hd, rfl⟩ := mem_printBase (by omega) (le_refl 16) h
  exact (digitChar_spec d hd).1

theorem notMem_printHex {n : ℕ} {c : UInt8} (h : isxdigit c = false) : c ∉ printHex n := by
  intro hc
  rw [isxdigit_of_mem_printHex hc] at h
  contradiction

theorem printBase_ne_nil (b n : ℕ) : printBase b n ≠ [] := by
  unfold printBase
  by_cases hn : n = 0
  · simp [hn]
  · simp [hn, Nat.digits_ne_nil_iff_ne_zero]

def digitValue (c : UInt8) : ℕ := if isdigit c then c.toNat - 48 else c.toNat - 87

def readBase (b : ℕ) (s : Bytes) : ℕ := s.foldl (fun n c => n * b + digitValue c) 0

/-- The value of the longest decimal numeral in front, within the range of `long long`. -/
def strtoll (s : Bytes) : ℤ :=
  let s := s.dropWhile isspace
  let negative := s.head? = some 45
  let digits := if s.head? = some 45 || s.head? = some 43 then s.drop 1 else s
  let n : ℤ := readBase 10 (digits.takeWhile isdigit)
  max (-2 ^ 63) (min (if negative then -n else n) (2 ^ 63 - 1))

theorem digitValue_digitChar : ∀ d < 16, digitValue (digitChar d) = d := by decide

/-- A printed number is read back. -/
theorem readBase_printBase {b : ℕ} (hb : 1 < b) (hb' : b ≤ 16) (n : ℕ) :
    readBase b (printBase b n) = n := by
  have hdigits : ∀ l : List ℕ, (∀ d ∈ l, d < b) →
      readBase b (l.map digitChar).reverse = Nat.ofDigits b l := by
    intro l hl
    induction l with
    | nil => rfl
    | cons d l ih =>
      have ih' := ih fun e he => hl e (List.mem_cons_of_mem d he)
      unfold readBase at ih' ⊢
      have hd : d < b := hl d List.mem_cons_self
      rw [List.map_cons, List.reverse_cons, List.foldl_append, ih', Nat.ofDigits_cons]
      simp only [List.foldl_cons, List.foldl_nil, digitValue_digitChar d (by omega)]
      rw [Nat.mul_comm, Nat.add_comm]
  unfold printBase
  by_cases hn : n = 0
  · rw [if_pos hn, hn]
    simp [readBase, digitValue, isdigit]
  · rw [if_neg hn, hdigits _ fun d hd => Nat.digits_lt_base hb hd, Nat.ofDigits_digits]

theorem printHex_injective : Function.Injective printHex := by
  intro n m h
  have hread := congrArg (readBase 16) h
  rwa [printHex, printHex, readBase_printBase (by omega) (le_refl 16),
    readBase_printBase (by omega) (le_refl 16)] at hread

theorem length_printBase_le {b n k : ℕ} (hb : 1 < b) (hk : 0 < k) (hn : n < b ^ k) :
    (printBase b n).length ≤ k := by
  unfold printBase
  by_cases h0 : n = 0
  · rw [if_pos h0, List.length_singleton]
    exact hk
  · rw [if_neg h0, List.length_reverse, List.length_map]
    exact (Nat.digits_length_le_iff hb n).mpr hn

/-- A non-negative number survives being printed and read. -/
theorem strtoll_printInt {n : ℤ} (h : 0 ≤ n) (hlt : n < 2 ^ 63) : strtoll (printInt n) = n := by
  have hprint : printInt n = printBase 10 n.natAbs := if_neg (by omega)
  have hdigit : ∀ d < 10, isdigit (digitChar d) = true ∧ isspace (digitChar d) = false ∧
      digitChar d ≠ 45 ∧ digitChar d ≠ 43 := by decide
  have hall : ∀ c ∈ printBase 10 n.natAbs, isdigit c = true ∧ isspace c = false ∧
      c ≠ 45 ∧ c ≠ 43 := by
    intro c hc
    obtain ⟨d, hd, rfl⟩ := mem_printBase (by omega) (by omega) hc
    exact hdigit d hd
  have hread : (readBase 10 (printBase 10 n.natAbs) : ℤ) = n := by
    rw [readBase_printBase (by omega) (by omega)]
    omega
  have htake : (printBase 10 n.natAbs).takeWhile isdigit = printBase 10 n.natAbs :=
    List.takeWhile_eq_self_iff.mpr fun c hc => (hall c hc).1
  obtain ⟨c, s, hcs⟩ := List.exists_cons_of_ne_nil (printBase_ne_nil 10 n.natAbs)
  obtain ⟨-, hspace, hminus, hplus⟩ := hall c (by simp [hcs])
  have hdrop : (printBase 10 n.natAbs).dropWhile isspace = printBase 10 n.natAbs := by
    rw [hcs, List.dropWhile_cons_of_neg (by simp [hspace])]
  have hhead : (printBase 10 n.natAbs).head? = some c := by rw [hcs, List.head?_cons]
  unfold strtoll
  simp only [hprint, hdrop, hhead, Option.some_inj, hminus, hplus, decide_false, Bool.or_self,
    Bool.false_eq_true, ite_false, htake, hread]
  omega

/-- The bytes of a 64-bit value in memory, lowest first. -/
def toBytes64 (t : ℤ) : Bytes :=
  let n := (t % 2 ^ 64).toNat
  (List.range 8).map fun i => UInt8.ofNat (n / 256 ^ i)

def ofBytes64 (s : Bytes) : ℤ :=
  Int.bmod ((Nat.ofDigits 256 (s.map UInt8.toNat) : ℕ) : ℤ) (2 ^ 64)

theorem toBytes64_length (t : ℤ) : (toBytes64 t).length = 8 := by
  simp [toBytes64]

/-- The low digits of a number. -/
theorem ofDigits_range (b n k : ℕ) :
    Nat.ofDigits b ((List.range k).map fun i => n / b ^ i % b) = n % b ^ k := by
  induction k with
  | zero => simp [Nat.mod_one]
  | succ k ih =>
    rw [List.range_succ, List.map_append, Nat.ofDigits_append, ih, List.length_map,
      List.length_range, List.map_singleton, Nat.ofDigits_singleton, ← Nat.mod_pow_succ]

/-- A number comes back as the 64-bit value that has its bytes. -/
theorem ofBytes64_toBytes64_bmod (t : ℤ) : ofBytes64 (toBytes64 t) = Int.bmod t (2 ^ 64) := by
  have hpow : (2 : ℤ) ^ 64 = 18446744073709551616 := by norm_num
  have hnonneg : 0 ≤ t % 2 ^ 64 := Int.emod_nonneg t (by norm_num)
  have hlt64 : t % 2 ^ 64 < 2 ^ 64 := Int.emod_lt_of_pos t (by norm_num)
  obtain ⟨n, hn⟩ := Int.eq_ofNat_of_zero_le hnonneg
  rw [hn, hpow] at hlt64
  have hbytes : Nat.ofDigits 256 ((toBytes64 t).map UInt8.toNat) = n := by
    have htoNat : ∀ i, (UInt8.ofNat (n / 256 ^ i)).toNat = n / 256 ^ i % 256 :=
      fun i => UInt8.toNat_ofNat'
    have hlt : n < 256 ^ 8 := by
      norm_num
      omega
    rw [toBytes64, hn, Int.toNat_natCast, List.map_map]
    simp only [Function.comp_def, htoNat]
    rw [ofDigits_range, Nat.mod_eq_of_lt hlt]
  have hmod := Int.emod_bmod t (2 ^ 64)
  rw [Nat.cast_pow, Nat.cast_ofNat] at hmod
  calc ofBytes64 (toBytes64 t)
      = Int.bmod ((Nat.ofDigits 256 ((toBytes64 t).map UInt8.toNat) : ℕ) : ℤ) (2 ^ 64) := rfl
    _ = Int.bmod (t % 2 ^ 64) (2 ^ 64) := by rw [hbytes, hn]
    _ = Int.bmod t (2 ^ 64) := hmod

theorem ofBytes64_toBytes64 {t : ℤ} (h : -2 ^ 63 ≤ t) (hlt : t < 2 ^ 63) :
    ofBytes64 (toBytes64 t) = t := by
  rw [ofBytes64_toBytes64_bmod]
  exact Int.bmod_eq_of_le (by norm_num; linarith) (by norm_num; linarith)

end Simvacation.Numerals
