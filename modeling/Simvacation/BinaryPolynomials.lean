import Mathlib.Data.BitVec
import Mathlib.Algebra.Field.ZMod
import Mathlib.RingTheory.AdjoinRoot

/-!
Polynomials over the field with two elements in binary notation. A number stands
for the polynomial whose coefficients are its binary digits, a list of digits is
written with the highest one first, and exclusive or is addition. A machine word
is a remainder: `mulX` multiplies it by the variable and subtracts the modulus
if a digit is carried out.
-/

namespace Simvacation.BinaryPolynomials

open Polynomial

abbrev Gf2 := ZMod 2

/-- The polynomial of a number. -/
noncomputable def poly (n : ℕ) : Gf2[X] :=
  ∑ i ∈ Finset.range n, if n.testBit i then X ^ i else 0

theorem coeff_poly (n i : ℕ) : (poly n).coeff i = if n.testBit i then 1 else 0 := by
  have hterm : ∀ j, (if n.testBit j then (X : Gf2[X]) ^ j else 0).coeff i =
      if j = i then (if n.testBit i then 1 else 0) else 0 := by
    intro j
    by_cases hj : j = i
    · subst hj
      by_cases hbit : n.testBit j <;> simp [hbit]
    · by_cases hbit : n.testBit j
      · simp [hbit, coeff_X_pow, hj, Ne.symm hj]
      · simp [hbit, hj]
  rw [poly, finsetSum_coeff]
  simp only [hterm, Finset.sum_ite_eq', Finset.mem_range]
  by_cases hbit : n.testBit i
  · have hle : 2 ^ i ≤ n := Nat.ge_two_pow_of_testBit hbit
    have hlt : i < n := lt_of_lt_of_le Nat.lt_two_pow_self hle
    rw [if_pos hlt]
  · simp [hbit]

theorem poly_injective : Function.Injective poly := by
  intro a b h
  apply Nat.eq_of_testBit_eq
  intro i
  have hcoeff := congrArg (coeff · i) h
  simp only [coeff_poly] at hcoeff
  revert hcoeff
  cases a.testBit i <;> cases b.testBit i <;> simp

theorem poly_xor (a b : ℕ) : poly (a ^^^ b) = poly a + poly b := by
  ext i
  rw [coeff_add, coeff_poly, coeff_poly, coeff_poly, Nat.testBit_xor]
  cases a.testBit i <;> cases b.testBit i <;> decide

theorem poly_shiftLeft (n k : ℕ) : poly (n <<< k) = X ^ k * poly n := by
  ext i
  rw [coeff_poly, coeff_X_pow_mul', Nat.testBit_shiftLeft]
  by_cases h : k ≤ i <;> simp [h, coeff_poly]

/-- The low digits and the others. -/
theorem poly_split (n k : ℕ) : poly n = poly (n % 2 ^ k) + X ^ k * poly (n >>> k) := by
  ext i
  rw [coeff_add, coeff_X_pow_mul', coeff_poly, coeff_poly, coeff_poly, Nat.testBit_mod_two_pow,
    Nat.testBit_shiftRight]
  by_cases h : k ≤ i
  · simp [h, Nat.not_lt.mpr h, Nat.add_sub_cancel' h]
  · simp [h, Nat.not_le.mp h]

/-- A number in base `2 ^ b`. -/
theorem poly_chunks (b : ℕ) {k n : ℕ} (h : n < 2 ^ (b * k)) :
    poly n = ∑ j ∈ Finset.range k, X ^ (b * j) * poly ((n >>> (b * j)) % 2 ^ b) := by
  induction k generalizing n with
  | zero =>
    have hzero : n = 0 := by simpa using h
    simp [hzero, poly]
  | succ k ih =>
    have hhigh : n >>> b < 2 ^ (b * k) := by
      rw [Nat.shiftRight_eq_div_pow]
      apply Nat.div_lt_of_lt_mul
      rwa [← pow_add, Nat.add_comm, ← Nat.mul_succ]
    have hterm : ∀ j, (X : Gf2[X]) ^ b * (X ^ (b * j) * poly (((n >>> b) >>> (b * j)) % 2 ^ b)) =
        X ^ (b * (j + 1)) * poly ((n >>> (b * (j + 1))) % 2 ^ b) := by
      intro j
      rw [← mul_assoc, ← pow_add, ← Nat.shiftRight_add, Nat.mul_succ, Nat.add_comm]
    rw [poly_split n b, ih hhigh, Finset.sum_range_succ', Finset.mul_sum, add_comm]
    simp only [hterm, mul_zero, pow_zero, one_mul, Nat.shiftRight_zero]

theorem degree_poly_lt {n k : ℕ} (h : n < 2 ^ k) : (poly n).degree < k := by
  rw [degree_lt_iff_coeff_zero]
  intro i hi
  have hlt : n < 2 ^ i := lt_of_lt_of_le h (Nat.pow_le_pow_right (by decide) hi)
  rw [coeff_poly, Nat.testBit_lt_two_pow hlt]
  rfl

theorem poly_zero : poly 0 = 0 := by
  ext i
  simp [coeff_poly]

theorem poly_one : poly 1 = 1 := by
  ext i
  rw [coeff_poly, coeff_one]
  cases i <;> simp [Nat.testBit_succ]

/-- The polynomial of a list of digits, the highest one first. -/
noncomputable def digitsPoly (digits : List Bool) : Gf2[X] :=
  digits.foldl (fun p b => X * p + poly b.toNat) 0

theorem digitsPoly_nil : digitsPoly [] = 0 := rfl

theorem digitsPoly_concat (digits : List Bool) (b : Bool) :
    digitsPoly (digits ++ [b]) = X * digitsPoly digits + poly b.toNat := by
  rw [digitsPoly, List.foldl_append]
  rfl

theorem digitsPoly_append (digits digits' : List Bool) :
    digitsPoly (digits ++ digits') =
      X ^ digits'.length * digitsPoly digits + digitsPoly digits' := by
  induction digits' using List.reverseRecOn with
  | nil => simp [digitsPoly_nil]
  | append_singleton digits' b ih =>
    rw [← List.append_assoc, digitsPoly_concat, ih, digitsPoly_concat, List.length_append,
      List.length_singleton]
    ring

theorem coeff_digitsPoly (digits : List Bool) (i : ℕ) :
    (digitsPoly digits).coeff i = if digits.reverse.getD i false then 1 else 0 := by
  induction digits using List.reverseRecOn generalizing i with
  | nil => simp [digitsPoly_nil]
  | append_singleton digits b ih =>
    rw [digitsPoly_concat, coeff_add, coeff_poly, List.reverse_append]
    cases i with
    | zero => cases b <;> simp
    | succ i =>
      rw [coeff_X_mul, ih]
      cases b <;> simp [Nat.testBit_succ]

theorem degree_digitsPoly_lt (digits : List Bool) : (digitsPoly digits).degree < digits.length := by
  rw [degree_lt_iff_coeff_zero]
  intro i hi
  have hnone : digits.reverse[i]? = none := by
    rw [List.getElem?_eq_none_iff, List.length_reverse]
    exact hi
  rw [coeff_digitsPoly, List.getD_eq_getElem?_getD, hnone]
  rfl

/-- Digits are determined by their number and their polynomial. -/
theorem digitsPoly_inj {digits digits' : List Bool} (hlen : digits.length = digits'.length)
    (h : digitsPoly digits = digitsPoly digits') : digits = digits' := by
  apply List.reverse_injective
  apply List.ext_getElem (by rw [List.length_reverse, List.length_reverse, hlen])
  intro i hi hi'
  have hcoeff := congrArg (coeff · i) h
  simp only [coeff_digitsPoly, List.getD_eq_getElem?_getD, List.getElem?_eq_getElem hi,
    List.getElem?_eq_getElem hi', Option.getD_some] at hcoeff
  revert hcoeff
  generalize digits.reverse[i] = a
  generalize digits'.reverse[i] = b
  cases a <;> cases b <;> simp

/-- Multiplication by the variable, in words of `w` digits, modulo the polynomial
`X ^ w + poly low`. -/
def mulX {w : ℕ} (low v : BitVec w) : BitVec w := (v <<< 1) ^^^ if v.msb then low else 0#w

/-- The lowest `k` binary digits of a number. -/
def digits (k n : ℕ) : List Bool := ((List.range k).map n.testBit).reverse

theorem digitsPoly_digits {k n : ℕ} (h : n < 2 ^ k) : digitsPoly (digits k n) = poly n := by
  ext i
  rw [coeff_digitsPoly, coeff_poly, digits, List.reverse_reverse, List.getD_eq_getElem?_getD]
  by_cases hi : i < k
  · simp [hi]
  · have hlt : n < 2 ^ i := lt_of_lt_of_le h (Nat.pow_le_pow_right (by decide) (Nat.not_lt.mp hi))
    simp [hi, Nat.testBit_lt_two_pow hlt]

section Words

variable {w : ℕ}

noncomputable def wordPoly (v : BitVec w) : Gf2[X] := poly v.toNat

noncomputable def modulus (low : BitVec w) : Gf2[X] := X ^ w + wordPoly low

theorem degree_wordPoly_lt (v : BitVec w) : (wordPoly v).degree < w := degree_poly_lt v.isLt

theorem monic_modulus (low : BitVec w) : (modulus low).Monic :=
  monic_X_pow_add (degree_wordPoly_lt low)

theorem degree_modulus (low : BitVec w) : (modulus low).degree = w := by
  rw [modulus, degree_add_eq_left_of_degree_lt, degree_X_pow]
  rw [degree_X_pow]
  exact degree_wordPoly_lt low

theorem wordPoly_injective : Function.Injective (wordPoly : BitVec w → Gf2[X]) :=
  fun _ _ h => BitVec.eq_of_toNat_eq (poly_injective h)

theorem wordPoly_xor (u v : BitVec w) : wordPoly (u ^^^ v) = wordPoly u + wordPoly v := by
  rw [wordPoly, BitVec.toNat_xor, poly_xor]
  rfl

/-- One step of the multiplication takes the modulus away at most once. -/
theorem wordPoly_mulX (hw : 0 < w) (low v : BitVec w) :
    X * wordPoly v = wordPoly (mulX low v) + if v.msb then modulus low else 0 := by
  have hcarry : (v.toNat <<< 1) >>> w = v.msb.toNat := by
    rw [Nat.shiftRight_eq_div_pow, Nat.shiftLeft_eq, pow_one, BitVec.msb_eq_decide]
    have hpow : 2 ^ w = 2 ^ (w - 1) * 2 := by
      rw [← pow_succ, Nat.sub_add_cancel hw]
    rw [hpow, Nat.mul_div_mul_right _ _ (by decide)]
    have hlt : v.toNat < 2 ^ (w - 1) * 2 := hpow ▸ v.isLt
    by_cases h : 2 ^ (w - 1) ≤ v.toNat
    · rw [decide_eq_true h, Bool.toNat_true]
      exact Nat.div_eq_of_lt_le (by omega) (by omega)
    · rw [decide_eq_false h]
      exact Nat.div_eq_of_lt (by omega)
  have hshift : X * wordPoly v = wordPoly (v <<< 1) + X ^ w * poly v.msb.toNat := by
    rw [wordPoly, wordPoly, BitVec.toNat_shiftLeft, ← hcarry, ← poly_split, poly_shiftLeft,
      pow_one]
  rw [hshift, mulX, wordPoly_xor]
  have hself : wordPoly low + wordPoly low = 0 := CharTwo.add_self_eq_zero _
  cases v.msb with
  | false => simp [poly_zero, wordPoly]
  | true =>
    simp only [Bool.toNat_true, poly_one, ite_true, modulus]
    linear_combination -hself

/-- The remainder that a word stands for. -/
noncomputable def residue (low v : BitVec w) : AdjoinRoot (modulus low) :=
  AdjoinRoot.mk (modulus low) (wordPoly v)

theorem residue_xor (low u v : BitVec w) :
    residue low (u ^^^ v) = residue low u + residue low v := by
  rw [residue, wordPoly_xor, map_add]
  rfl

theorem residue_zero (low : BitVec w) : residue low 0#w = 0 := by
  rw [residue, wordPoly, BitVec.toNat_ofNat, Nat.zero_mod, poly_zero, map_zero]

theorem residue_mulX (hw : 0 < w) (low v : BitVec w) :
    residue low (mulX low v) = AdjoinRoot.root (modulus low) * residue low v := by
  have hstep := congrArg (AdjoinRoot.mk (modulus low)) (wordPoly_mulX hw low v)
  rw [map_mul, map_add, AdjoinRoot.mk_X] at hstep
  rw [residue, residue, hstep]
  cases v.msb <;> simp

theorem residue_mulX_iterate (hw : 0 < w) (low v : BitVec w) (k : ℕ) :
    residue low ((mulX low)^[k] v) = AdjoinRoot.root (modulus low) ^ k * residue low v := by
  induction k with
  | zero => simp
  | succ k ih =>
    rw [Function.iterate_succ_apply', residue_mulX hw, ih]
    ring

/-- A word is the remainder of every polynomial in its class. -/
theorem wordPoly_eq_modByMonic {low v : BitVec w} {p : Gf2[X]}
    (h : AdjoinRoot.mk (modulus low) p = residue low v) : wordPoly v = p %ₘ modulus low := by
  obtain ⟨q, hq⟩ := AdjoinRoot.mk_eq_mk.mp h
  have hdeg : (wordPoly v).degree < (modulus low).degree := by
    rw [degree_modulus]
    exact degree_wordPoly_lt v
  refine ((div_modByMonic_unique q (wordPoly v) (monic_modulus low) ⟨?_, hdeg⟩).2).symm
  rw [← hq]
  ring

/-- The low part of the modulus is the power that it stands in for. -/
theorem residue_low (low : BitVec w) :
    residue low low = AdjoinRoot.root (modulus low) ^ w := by
  have hzero : AdjoinRoot.mk (modulus low) (X ^ w + wordPoly low) = 0 := AdjoinRoot.mk_self
  have hself : residue low low + residue low low = 0 := by
    rw [← residue_xor, BitVec.xor_self, residue_zero]
  rw [map_add, map_pow, AdjoinRoot.mk_X] at hzero
  change AdjoinRoot.root (modulus low) ^ w + residue low low = 0 at hzero
  linear_combination hself - hzero

/-- The multiples of a word by the polynomials of the numbers below `2 ^ k`. -/
def multiples (low v : BitVec w) : ℕ → List (BitVec w)
  | 0 => [0#w]
  | k + 1 => (multiples low v k).flatMap fun u => [mulX low u, mulX low u ^^^ v]

theorem getElem?_flatMap_pair {α β : Type*} (f g : α → β) (l : List α) (i : ℕ) :
    (l.flatMap fun u => [f u, g u])[i]? = l[i / 2]?.map (if i % 2 = 0 then f else g) := by
  induction l generalizing i with
  | nil => rfl
  | cons u l ih =>
    rcases i with _ | _ | i
    · rfl
    · rfl
    · have hhalf : (i + 1 + 1) / 2 = i / 2 + 1 := by omega
      have hmod : (i + 1 + 1) % 2 = i % 2 := by omega
      rw [hhalf, hmod, List.getElem?_cons_succ, ← ih i]
      rfl

/-- An entry follows from that of half its number. -/
theorem residue_multiples (hw : 0 < w) (low v : BitVec w) {k n : ℕ} (hn : n < 2 ^ k) :
    ∃ u, (multiples low v k)[n]? = some u ∧
      residue low u = AdjoinRoot.mk (modulus low) (poly n) * residue low v := by
  induction k generalizing n with
  | zero =>
    have hzero : n = 0 := by simpa using hn
    exact ⟨0#w, by rw [hzero]; rfl, by rw [hzero, residue_zero, poly_zero, map_zero, zero_mul]⟩
  | succ k ih =>
    obtain ⟨u, hu, hres⟩ := ih (n := n / 2) (by omega)
    have hsplit := congrArg (AdjoinRoot.mk (modulus low)) (poly_split n 1)
    rw [pow_one, pow_one, Nat.shiftRight_one, map_add, map_mul, AdjoinRoot.mk_X] at hsplit
    rw [multiples, getElem?_flatMap_pair, hu, hsplit]
    rcases Nat.mod_two_eq_zero_or_one n with heven | hodd
    · refine ⟨mulX low u, by rw [heven]; rfl, ?_⟩
      rw [residue_mulX hw, hres, heven, poly_zero, map_zero]
      ring
    · refine ⟨mulX low u ^^^ v, by rw [hodd]; rfl, ?_⟩
      rw [residue_xor, residue_mulX hw, hres, hodd, poly_one, map_one]
      ring

/-- Digit by digit, the remainder of a string of digits. -/
def remainder (low : BitVec w) (digits : List Bool) : BitVec w :=
  digits.foldl (fun v b => mulX low v ^^^ if b then 1#w else 0#w) 0#w

theorem residue_remainder (hw : 0 < w) (low : BitVec w) (digits : List Bool) :
    residue low (remainder low digits) = AdjoinRoot.mk (modulus low) (digitsPoly digits) := by
  have hbit : ∀ b : Bool, wordPoly (if b then 1#w else 0#w) = poly b.toNat := by
    intro b
    cases b with
    | false => simp [wordPoly]
    | true => simp [wordPoly, Nat.one_mod_two_pow hw]
  induction digits using List.reverseRecOn with
  | nil => simp [remainder, residue, wordPoly, poly_zero, digitsPoly_nil]
  | append_singleton digits b ih =>
    have hstep : remainder low (digits ++ [b]) =
        mulX low (remainder low digits) ^^^ if b then 1#w else 0#w := by
      rw [remainder, List.foldl_append]
      rfl
    rw [hstep, residue_xor, residue_mulX hw, ih, digitsPoly_concat, map_add, map_mul,
      AdjoinRoot.mk_X, residue, hbit]

/-- With a constant term the modulus has no factor in common with the variable. -/
theorem isCoprime_modulus_X (hw : 0 < w) {low : BitVec w} (hodd : low.toNat.testBit 0 = true) :
    IsCoprime (modulus low) X := by
  have hcoeff : (modulus low).coeff 0 = 1 := by
    rw [modulus, wordPoly, coeff_add, coeff_X_pow, coeff_poly, hodd, if_neg hw.ne, if_pos rfl,
      zero_add]
  obtain ⟨q, hq⟩ := X_dvd_sub_C (p := modulus low)
  rw [hcoeff, map_one] at hq
  exact ⟨1, -q, by linear_combination hq⟩

/-- The modulus divides no polynomial whose terms lie within `w` powers. -/
theorem eq_zero_of_modulus_dvd (hw : 0 < w) {low : BitVec w} (hodd : low.toNat.testBit 0 = true)
    {m : ℕ} {d : Gf2[X]} (hd : d.degree < w) (h : modulus low ∣ X ^ m * d) : d = 0 := by
  have hdvd : modulus low ∣ d := (isCoprime_modulus_X hw hodd).pow_right.dvd_of_dvd_mul_left h
  by_contra hne
  exact (monic_modulus low).not_dvd_of_degree_lt hne (by rwa [degree_modulus]) hdvd

/-- Strings of digits that differ only within `w` places have different remainders. -/
theorem eq_of_window (hw : 0 < w) (low : BitVec w) (hodd : low.toNat.testBit 0 = true)
    {p q : List Bool} (hlen : p.length = q.length) {k : ℕ}
    (hwindow : ∀ i, p[i]? ≠ q[i]? → k ≤ i ∧ i < k + w)
    (h : AdjoinRoot.mk (modulus low) (digitsPoly p) = AdjoinRoot.mk (modulus low) (digitsPoly q)) :
    p = q := by
  have hbefore : p.take k = q.take k := by
    apply List.ext_getElem?
    intro i
    rw [List.getElem?_take, List.getElem?_take]
    by_cases hi : i < k
    · rw [if_pos hi, if_pos hi]
      by_contra hne
      exact absurd (hwindow i hne).1 (by omega)
    · rw [if_neg hi, if_neg hi]
  have hafter : (p.drop k).drop w = (q.drop k).drop w := by
    apply List.ext_getElem?
    intro i
    rw [List.drop_drop, List.drop_drop, List.getElem?_drop, List.getElem?_drop]
    by_contra hne
    exact absurd (hwindow _ hne).2 (by omega)
  have hparts : ∀ l : List Bool, l = l.take k ++ ((l.drop k).take w ++ (l.drop k).drop w) := by
    intro l
    rw [List.take_append_drop, List.take_append_drop]
  have hinner : ((p.drop k).take w).length = ((q.drop k).take w).length := by
    simp only [List.length_take, List.length_drop, hlen]
  have hdegree : ∀ l : List Bool, (digitsPoly ((l.drop k).take w)).degree < w := by
    intro l
    apply (degree_digitsPoly_lt _).trans_le
    exact_mod_cast List.length_take_le _ _
  have hzero : digitsPoly ((p.drop k).take w) - digitsPoly ((q.drop k).take w) = 0 := by
    apply eq_zero_of_modulus_dvd hw hodd (m := ((q.drop k).drop w).length)
    · exact (degree_sub_le _ _).trans_lt (max_lt (hdegree p) (hdegree q))
    · have hdvd := AdjoinRoot.mk_eq_mk.mp h
      rw [hparts p, hparts q, hbefore, hafter] at hdvd
      simp only [digitsPoly_append, List.length_append, hinner] at hdvd
      convert hdvd using 1
      ring
  have hwords := digitsPoly_inj hinner (sub_eq_zero.mp hzero)
  rw [hparts p, hparts q, hbefore, hafter, hwords]

theorem residue_injective (low : BitVec w) : Function.Injective (residue low) := by
  intro u v h
  have hu : wordPoly u = wordPoly v %ₘ modulus low := wordPoly_eq_modByMonic h.symm
  have hv : wordPoly v = wordPoly v %ₘ modulus low := wordPoly_eq_modByMonic rfl
  exact wordPoly_injective (hu.trans hv.symm)

/-- A power of the variable can be cancelled. -/
theorem mk_X_pow_mul_inj (hw : 0 < w) {low : BitVec w} (hodd : low.toNat.testBit 0 = true) (k : ℕ)
    {p q : Gf2[X]} : AdjoinRoot.mk (modulus low) (X ^ k * p) =
      AdjoinRoot.mk (modulus low) (X ^ k * q) ↔
        AdjoinRoot.mk (modulus low) p = AdjoinRoot.mk (modulus low) q := by
  rw [AdjoinRoot.mk_eq_mk, AdjoinRoot.mk_eq_mk, ← mul_sub]
  constructor
  · exact (isCoprime_modulus_X hw hodd).pow_right.dvd_of_dvd_mul_left
  · intro h
    exact h.mul_left _

/-- Below the degree of the modulus every class has one polynomial. -/
theorem mk_inj_of_degree_lt (hw : 0 < w) {low : BitVec w} (hodd : low.toNat.testBit 0 = true)
    {p q : Gf2[X]} (hp : p.degree < w) (hq : q.degree < w)
    (h : AdjoinRoot.mk (modulus low) p = AdjoinRoot.mk (modulus low) q) : p = q := by
  apply sub_eq_zero.mp
  apply eq_zero_of_modulus_dvd hw hodd (m := 0)
  · exact (degree_sub_le _ _).trans_lt (max_lt hp hq)
  · rw [pow_zero, one_mul]
    exact AdjoinRoot.mk_eq_mk.mp h

end Words

end Simvacation.BinaryPolynomials
