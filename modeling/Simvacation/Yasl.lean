import Simvacation.CString
import Mathlib.Tactic.Linarith

/-!
The yasl string functions the program calls. A yasl string stores its length,
so it is the list of its bytes; a function that edits its argument in place is
a function from the old contents to the new ones. Allocation does not fail.
-/

namespace Simvacation.Yasl

open CString

/-- A null pointer gives the empty string. -/
def yaslauto (s : Option Bytes) : Bytes := (s.map cstr).getD []

/-- Indexes are inclusive and count from the end when negative. -/
def yaslrange (str : Bytes) (start stop : ℤ) : Bytes :=
  let len : ℤ := str.length
  if str = [] then [] else
  let start := if start < 0 then max (len + start) 0 else start
  let stop := if stop < 0 then max (len + stop) 0 else stop
  if start > stop then []
  else if start ≥ len then []
  else
    let stop := if stop ≥ len then len - 1 else stop
    let newlen := if start > stop then 0 else stop - start + 1
    (str.drop start.toNat).take newlen.toNat

/-- Both ends lose their bytes in `cset`. The C code asks `strchr`, which also
finds the terminating NUL of `cset`. -/
def yasltrim (str cset : Bytes) : Bytes :=
  (str.dropWhile fun c => c = 0 || cset.contains c).rdropWhile fun c => c = 0 || cset.contains c

def yasltolower (str : Bytes) : Bytes := lower str

/-- The byte `c` becomes the entry of `to` at its first position in `from`. -/
def mapchar (source target : Bytes) (c : UInt8) : UInt8 :=
  match source, target with
  | s :: source, t :: target => if c = s then t else mapchar source target c
  | _, _ => c

def yaslmapchars (str source target : Bytes) (setlen : ℕ) : Bytes :=
  str.map (mapchar (source.take setlen) (target.take setlen))

/-- Appends a C string, which ends at its first NUL. -/
def yaslcat (dest src : Bytes) : Bytes := dest ++ cstr src

def yaslcatlen (dest src : Bytes) (len : ℕ) : Bytes := dest ++ src.take len

def hexDigitToInt (c : UInt8) : UInt8 :=
  if 48 ≤ c && c ≤ 57 then c - 48
  else if 65 ≤ c && c ≤ 70 then c - 65 + 10
  else if 97 ≤ c && c ≤ 102 then c - 97 + 10
  else 0

/-- The byte written for a backslash escape inside double quotes. -/
def unescape (c : UInt8) : UInt8 :=
  if c = 110 then 10 else if c = 114 then 13 else if c = 116 then 9
  else if c = 98 then 8 else if c = 97 then 7 else c

/-- A closing quote must be followed by a space or by nothing at all. -/
def closeQuote (current p : Bytes) : Option (Bytes × Bytes) :=
  match p with
  | [] => some (current, [])
  | c :: _ => if isspace c then some (current, p) else none

/-- The rest of a token inside "double quotes". -/
def doubleQuoted (current : Bytes) : Bytes → Option (Bytes × Bytes)
  | [] => none
  | 92 :: 120 :: a :: b :: p =>
    if isxdigit a && isxdigit b then
      doubleQuoted (current ++ [hexDigitToInt a * 16 + hexDigitToInt b]) p
    else doubleQuoted (current ++ [120]) (a :: b :: p)
  | 92 :: c :: p => doubleQuoted (current ++ [unescape c]) p
  | c :: p => if c = 34 then closeQuote current p else doubleQuoted (current ++ [c]) p

/-- The rest of a token inside 'single quotes'. -/
def singleQuoted (current : Bytes) : Bytes → Option (Bytes × Bytes)
  | [] => none
  | 92 :: 39 :: p => singleQuoted (current ++ [39]) p
  | c :: p => if c = 39 then closeQuote current p else singleQuoted (current ++ [c]) p

/-- The rest of a token outside quotes. A blank that ends it is consumed. -/
def unquoted (current : Bytes) : Bytes → Option (Bytes × Bytes)
  | [] => some (current, [])
  | c :: p =>
    if c = 32 || c = 10 || c = 13 || c = 9 then some (current, p)
    else if c = 34 then doubleQuoted current p
    else if c = 39 then singleQuoted current p
    else unquoted (current ++ [c]) p

/-- The outer loop; every token consumes at least one byte of `line`. -/
def splitTokens : ℕ → Bytes → Option (List Bytes)
  | 0, _ => some []
  | fuel + 1, line =>
    match line.dropWhile isspace with
    | [] => some []
    | p =>
      match unquoted [] p with
      | none => none
      | some (token, rest) => (splitTokens fuel rest).map (token :: ·)

/-- `none` is the null vector returned for unbalanced quotes. -/
def yaslsplitargs (line : Bytes) : Option (List Bytes) := splitTokens (line.length + 1) line

/-- Cutting at an offset keeps what follows it. -/
theorem yaslrange_drop (s : Bytes) (i : ℕ) : yaslrange s i (-1) = s.drop i := by
  unfold yaslrange
  by_cases hs : s = []
  · simp [hs]
  · have hlen : 0 < s.length := List.length_pos_iff.mpr hs
    have hstart : ¬ (i : ℤ) < 0 := by omega
    have hstop : max ((s.length : ℤ) + -1) 0 = s.length - 1 := by omega
    simp only [hs, hstart, ite_false, hstop, show (-1 : ℤ) < 0 by omega, ite_true]
    by_cases hi : (s.length : ℤ) ≤ i
    · have hdrop : s.drop i = [] := List.drop_eq_nil_of_le (by omega)
      rw [if_pos (by omega), hdrop]
    · have hgt : ¬ (i : ℤ) > (s.length : ℤ) - 1 := by omega
      have hclip : ¬ (s.length : ℤ) - 1 ≥ s.length := by omega
      rw [if_neg hgt, if_neg (by omega), if_neg hclip, if_neg hgt]
      apply List.take_of_length_le
      simp only [List.length_drop, Int.toNat_natCast]
      omega

/-- Cutting at a positive end keeps that many bytes and one more. -/
theorem yaslrange_take (s : Bytes) (n : ℕ) : yaslrange s 0 n = s.take (n + 1) := by
  unfold yaslrange
  by_cases hs : s = []
  · simp [hs]
  · have hlen : 0 < s.length := List.length_pos_iff.mpr hs
    simp only [hs, ite_false, show ¬ (0 : ℤ) < 0 by omega, show ¬ (n : ℤ) < 0 by omega,
      show ¬ (0 : ℤ) ≥ s.length by omega]
    by_cases hn : (n : ℤ) ≥ s.length
    · rw [if_pos hn, if_neg (by omega), Int.toNat_zero, List.drop_zero,
        List.take_of_length_le (by omega), List.take_of_length_le (by omega)]
    · rw [if_neg hn, if_neg (by omega), Int.toNat_zero, List.drop_zero]
      congr 1

theorem notMem_yaslrange {s : Bytes} {c : UInt8} (h : c ∉ s) (i j : ℤ) :
    c ∉ yaslrange s i j := by
  unfold yaslrange
  simp only
  split_ifs
  all_goals first
    | exact List.not_mem_nil
    | exact fun hmem => h (List.mem_of_mem_drop (List.mem_of_mem_take hmem))

end Simvacation.Yasl
