import Simvacation.YaslRefine
import Mathlib.Data.List.Lex

/-!
Numbers as yasl strings, and yasl strings in order. `yaslfromlonglong` writes the digits
from the end of a buffer of 32 bytes, the sign last. The order of `yaslcmp` is that of
byte strings.
-/

namespace Simvacation.YaslHeap

open CString Block Numerals

/-- `*p-- = c`. The cells in front of the last one written are those that are left. -/
def storeBack (buf : Bytes) (c : UInt8) : (left : ℕ) → Checked (Bytes × ℕ)
  | 0 => .error .fault
  | left + 1 => do
    let buf ← store buf left c
    .ok (buf, left)

/-- The digits of `v`, the last one first. -/
def digitLoop : (left : ℕ) → Bytes → (v : ℕ) → Checked (Bytes × ℕ)
  | 0, _, _ => .error .fault
  | left + 1, buf, v => do
    let (buf, left') ← storeBack buf (UInt8.ofNat (48 + v % 10)) (left + 1)
    if v / 10 = 0 then .ok (buf, left') else digitLoop left buf (v / 10)

/-- The buffer holds what was on the stack. The least value has no negation. -/
def yaslfromlonglong (m : Malloc) (stack : ℕ → UInt8) (value : ℤ) : Checked Yastrhdr := do
  let v := sizeT (if value < 0 then -value else value).toNat
  let (buf, left) ← digitLoop 32 ((List.range 32).map stack) v
  let (buf, left) ← if value < 0 then storeBack buf 45 left else .ok (buf, left)
  yaslnew m (some (buf.drop left)) (32 - left)

theorem storeBack_append {a : Bytes} (b : Bytes) (c : UInt8) (ha : a ≠ []) :
    storeBack (a ++ b) c a.length = .ok (a.dropLast ++ c :: b, a.length - 1) := by
  obtain ⟨a, d, rfl⟩ := List.eq_nil_or_concat' a |>.resolve_left ha
  rw [List.length_append, List.length_singleton, storeBack, List.append_assoc,
    store_append a (by simp) c]
  simp

/-- The last digit of a number stands behind the digits of its tenth. -/
theorem printBase_ten (v : ℕ) : printBase 10 v =
    (if v / 10 = 0 then [] else printBase 10 (v / 10)) ++ [UInt8.ofNat (48 + v % 10)] := by
  have hchar : digitChar (v % 10) = UInt8.ofNat (48 + v % 10) := if_pos (by omega)
  by_cases hv : v = 0
  · subst hv
    rfl
  · rw [printBase, if_neg hv, Nat.digits_eq_cons_digits_div (by omega) hv, List.map_cons,
      List.reverse_cons, hchar]
    by_cases htenth : v / 10 = 0
    · simp [htenth]
    · rw [if_neg htenth, printBase, if_neg htenth]

theorem digitLoop_append (left : ℕ) {a b : Bytes} {v : ℕ} (ha : a.length = left)
    (hv : (printBase 10 v).length ≤ left) : digitLoop left (a ++ b) v =
      .ok (a.take (left - (printBase 10 v).length) ++ (printBase 10 v ++ b),
        left - (printBase 10 v).length) := by
  induction left generalizing a b v with
  | zero =>
    have hne := List.length_pos_iff.mpr (printBase_ne_nil 10 v)
    omega
  | succ left ih =>
    have hne : a ≠ [] := List.ne_nil_of_length_eq_add_one ha
    have hinit : a.dropLast.length = left := by rw [List.length_dropLast, ha, Nat.add_sub_cancel]
    have hstore := storeBack_append b (UInt8.ofNat (48 + v % 10)) hne
    rw [ha, Nat.add_sub_cancel] at hstore
    have hdigits := printBase_ten v
    rw [digitLoop, hstore, ok_bind]
    by_cases htenth : v / 10 = 0
    · rw [if_pos htenth, List.nil_append] at hdigits
      simp only [htenth, ite_true, hdigits, List.length_singleton, Nat.add_sub_cancel]
      rw [List.dropLast_eq_take, ha, Nat.add_sub_cancel]
      rfl
    · rw [if_neg htenth] at hdigits
      have hlen := congrArg List.length hdigits
      rw [List.length_append, List.length_singleton] at hlen
      have hrest := @ih a.dropLast (UInt8.ofNat (48 + v % 10) :: b) (v / 10) hinit (by omega)
      have hleft : left + 1 - (printBase 10 v).length =
          left - (printBase 10 (v / 10)).length := by omega
      have hkeep : a.dropLast.take (left - (printBase 10 (v / 10)).length) =
          a.take (left - (printBase 10 (v / 10)).length) := by
        rw [List.dropLast_eq_take, List.take_take, ha]
        congr 1
        omega
      simp only [if_neg htenth, hrest, hleft, hkeep]
      rw [hdigits, List.append_assoc, List.singleton_append]

/-- A negative numeral is read back as well. -/
theorem strtoll_minus {n : ℕ} (h : n ≤ 2 ^ 63) : strtoll (45 :: printBase 10 n) = -n := by
  have hdigit : ∀ d < 10, isdigit (digitChar d) = true := by decide
  have htake : (printBase 10 n).takeWhile isdigit = printBase 10 n := by
    refine List.takeWhile_eq_self_iff.mpr fun c hc => ?_
    obtain ⟨d, hd, rfl⟩ := mem_printBase (by omega) (by omega) hc
    exact hdigit d hd
  have hspace : (45 :: printBase 10 n).dropWhile isspace = 45 :: printBase 10 n := by
    rw [List.dropWhile_cons_of_neg (by decide)]
  unfold strtoll
  simp only [hspace, List.head?_cons, decide_true, Bool.true_or, ite_true, List.drop_one,
    List.tail_cons, htake, readBase_printBase (show 1 < 10 by omega) (show 10 ≤ 16 by omega)]
  omega

/-- The numeral of a 64-bit number fits with its sign, and nothing is left behind it. -/
theorem yaslfromlonglong_gives (m : Malloc) (stack : ℕ → UInt8) {value : ℤ}
    (hleast : -2 ^ 63 < value) (hmost : value < 2 ^ 63) :
    Gives (yaslfromlonglong m stack value) (printInt value) := by
  have hv : sizeT (if value < 0 then -value else value).toNat = value.natAbs := by
    rw [sizeT_of_lt] <;> split <;> omega
  have hdigits : (printBase 10 value.natAbs).length ≤ 20 :=
    length_printBase_le (by omega) (by omega) (by omega)
  obtain ⟨a, ha⟩ : ∃ a : Bytes, a = (List.range 32).map stack := ⟨_, rfl⟩
  have hlen : a.length = 32 := by rw [ha, List.length_map, List.length_range]
  have hfits : (printBase 10 value.natAbs).length ≤ 32 := by omega
  have hloop := @digitLoop_append 32 a [] _ hlen hfits
  rw [List.append_nil, List.append_nil] at hloop
  obtain ⟨front, hfront⟩ : ∃ front : Bytes,
      front = a.take (32 - (printBase 10 value.natAbs).length) := ⟨_, rfl⟩
  have hleft : front.length = 32 - (printBase 10 value.natAbs).length := by
    rw [hfront, List.length_take]
    omega
  rw [yaslfromlonglong, hv, ← ha, hloop, ← hfront, ← hleft]
  simp only [ok_bind]
  unfold printInt
  by_cases hneg : value < 0
  · have hne : front ≠ [] := List.ne_nil_of_length_pos (by omega)
    rw [if_pos hneg, if_pos hneg, storeBack_append _ _ hne]
    have hnew := @yaslnew_gives m (45 :: printBase 10 value.natAbs) (32 - (front.length - 1))
      (by omega) (by rw [List.length_cons]; omega)
    have hdrop : (front.dropLast ++ 45 :: printBase 10 value.natAbs).drop (front.length - 1) =
        45 :: printBase 10 value.natAbs := by
      rw [← List.length_dropLast, List.drop_left]
    rw [List.take_of_length_le (by rw [List.length_cons]; omega)] at hnew
    simpa only [ok_bind, hdrop] using hnew
  · rw [if_neg hneg, if_neg hneg]
    have hnew := @yaslnew_gives m (printBase 10 value.natAbs) (32 - front.length)
      (by omega) (by omega)
    rw [List.take_of_length_le (by omega)] at hnew
    simpa only [ok_bind, List.drop_left] using hnew

theorem nul_notMem_printInt (n : ℤ) : 0 ∉ printInt n := by
  have hdigits : 0 ∉ printBase 10 n.natAbs := by
    intro hmem
    obtain ⟨d, hd, heq⟩ := mem_printBase (by omega) (by omega) hmem
    exact (digitChar_spec d (by omega)).2.2.1 heq.symm
  unfold printInt
  split
  · simpa using hdigits
  · exact hdigits

theorem strtoll_of_printInt {value : ℤ} (hleast : -2 ^ 63 < value) (hmost : value < 2 ^ 63) :
    strtoll (printInt value) = value := by
  rcases lt_or_ge value 0 with hneg | hpos
  · rw [printInt, if_pos hneg, strtoll_minus (by omega)]
    omega
  · exact strtoll_printInt hpos hmost

/-- Every number but the least comes back from its string, whatever the buffer held. -/
theorem yaslfromlonglong_spec (m : Malloc) (stack : ℕ → UInt8) {value : ℤ}
    (hleast : -2 ^ 63 < value) (hmost : value < 2 ^ 63) :
    yaslfromlonglong m stack value = .error .null ∨
      ∃ str, yaslfromlonglong m stack value = .ok str ∧ Holds str (printInt value) ∧
        strtoll (cstr str.buf) = value := by
  rcases yaslfromlonglong_gives m stack hleast hmost with hnull | ⟨str, hok, hholds⟩
  · exact Or.inl hnull
  · refine Or.inr ⟨str, hok, hholds, ?_⟩
    obtain ⟨rest, hbuf, -⟩ := hholds.buf
    rw [hbuf, cstr_append_zero, cstr_eq_self (nul_notMem_printInt value),
      strtoll_of_printInt hleast hmost]

theorem yaslfromlonglong_spec_negative :
    ∃ str, yaslfromlonglong plenty (fun _ => 120) (-907) = .ok str ∧
      Holds str (bytes "-907") ∧ strtoll (cstr str.buf) = -907 := by
  have hspec := @yaslfromlonglong_spec plenty (fun _ => 120) (-907) (by decide) (by decide)
  have htext : printInt (-907) = bytes "-907" := by decide +kernel
  rw [htext] at hspec
  exact hspec.resolve_left (by decide +kernel)

/-- `memcmp` is a parameter, with the sign of its result as the standard has it. -/
def yaslcmp (memcmp : Bytes → Bytes → ℤ) (str1 str2 : Yastrhdr) : Checked ℤ := do
  let minlen := if str1.len < str2.len then str1.len else str2.len
  let s ← read str1.buf 0 minlen
  let t ← read str2.buf 0 minlen
  let cmp := memcmp s t
  if cmp = 0 then
    .ok ((if str2.len < str1.len then 1 else 0) - if str1.len < str2.len then 1 else 0)
  else .ok cmp

theorem append_lt_append_iff {a b : Bytes} (h : a.length = b.length) (c d : Bytes) :
    a ++ c < b ++ d ↔ a < b ∨ a = b ∧ c < d := by
  induction a generalizing b with
  | nil =>
    rw [List.length_nil] at h
    rw [List.eq_nil_of_length_eq_zero h.symm]
    simp
  | cons x a ih =>
    cases b with
    | nil => exact absurd h (by simp)
    | cons y b =>
      have hrest := ih (Nat.succ.inj h)
      simp only [List.cons_append, List.cons_lt_cons_iff, hrest, List.cons.injEq]
      rw [and_or_left, ← or_assoc, and_assoc]

theorem lt_iff_length_lt {a b : Bytes} (h : a = [] ∨ b = []) : a < b ↔ a.length < b.length := by
  rcases h with rfl | rfl
  · cases b <;> simp
  · simp

theorem Holds.read_prefix {str : Yastrhdr} {s : Bytes} (h : Holds str s) {n : ℕ}
    (hn : n ≤ s.length) : read str.buf 0 n = .ok (s.take n) := by
  obtain ⟨rest, hbuf, -⟩ := h.buf
  rw [hbuf, read_zero (by rw [List.length_append]; omega), List.take_append_of_le_length hn]

/-- The sign of the result is the order of the strings, byte by byte and then by length. -/
theorem yaslcmp_spec {memcmp : Bytes → Bytes → ℤ} {str1 str2 : Yastrhdr} {s t : Bytes}
    (hmemcmp : ∀ a b : Bytes, a.length = b.length →
      (memcmp a b < 0 ↔ a < b) ∧ (0 < memcmp a b ↔ b < a))
    (h1 : Holds str1 s) (h2 : Holds str2 t) :
    ∃ r, yaslcmp memcmp str1 str2 = .ok r ∧ (r < 0 ↔ s < t) ∧ (0 < r ↔ t < s) := by
  have hmin : (if str1.len < str2.len then str1.len else str2.len) = min s.length t.length := by
    rw [h1.len, h2.len]
    split <;> omega
  obtain ⟨n, hn⟩ : ∃ n, n = min s.length t.length := ⟨_, rfl⟩
  have hlen : (s.take n).length = (t.take n).length := by
    rw [List.length_take, List.length_take]
    omega
  obtain ⟨hless, hmore⟩ := hmemcmp _ _ hlen
  have hst := append_lt_append_iff hlen (s.drop n) (t.drop n)
  have hts := append_lt_append_iff hlen.symm (t.drop n) (s.drop n)
  rw [List.take_append_drop, List.take_append_drop] at hst hts
  rw [yaslcmp, hmin, ← hn, h1.read_prefix (by omega), ok_bind, h2.read_prefix (by omega), ok_bind,
    h1.len, h2.len]
  by_cases hcmp : memcmp (s.take n) (t.take n) = 0
  · have heq : s.take n = t.take n := by
      have hnot : ¬ s.take n < t.take n ∧ ¬ t.take n < s.take n :=
        ⟨fun h => (hless.mpr h).ne hcmp, fun h => (hmore.mpr h).ne hcmp.symm⟩
      exact List.le_antisymm hnot.2 hnot.1
    have hirrefl := List.lt_irrefl (t.take n)
    have hrest : s.drop n = [] ∨ t.drop n = [] := by
      rw [List.drop_eq_nil_iff, List.drop_eq_nil_iff]
      omega
    have hshort := lt_iff_length_lt hrest
    have hlong := lt_iff_length_lt hrest.symm
    rw [List.length_drop, List.length_drop] at hshort hlong
    rw [heq] at hst hts
    refine ⟨_, if_pos hcmp, ?_, ?_⟩
    · simp only [hst, hirrefl, hshort, false_or, true_and]
      split <;> split <;> omega
    · simp only [hts, hirrefl, hlong, false_or, true_and]
      split <;> split <;> omega
  · have hne : s.take n ≠ t.take n := by
      intro heq
      rw [heq] at hless hmore hcmp
      have hnotless := mt hless.mp (List.lt_irrefl (t.take n))
      have hnotmore := mt hmore.mp (List.lt_irrefl (t.take n))
      omega
    refine ⟨_, if_neg hcmp, ?_, ?_⟩
    · simp only [hless, hst, hne, false_and, or_false]
    · simp only [hmore, hts, hne.symm, false_and, or_false]

end Simvacation.YaslHeap
