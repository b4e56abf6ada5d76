import Mathlib.Data.List.DropRight
import Mathlib.Data.List.Infix
import Mathlib.Tactic.Common

/-!
Byte strings and the C library functions that read them. A string is the list
of its bytes; the terminating NUL is implicit, and `cstr` cuts a piece of
memory at its first NUL. Positions are offsets from the start of the string,
so a pointer difference of the C program is a natural number here. The
character tests are those of the C locale.
-/

namespace Simvacation.CString

abbrev Bytes := List UInt8

/-- The bytes of a source literal. -/
def bytes (s : String) : Bytes := s.toList.map fun c => UInt8.ofNat c.toNat

def lf : UInt8 := 10

def isspace (c : UInt8) : Bool := c = 32 || (9 ≤ c && c ≤ 13)

def isdigit (c : UInt8) : Bool := 48 ≤ c && c ≤ 57

def isxdigit (c : UInt8) : Bool :=
  isdigit c || (65 ≤ c && c ≤ 70) || (97 ≤ c && c ≤ 102)

def tolower (c : UInt8) : UInt8 := if 65 ≤ c && c ≤ 90 then c + 32 else c

def lower (s : Bytes) : Bytes := s.map tolower

/-- The C string that starts a piece of memory. -/
def cstr (mem : Bytes) : Bytes := mem.takeWhile (· ≠ 0)

def strchr (s : Bytes) (c : UInt8) : Option ℕ := s.idxOf? c

/-- Offset of the last occurrence of a byte. -/
def strrchr : Bytes → UInt8 → Option ℕ
  | [], _ => none
  | b :: s, c =>
    match strrchr s c with
    | some i => some (i + 1)
    | none => if b = c then some 0 else none

/-- Offset of the first occurrence of a string. -/
def strstr : Bytes → Bytes → Option ℕ
  | [], needle => if needle = [] then some 0 else none
  | b :: s, needle =>
    if needle.isPrefixOf (b :: s) then some 0 else (strstr s needle).map (· + 1)

/-- Compares at most `n` bytes, ignoring letter case; a string ends where the
other one would read its NUL. -/
def strncasecmp : Bytes → Bytes → ℕ → ℤ
  | _, _, 0 => 0
  | [], [], _ => 0
  | [], b :: _, _ => -(tolower b).toNat
  | a :: _, [], _ => (tolower a).toNat
  | a :: s, b :: t, n + 1 =>
    if tolower a = tolower b then strncasecmp s t n
    else (tolower a).toNat - (tolower b).toNat

def strcasecmp (s t : Bytes) : ℤ := strncasecmp s t (max s.length t.length + 1)

/-- What one `fgets` call with room for `n` bytes takes from the stream, and
what it leaves: it stops after a line feed. -/
def fgetsSplit : ℕ → Bytes → Bytes × Bytes
  | 0, s => ([], s)
  | _ + 1, [] => ([], [])
  | n + 1, c :: s =>
    if c = lf then ([c], s)
    else
      let (line, rest) := fgetsSplit n s
      (c :: line, rest)

def fgetsLoop (size : ℕ) : ℕ → Bytes → List Bytes
  | 0, _ => []
  | _ + 1, [] => []
  | fuel + 1, c :: s =>
    let (line, rest) := fgetsSplit (size - 1) (c :: s)
    line :: fgetsLoop size fuel rest

/-- The strings that successive calls of `fgets(buf, size, stdin)` store, up to
the end of the input. Every call takes a byte, so the input bounds their number. -/
def fgetsReads (size : ℕ) (stdin : Bytes) : List Bytes := fgetsLoop size stdin.length stdin

/-- The buffer after a call: the string, its NUL, and what was there before. -/
def fgetsStore (buf line : Bytes) : Bytes := line ++ 0 :: buf.drop (line.length + 1)

theorem lower_length (s : Bytes) : (lower s).length = s.length := List.length_map _

theorem lower_append (s t : Bytes) : lower (s ++ t) = lower s ++ lower t := List.map_append

/-- A property of all bytes is checked on the 256 numbers. -/
theorem forall_byte {P : UInt8 → Prop} (h : ∀ n : Fin 256, P (UInt8.ofNat n)) (c : UInt8) :
    P c := by
  have hc := h ⟨c.toNat, c.toNat_lt⟩
  rwa [UInt8.ofNat_toNat] at hc

theorem isspace_tolower (c : UInt8) : isspace (tolower c) = isspace c := by
  apply forall_byte (P := fun c => isspace (tolower c) = isspace c)
  decide +kernel

theorem strchr_eq_none_iff {s : Bytes} {c : UInt8} : strchr s c = none ↔ c ∉ s :=
  List.idxOf?_eq_none_iff

/-- The offset found splits the string at its first such byte. -/
theorem strchr_eq_some_iff {s : Bytes} {c : UInt8} {i : ℕ} :
    strchr s c = some i ↔ ∃ pre post, s = pre ++ c :: post ∧ pre.length = i ∧ c ∉ pre := by
  induction s generalizing i with
  | nil => simp [strchr]
  | cons b s ih =>
    unfold strchr at ih ⊢
    rw [List.idxOf?_cons]
    by_cases hb : b = c
    · subst b
      simp only [beq_self_eq_true, ite_true, Option.some.injEq]
      constructor
      · intro hi
        exact ⟨[], s, rfl, hi, List.not_mem_nil⟩
      · intro hparts
        obtain ⟨pre, post, heq, hlen, hpre⟩ := hparts
        cases pre with
        | nil => exact hlen
        | cons d pre =>
          have hd : c = d := (List.cons.inj heq).1
          exact absurd (hd ▸ List.mem_cons_self) hpre
    · simp only [beq_iff_eq, hb, ite_false, Option.map_eq_some_iff]
      constructor
      · intro hparts
        obtain ⟨j, hj, rfl⟩ := hparts
        obtain ⟨pre, post, heq, hlen, hpre⟩ := ih.mp hj
        refine ⟨b :: pre, post, by rw [heq, List.cons_append], by simp [hlen], ?_⟩
        simp [hpre, Ne.symm hb]
      · intro hparts
        obtain ⟨pre, post, heq, hlen, hpre⟩ := hparts
        cases pre with
        | nil => exact absurd (List.cons.inj heq).1 hb
        | cons d pre =>
          obtain ⟨rfl, htail⟩ := List.cons.inj heq
          exact ⟨pre.length, ih.mpr ⟨pre, post, htail, rfl, fun h => hpre (by simp [h])⟩,
            by simpa using hlen⟩

theorem strchr_append_cons {pre post : Bytes} {c : UInt8} (h : c ∉ pre) :
    strchr (pre ++ c :: post) c = some pre.length :=
  strchr_eq_some_iff.mpr ⟨pre, post, rfl, rfl, h⟩

theorem strrchr_eq_none_iff {s : Bytes} {c : UInt8} : strrchr s c = none ↔ c ∉ s := by
  induction s with
  | nil => simp [strrchr]
  | cons b s ih =>
    unfold strrchr
    cases h : strrchr s c with
    | none => simpa [ih.mp h] using ⟨Ne.symm, Ne.symm⟩
    | some i =>
      have hmem : c ∈ s := by
        by_contra hc
        rw [ih.mpr hc] at h
        contradiction
      simp [hmem]

theorem strrchr_append_cons {pre post : Bytes} {c : UInt8} (h : c ∉ post) :
    strrchr (pre ++ c :: post) c = some pre.length := by
  induction pre with
  | nil =>
    have hpost : strrchr post c = none := strrchr_eq_none_iff.mpr h
    simp [strrchr, hpost]
  | cons b pre ih => simp [strrchr, ih]

/-- The offset found splits the string at its last such byte. -/
theorem strrchr_eq_some_iff {s : Bytes} {c : UInt8} {i : ℕ} :
    strrchr s c = some i ↔ ∃ pre post, s = pre ++ c :: post ∧ pre.length = i ∧ c ∉ post := by
  constructor
  · intro h
    induction s generalizing i with
    | nil => cases h
    | cons b s ih =>
      unfold strrchr at h
      cases hs : strrchr s c with
      | some j =>
        obtain ⟨pre, post, heq, hlen, hpost⟩ := ih hs
        rw [hs] at h
        refine ⟨b :: pre, post, by rw [heq, List.cons_append], ?_, hpost⟩
        rw [List.length_cons, hlen]
        exact Option.some.inj h
      | none =>
        rw [hs] at h
        simp only [Option.ite_none_right_eq_some, Option.some.injEq] at h
        obtain ⟨rfl, rfl⟩ := h
        exact ⟨[], s, rfl, rfl, strrchr_eq_none_iff.mp hs⟩
  · intro hparts
    obtain ⟨pre, post, rfl, rfl, hpost⟩ := hparts
    exact strrchr_append_cons hpost

/-- A string splits in one way at its first byte of a kind. -/
theorem append_cons_inj_first {c : UInt8} {a a' s s' : Bytes} (ha : c ∉ a) (ha' : c ∉ a')
    (h : a ++ c :: s = a' ++ c :: s') : a = a' ∧ s = s' := by
  have hlen : a.length = a'.length := by
    have hpos : strchr (a ++ c :: s) c = some a.length := strchr_append_cons ha
    rw [h, strchr_append_cons ha'] at hpos
    exact (Option.some.inj hpos).symm
  obtain ⟨hfront, hrest⟩ := List.append_inj h hlen
  exact ⟨hfront, (List.cons.inj hrest).2⟩

/-- And in one way at its last. -/
theorem append_cons_inj_last {c : UInt8} {a a' s s' : Bytes} (hs : c ∉ s) (hs' : c ∉ s')
    (h : a ++ c :: s = a' ++ c :: s') : a = a' ∧ s = s' := by
  have hlen : a.length = a'.length := by
    have hpos : strrchr (a ++ c :: s) c = some a.length := strrchr_append_cons hs
    rw [h, strrchr_append_cons hs'] at hpos
    exact (Option.some.inj hpos).symm
  obtain ⟨hfront, hrest⟩ := List.append_inj h hlen
  exact ⟨hfront, (List.cons.inj hrest).2⟩

/-- A string found at a byte that does not occur earlier is found there. -/
theorem strstr_append {pre rest post : Bytes} {c : UInt8} (h : c ∉ pre) :
    strstr (pre ++ (c :: rest) ++ post) (c :: rest) = some pre.length := by
  induction pre with
  | nil => simp [strstr]
  | cons b pre ih =>
    have hb : c ≠ b := fun e => h (by simp [e])
    have hpre : c ∉ pre := fun e => h (by simp [e])
    simpa [strstr, hb] using ih hpre

theorem strstr_isSome_iff {s needle : Bytes} : (strstr s needle).isSome ↔ needle <:+: s := by
  induction s with
  | nil => by_cases h : needle = [] <;> simp [strstr, h]
  | cons b s ih =>
    rw [List.infix_cons_iff, ← ih, strstr]
    by_cases h : needle.isPrefixOf (b :: s) = true
    · simp [h, List.isPrefixOf_iff_prefix.mp h]
    · have hprefix : ¬ needle <+: b :: s := fun e => h (List.isPrefixOf_iff_prefix.mpr e)
      simp [h, hprefix]

/-- A string without the byte `c` does not reach across it. -/
theorem infix_append_cons {w x y : Bytes} {c : UInt8} (h : c ∉ w) :
    w <:+: x ++ c :: y ↔ w <:+: x ∨ w <:+: y := by
  constructor
  · intro hparts
    obtain ⟨s, t, heq⟩ := hparts
    rcases List.append_eq_append_iff.mp heq with ⟨x', hx, -⟩ | ⟨z, hz, ht⟩
    · exact Or.inl ⟨s, x', hx.symm⟩
    · cases z with
      | nil => exact Or.inl ⟨s, [], by rw [hz, List.append_nil, List.append_nil]⟩
      | cons d z =>
        rw [List.cons_append] at ht
        obtain ⟨rfl, hy⟩ := List.cons.inj ht
        rcases List.append_eq_append_iff.mp hz with ⟨x', -, hw⟩ | ⟨z', -, hw⟩
        · have hc : c ∈ w := by
            rw [hw]
            exact List.mem_append_right x' List.mem_cons_self
          exact absurd hc h
        · cases z' with
          | nil =>
            have hc : c ∈ w := by
              rw [← List.nil_append w, ← hw]
              exact List.mem_cons_self
            exact absurd hc h
          | cons d' z' =>
            rw [List.cons_append] at hw
            exact Or.inr ⟨z', t, by rw [hy, (List.cons.inj hw).2]⟩
  · intro hcases
    rcases hcases with hx | hy
    · exact hx.trans (List.infix_append' [] x (c :: y))
    · exact hy.trans (List.IsSuffix.isInfix (List.suffix_append_of_suffix (List.suffix_cons c y)))

/-- Nor does a prefix. -/
theorem prefix_append_cons {w x y : Bytes} {c : UInt8} (h : c ∉ w) :
    w <+: x ++ c :: y ↔ w <+: x := by
  constructor
  · intro hprefix
    have hx : x <+: x ++ c :: y := List.prefix_append _ _
    rcases List.prefix_or_prefix_of_prefix hprefix hx with hle | ⟨t, rfl⟩
    · exact hle
    · cases t with
      | nil => simp
      | cons d t =>
        have htail : d :: t <+: c :: y := (List.prefix_append_right_inj x).mp hprefix
        have hd : d = c := (List.cons_prefix_cons.mp htail).1
        exact absurd (by simp [hd]) h
  · exact fun hprefix => hprefix.trans (List.prefix_append _ _)

/-- A part of a string holds no byte before its end that the string does not. -/
theorem mem_dropLast_of_part {s t : Bytes} {c : UInt8} (h : t <:+: s) (hc : c ∈ t.dropLast) :
    c ∈ s.dropLast := by
  obtain ⟨u, v, rfl⟩ := h
  have ht : t ≠ [] := by
    rintro rfl
    exact absurd hc List.not_mem_nil
  cases v with
  | nil =>
    rw [List.append_nil, List.dropLast_append_of_ne_nil ht]
    exact List.mem_append_right u hc
  | cons d v =>
    rw [List.dropLast_append_of_ne_nil (List.cons_ne_nil d v)]
    exact List.mem_append_left _ (List.mem_append_right u (List.mem_of_mem_dropLast hc))

theorem tolower_eq_zero_iff (c : UInt8) : tolower c = 0 ↔ c = 0 := by
  apply forall_byte (P := fun c => tolower c = 0 ↔ c = 0)
  decide +kernel

/-- Comparing over the whole of a literal tests for it as a prefix. -/
theorem strncasecmp_eq_zero_iff {field line : Bytes} (h : 0 ∉ field) :
    strncasecmp field line field.length = 0 ↔ lower field <+: lower line := by
  induction field generalizing line with
  | nil => simp [strncasecmp, lower]
  | cons a field ih =>
    have ha : tolower a ≠ 0 := fun e => h (by simp [(tolower_eq_zero_iff a).mp e])
    have hfield : 0 ∉ field := fun e => h (by simp [e])
    cases line with
    | nil =>
      have hnat : (tolower a).toNat ≠ 0 := fun e => ha (UInt8.toNat_inj.mp e)
      simp [strncasecmp, lower, hnat]
    | cons b line =>
      have ih' : strncasecmp field line field.length = 0 ↔ lower field <+: lower line := ih hfield
      simp only [lower] at ih'
      by_cases hab : tolower a = tolower b
      · simp [strncasecmp, lower, hab, ih']
      · have hnat : ((tolower a).toNat : ℤ) - (tolower b).toNat ≠ 0 := by
          intro e
          exact hab (UInt8.toNat_inj.mp (by omega))
        simp [strncasecmp, lower, hab, hnat]

theorem strncasecmp_swap (s t : Bytes) (n : ℕ) : strncasecmp s t n = -strncasecmp t s n := by
  induction n generalizing s t with
  | zero => simp [strncasecmp]
  | succ n ih =>
    cases s with
    | nil => cases t <;> simp [strncasecmp]
    | cons a s =>
      cases t with
      | nil => simp [strncasecmp]
      | cons b t =>
        unfold strncasecmp
        by_cases hab : tolower a = tolower b
        · simp only [hab, ite_true]
          exact ih s t
        · rw [if_neg hab, if_neg (Ne.symm hab), Int.neg_sub]

/-- The same test with the arguments the other way round. -/
theorem strncasecmp_eq_zero_iff' {line field : Bytes} (h : 0 ∉ field) :
    strncasecmp line field field.length = 0 ↔ lower field <+: lower line := by
  rw [strncasecmp_swap, Int.neg_eq_zero]
  exact strncasecmp_eq_zero_iff h

/-- Comparing beyond both ends tests for equality. -/
theorem strncasecmp_eq_zero_iff_lower {s t : Bytes} {n : ℕ} (hs : 0 ∉ s) (ht : 0 ∉ t)
    (hn : max s.length t.length < n) : strncasecmp s t n = 0 ↔ lower s = lower t := by
  induction n generalizing s t with
  | zero => exact absurd hn (Nat.not_lt_zero _)
  | succ n ih =>
    cases s with
    | nil =>
      cases t with
      | nil => simp [strncasecmp]
      | cons b t =>
        have hb : (tolower b).toNat ≠ 0 := fun e =>
          ht (by simp [(tolower_eq_zero_iff b).mp (UInt8.toNat_inj.mp e)])
        simp [strncasecmp, lower, hb]
    | cons a s =>
      have ha : (tolower a).toNat ≠ 0 := fun e =>
        hs (by simp [(tolower_eq_zero_iff a).mp (UInt8.toNat_inj.mp e)])
      cases t with
      | nil => simp [strncasecmp, lower, ha]
      | cons b t =>
        by_cases hab : tolower a = tolower b
        · have hlen : max s.length t.length < n := by
            simp only [List.length_cons] at hn
            omega
          have ih' := ih (fun e => hs (by simp [e])) (fun e => ht (by simp [e])) hlen
          simp only [lower] at ih'
          simp [strncasecmp, lower, hab, ih']
        · have hne : ((tolower a).toNat : ℤ) - (tolower b).toNat ≠ 0 := by
            intro e
            exact hab (UInt8.toNat_inj.mp (by omega))
          simp [strncasecmp, lower, hab, hne]

theorem strcasecmp_eq_zero_iff {s t : Bytes} (hs : 0 ∉ s) (ht : 0 ∉ t) :
    strcasecmp s t = 0 ↔ lower s = lower t :=
  strncasecmp_eq_zero_iff_lower hs ht (Nat.lt_succ_self _)

/-- Memory behind a NUL does not matter. -/
theorem cstr_append_zero (s t : Bytes) : cstr (s ++ 0 :: t) = cstr s := by
  induction s with
  | nil => simp [cstr]
  | cons c s ih =>
    by_cases hc : c = 0
    · simp [cstr, hc]
    · simpa [cstr, hc] using ih

theorem cstr_eq_self {s : Bytes} (h : 0 ∉ s) : cstr s = s := by
  apply List.takeWhile_eq_self_iff.mpr
  intro c hc
  exact decide_eq_true fun e => h (e ▸ hc)

theorem cstr_append_cons {s t : Bytes} {c : UInt8} (hs : 0 ∉ s) (hc : c ≠ 0) :
    cstr (s ++ c :: t) = s ++ c :: cstr t := by
  have hpos : ∀ b ∈ s, decide (b ≠ 0) = true := by
    simpa using fun b hb => ne_of_mem_of_not_mem hb hs
  rw [cstr, List.takeWhile_append_of_pos hpos, List.takeWhile_cons_of_pos (by simpa using hc)]
  rfl

theorem prefix_of_cstr (s : Bytes) : cstr s <+: s := List.takeWhile_prefix _

theorem nul_notMem_cstr (s : Bytes) : 0 ∉ cstr s := by
  intro h
  simpa using List.mem_takeWhile_imp h

/-- From an offset within the string, the same string is read on. -/
theorem cstr_drop {s : Bytes} {n : ℕ} (h : n ≤ (cstr s).length) :
    cstr (s.drop n) = (cstr s).drop n := by
  induction n generalizing s with
  | zero => rfl
  | succ n ih =>
    cases s with
    | nil => rfl
    | cons c s =>
      by_cases hc : c = 0
      · simp [cstr, hc] at h
      · have hcstr : cstr (c :: s) = c :: cstr s := by simp [cstr, hc]
        rw [hcstr, List.length_cons] at h
        rw [hcstr, List.drop_succ_cons, List.drop_succ_cons]
        exact ih (by omega)

theorem lower_cstr (s : Bytes) : lower (cstr s) = cstr (lower s) := by
  induction s with
  | nil => rfl
  | cons c s ih =>
    by_cases hc : c = 0
    · subst hc
      rfl
    · have hlow : tolower c ≠ 0 := fun e => hc ((tolower_eq_zero_iff c).mp e)
      have hleft : cstr (c :: s) = c :: cstr s := by simp [cstr, hc]
      have hright : cstr (tolower c :: lower s) = tolower c :: cstr (lower s) := by
        simp [cstr, hlow]
      rw [hleft, lower, List.map_cons, lower, List.map_cons, ← lower, ← lower, hright, ih]

/-- A prefix without NUL lies in front of the first NUL. -/
theorem prefix_cstr_iff {s t : Bytes} (h : 0 ∉ s) : s <+: cstr t ↔ s <+: t := by
  constructor
  · intro hst
    exact hst.trans (prefix_of_cstr t)
  · intro hparts
    obtain ⟨rest, rfl⟩ := hparts
    induction s with
    | nil => exact List.nil_prefix
    | cons c s ih =>
      have hc : c ≠ 0 := fun e => h (by simp [e])
      have hs : 0 ∉ s := fun e => h (by simp [e])
      have hcstr : cstr (c :: s ++ rest) = c :: cstr (s ++ rest) := by simp [cstr, hc]
      rw [hcstr]
      exact List.cons_prefix_cons.mpr ⟨rfl, ih hs⟩

/-- The C string in the buffer after a read lies within what was read. -/
theorem cstr_fgetsStore (buf line : Bytes) : cstr (fgetsStore buf line) = cstr line :=
  cstr_append_zero _ _

/-- A read splits the stream; unless the room ran out, it ends at a line feed. -/
theorem fgetsSplit_append (n : ℕ) (s : Bytes) :
    (fgetsSplit n s).1 ++ (fgetsSplit n s).2 = s := by
  induction n generalizing s with
  | zero => rfl
  | succ n ih =>
    cases s with
    | nil => rfl
    | cons c s =>
      unfold fgetsSplit
      by_cases hc : c = lf
      · simp [hc]
      · simp [hc, ih s]

/-- Only the last byte of a read can be a line feed. -/
theorem lf_notMem_dropLast_fgetsSplit (n : ℕ) (s : Bytes) :
    lf ∉ (fgetsSplit n s).1.dropLast := by
  induction n generalizing s with
  | zero => simp [fgetsSplit]
  | succ n ih =>
    cases s with
    | nil => simp [fgetsSplit]
    | cons c s =>
      unfold fgetsSplit
      by_cases hc : c = lf
      · simp [hc]
      · cases hline : (fgetsSplit n s).1 with
        | nil => simp [hc, hline]
        | cons d line =>
          have ih' := ih s
          rw [hline] at ih'
          simp only [hc, ite_false, hline, List.dropLast_cons_cons, List.mem_cons, not_or]
          exact ⟨Ne.symm hc, ih'⟩

theorem fgetsSplit_line {n : ℕ} {line rest : Bytes} (hlf : lf ∉ line) (hlen : line.length < n) :
    fgetsSplit n (line ++ lf :: rest) = (line ++ [lf], rest) := by
  induction line generalizing n with
  | nil =>
    obtain ⟨m, rfl⟩ := Nat.exists_eq_succ_of_ne_zero (Nat.ne_of_gt hlen)
    simp [fgetsSplit]
  | cons c line ih =>
    obtain ⟨m, rfl⟩ := Nat.exists_eq_succ_of_ne_zero (Nat.ne_of_gt (Nat.zero_lt_of_lt hlen))
    have hc : c ≠ lf := fun e => hlf (by simp [e])
    have hline : lf ∉ line := fun e => hlf (by simp [e])
    have hlen' : line.length < m := by simpa using hlen
    simp [fgetsSplit, hc, ih hline hlen']

/-- A read of a long line takes all the room there is. -/
theorem fgetsSplit_long {n : ℕ} {s rest : Bytes} (hlf : lf ∉ s) (hlen : s.length = n) :
    fgetsSplit n (s ++ rest) = (s, rest) := by
  induction s generalizing n with
  | nil =>
    subst hlen
    rfl
  | cons c s ih =>
    subst hlen
    have hc : c ≠ lf := fun e => hlf (by simp [e])
    have hs : lf ∉ s := fun e => hlf (by simp [e])
    simp [fgetsSplit, hc, ih hs rfl]

/-- The first read of a line is as much of it as there is room for. -/
theorem fgetsSplit_take (n : ℕ) {line : Bytes} (hlf : lf ∉ line) (rest : Bytes) :
    (fgetsSplit n (line ++ lf :: rest)).1 = (line ++ [lf]).take n := by
  by_cases hlen : line.length < n
  · rw [fgetsSplit_line hlf hlen, List.take_of_length_le]
    rw [List.length_append, List.length_singleton]
    omega
  · have hle : n ≤ line.length := Nat.le_of_not_lt hlen
    have hsplit : line ++ lf :: rest = line.take n ++ (line.drop n ++ lf :: rest) := by
      rw [← List.append_assoc, List.take_append_drop]
    have htake : lf ∉ line.take n := fun h => hlf (List.mem_of_mem_take h)
    rw [hsplit, fgetsSplit_long htake (List.length_take_of_le hle),
      List.take_append_of_le_length hle]

/-- With enough fuel for the input, more fuel changes nothing. -/
theorem fgetsLoop_eq_reads {size : ℕ} (hsize : 1 < size) (fuel : ℕ) (s : Bytes)
    (hfuel : s.length ≤ fuel) : fgetsLoop size fuel s = fgetsReads size s := by
  induction fuel using Nat.strong_induction_on generalizing s with
  | h fuel ih =>
    cases s with
    | nil => cases fuel <;> rfl
    | cons c s =>
      obtain ⟨m, rfl⟩ : ∃ m, fuel = m + 1 := ⟨fuel - 1, by simp at hfuel; omega⟩
      obtain ⟨k, hk⟩ : ∃ k, size - 1 = k + 1 := ⟨size - 2, by omega⟩
      have hrest : (fgetsSplit (size - 1) (c :: s)).2.length ≤ s.length := by
        have h := congrArg List.length (fgetsSplit_append (size - 1) (c :: s))
        have hpos : 0 < (fgetsSplit (size - 1) (c :: s)).1.length := by
          rw [hk]
          unfold fgetsSplit
          split <;> simp
        simp only [List.length_append, List.length_cons] at h
        omega
      have hm : s.length ≤ m := by simpa using hfuel
      simp only [fgetsReads, List.length_cons, fgetsLoop]
      congr 1
      rw [ih m (by omega) _ (by omega)]
      by_cases hlt : s.length < m + 1
      · exact (ih s.length hlt _ hrest).symm
      · omega

theorem lf_notMem_dropLast_fgetsLoop (size fuel : ℕ) (s : Bytes) :
    ∀ line ∈ fgetsLoop size fuel s, lf ∉ line.dropLast := by
  induction fuel generalizing s with
  | zero => exact fun _ h => absurd h List.not_mem_nil
  | succ fuel ih =>
    cases s with
    | nil => exact fun _ h => absurd h List.not_mem_nil
    | cons c s =>
      intro line hline
      rcases List.mem_cons.mp hline with rfl | hline
      · exact lf_notMem_dropLast_fgetsSplit _ _
      · exact ih _ line hline

/-- One call after another, until the stream is empty. -/
theorem fgetsReads_cons {size : ℕ} (hsize : 1 < size) (c : UInt8) (s : Bytes) :
    fgetsReads size (c :: s) = (fgetsSplit (size - 1) (c :: s)).1 ::
      fgetsReads size (fgetsSplit (size - 1) (c :: s)).2 := by
  have h := fgetsLoop_eq_reads hsize (s.length + 1 + 1) (c :: s) (by simp)
  rw [← h, fgetsLoop]
  simp only
  congr 1
  apply fgetsLoop_eq_reads hsize
  have hlen := congrArg List.length (fgetsSplit_append (size - 1) (c :: s))
  simp only [List.length_append, List.length_cons] at hlen
  omega

/-- A line that fits the buffer with its line feed is one read. -/
theorem fgetsReads_line {size : ℕ} {line rest : Bytes} (hlf : lf ∉ line)
    (hlen : line.length + 1 < size) :
    fgetsReads size (line ++ lf :: rest) = (line ++ [lf]) :: fgetsReads size rest := by
  have hsplit : fgetsSplit (size - 1) (line ++ lf :: rest) = (line ++ [lf], rest) :=
    fgetsSplit_line hlf (by omega)
  cases line with
  | nil =>
    rw [List.nil_append, fgetsReads_cons (by omega), ← List.nil_append (lf :: rest), hsplit]
  | cons c line =>
    rw [List.cons_append, fgetsReads_cons (by omega), ← List.cons_append, hsplit]

/-- The reads of a text are those of its lines, in order. -/
theorem fgetsReads_append {size : ℕ} (hsize : 1 < size) {line : Bytes} (hlf : lf ∉ line)
    (rest : Bytes) : fgetsReads size (line ++ lf :: rest) =
      fgetsReads size (line ++ [lf]) ++ fgetsReads size rest := by
  induction hn : line.length using Nat.strong_induction_on generalizing line with
  | h n ih =>
    by_cases hlen : line.length + 1 < size
    · rw [fgetsReads_line hlf hlen, fgetsReads_line hlf hlen]
      rfl
    · obtain ⟨a, b, rfl, ha⟩ : ∃ a b, line = a ++ b ∧ a.length = size - 1 :=
        ⟨line.take (size - 1), line.drop (size - 1), (List.take_append_drop _ _).symm, by
          rw [List.length_take]
          omega⟩
      have hlfa : lf ∉ a := fun e => hlf (List.mem_append_left b e)
      have hlfb : lf ∉ b := fun e => hlf (List.mem_append_right a e)
      have hread : ∀ s : Bytes, fgetsReads size (a ++ s) = a :: fgetsReads size s := by
        intro s
        cases a with
        | nil =>
          rw [List.length_nil] at ha
          omega
        | cons c a => rw [List.cons_append, fgetsReads_cons hsize, ← List.cons_append,
            fgetsSplit_long hlfa ha]
      have hb : b.length < n := by
        rw [← hn, List.length_append]
        omega
      rw [List.append_assoc, List.append_assoc, hread, hread, ih b.length hb hlfb rfl]
      rfl

theorem fgetsSplit_cases (n : ℕ) (s : Bytes) : (fgetsSplit n s).1.getLast? = some lf ∨
    (fgetsSplit n s).1.length = n ∨ fgetsSplit n s = (s, []) := by
  induction n generalizing s with
  | zero => exact Or.inr (Or.inl rfl)
  | succ n ih =>
    cases s with
    | nil => exact Or.inr (Or.inr rfl)
    | cons c s =>
      unfold fgetsSplit
      by_cases hc : c = lf
      · simp [hc]
      · simp only [hc, ite_false]
        rcases ih s with hlast | hlen | heq
        · left
          obtain ⟨init, hinit⟩ := List.getLast?_eq_some_iff.mp hlast
          rw [hinit, ← List.cons_append, List.getLast?_concat]
        · exact Or.inr (Or.inl (by rw [List.length_cons, hlen]))
        · exact Or.inr (Or.inr (by rw [heq]))

/-- A read ends in a line feed, or it filled the buffer, or it is the end of the text. -/
theorem fgetsReads_cases {size : ℕ} (hsize : 1 < size) {s line : Bytes} {pre post : List Bytes}
    (h : fgetsReads size s = pre ++ line :: post) :
    line.getLast? = some lf ∨ line.length = size - 1 ∨ (post = [] ∧ line <:+ s ∧ line ≠ []) := by
  induction hn : s.length using Nat.strong_induction_on generalizing s pre with
  | h n ih =>
    cases s with
    | nil =>
      have hlen := congrArg List.length h
      simp [fgetsReads, fgetsLoop] at hlen
    | cons c s =>
      have happ := fgetsSplit_append (size - 1) (c :: s)
      have hpos : (fgetsSplit (size - 1) (c :: s)).1 ≠ [] := by
        obtain ⟨k, hk⟩ : ∃ k, size - 1 = k + 1 := ⟨size - 2, by omega⟩
        rw [hk]
        unfold fgetsSplit
        split <;> simp
      rw [fgetsReads_cons hsize] at h
      cases pre with
      | nil =>
        obtain ⟨rfl, rfl⟩ := List.cons.inj h
        rcases fgetsSplit_cases (size - 1) (c :: s) with hlast | hlen | heq
        · exact Or.inl hlast
        · exact Or.inr (Or.inl hlen)
        · refine Or.inr (Or.inr ⟨?_, ?_, hpos⟩)
          · rw [heq]
            rfl
          · rw [heq]
      | cons p pre =>
        have hlen := congrArg List.length happ
        have hpos' := List.length_pos_iff.mpr hpos
        rw [List.length_append] at hlen
        rcases ih _ (by omega) (List.cons.inj h).2 rfl with hlast | hfull | ⟨hpost, hsuffix, hne⟩
        · exact Or.inl hlast
        · exact Or.inr (Or.inl hfull)
        · refine Or.inr (Or.inr ⟨hpost, hsuffix.trans ?_, hne⟩)
          exact ⟨_, happ⟩

/-- Where the text ends in a line feed, each read does, or it filled the buffer. -/
theorem fgetsReads_of_lf {size : ℕ} (hsize : 1 < size) {s : Bytes}
    (hs : s = [] ∨ s.getLast? = some lf) :
    ∀ line ∈ fgetsReads size s, line.getLast? = some lf ∨ line.length = size - 1 := by
  intro line hline
  obtain ⟨pre, post, heq⟩ := List.append_of_mem hline
  rcases fgetsReads_cases hsize heq with hlast | hlen | ⟨-, ⟨init, rfl⟩, hne⟩
  · exact Or.inl hlast
  · exact Or.inr hlen
  · left
    rcases hs with hnil | hlast
    · exact absurd (List.append_eq_nil_iff.mp hnil).2 hne
    · rwa [List.getLast?_append_of_ne_nil _ hne] at hlast

end Simvacation.CString
