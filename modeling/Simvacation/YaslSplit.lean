import Simvacation.YaslRefine
import Mathlib.Data.List.Forall2

/-!
Joining and splitting. `yasljoinyasl` puts a separator between strings, and
`yaslsplitlen` cuts a piece of memory at each separator it comes across. The
pieces are those in front of the first separator, and so on behind it.
-/

namespace Simvacation.YaslHeap

open CString Block Yasl

/-- Each element is appended, and the separator behind all but the last; `j`
numbers the answers of the allocator. -/
def joinLoop {A : Type} (cat : Malloc → Yastrhdr → A → Checked Yastrhdr) (m m' : ℕ → Malloc)
    (sep : Bytes) (seplen : ℕ) : ℕ → List A → Yastrhdr → Checked Yastrhdr
  | _, [], join => .ok join
  | j, [a], join => cat (m j) join a
  | j, a :: b :: argv, join => do
    let join ← cat (m j) join a
    let join ← yaslcatlen (m' j) join sep seplen
    joinLoop cat m m' sep seplen (j + 1) (b :: argv) join

def yasljoin (m m' : ℕ → Malloc) (argv : List Bytes) (sep : Bytes) (seplen : ℕ) :
    Checked Yastrhdr := do
  let join ← yaslempty (m argv.length)
  joinLoop yaslcat m m' sep seplen 0 argv join

def yasljoinyasl (m m' : ℕ → Malloc) (argv : List Yastrhdr) (sep : Bytes) (seplen : ℕ) :
    Checked Yastrhdr := do
  let join ← yaslempty (m argv.length)
  joinLoop yaslcatyasl m m' sep seplen 0 argv join

/-- `sizeof(yastr)` -/
def yastrSize : ℕ := 8

/-- The vector of tokens: the cells that are allocated, the number of slots the
code counts with, and the tokens stored so far. -/
structure Tokens where
  cells : ℕ
  slots : ℕ
  tokens : List Yastrhdr

/-- The cells of a block for some slots. -/
def Malloc.vector (m : Malloc) (slots : ℕ) : Checked ℕ :=
  if m.succeeds (sizeT (yastrSize * slots)) then .ok (sizeT (yastrSize * slots) / yastrSize)
  else .error .null

/-- Room for the next token and the final one. -/
def Tokens.grow (m : Malloc) (t : Tokens) : Checked Tokens :=
  if t.slots < t.tokens.length + 2 then do
    let cells ← m.vector (t.slots * 2)
    .ok { t with slots := t.slots * 2, cells := cells }
  else .ok t

def Tokens.push (t : Tokens) (token : Yastrhdr) : Checked Tokens :=
  if t.tokens.length < t.cells then .ok { t with tokens := t.tokens ++ [token] }
  else .error .fault

/-- The test for the separator at an offset. -/
def separatorAt (str sep : Bytes) (seplen j : ℕ) : Checked Bool := do
  let same ← (if seplen = 1 then do
      let c ← load str j
      let d ← load sep 0
      .ok (c == d)
    else .ok false)
  if same then .ok true
  else do
    let a ← read str j seplen
    let b ← read sep 0 seplen
    .ok (a == b)

/-- The loop over the offsets below `stop`, of which `fuel` are left. -/
def splitLoop (m m' : ℕ → Malloc) (str sep : Bytes) (seplen stop : ℕ) :
    ℕ → ℕ → ℕ → Tokens → Checked (ℕ × Tokens)
  | 0, _, start, t => .ok (start, t)
  | fuel + 1, j, start, t =>
    if j < stop then do
      let t ← t.grow (m j)
      let found ← separatorAt str sep seplen j
      if found then do
        let token ← yaslnew (m' j) (some (str.drop start)) (j - start)
        let t ← t.push token
        splitLoop m m' str sep seplen stop fuel (j + seplen) (j + seplen) t
      else splitLoop m m' str sep seplen stop fuel (j + 1) start t
    else .ok (start, t)

def yaslsplitlen (m m' : ℕ → Malloc) (str : Bytes) (len : ℕ) (sep : Bytes) (seplen : ℕ) :
    Checked (List Yastrhdr) :=
  if seplen < 1 then .error .null
  else do
    let cells ← (m len).vector 5
    if len = 0 then .ok []
    else do
      let stop := sizeSub len (seplen - 1)
      let (start, t) ← splitLoop m m' str sep seplen stop stop 0 0 ⟨cells, 5, []⟩
      let token ← yaslnew (m' len) (some (str.drop start)) (len - start)
      let t ← t.push token
      .ok t.tokens

/-- The pieces of a string between the separators. -/
inductive Pieces (sep : Bytes) : Bytes → List Bytes → Prop where
  | last {s : Bytes} : strstr s sep = none → Pieces sep s [s]
  | cut {s : Bytes} {i : ℕ} {ws : List Bytes} : strstr s sep = some i →
      Pieces sep (s.drop (i + sep.length)) ws → Pieces sep s (s.take i :: ws)

section

variable {sep s : Bytes} {ws : List Bytes}

theorem strstr_eq_none_iff : strstr s sep = none ↔ ∀ k ≤ s.length, ¬ sep <+: s.drop k := by
  induction s with
  | nil => by_cases h : sep = [] <;> simp [strstr, h]
  | cons b s ih =>
    rw [strstr]
    by_cases h : sep.isPrefixOf (b :: s) = true
    · rw [if_pos h]
      simp only [reduceCtorEq, false_iff]
      intro hno
      exact hno 0 (Nat.zero_le _) (List.isPrefixOf_iff_prefix.mp h)
    · rw [if_neg h, Option.map_eq_none_iff, ih]
      constructor
      · intro hno k hk
        cases k with
        | zero => exact fun e => h (List.isPrefixOf_iff_prefix.mpr e)
        | succ k => exact hno k (Nat.le_of_succ_le_succ hk)
      · intro hno k hk
        exact hno (k + 1) (Nat.succ_le_succ hk)

/-- The first offset at which the separator stands. -/
theorem strstr_eq_some_iff {i : ℕ} : strstr s sep = some i ↔
    i ≤ s.length ∧ sep <+: s.drop i ∧ ∀ k < i, ¬ sep <+: s.drop k := by
  induction s generalizing i with
  | nil =>
    by_cases h : sep = []
    · simp only [strstr, h, ite_true, Option.some.injEq, List.length_nil, Nat.le_zero]
      constructor
      · rintro rfl
        exact ⟨rfl, List.nil_prefix, fun k hk => absurd hk (Nat.not_lt_zero k)⟩
      · rintro ⟨rfl, -⟩
        rfl
    · simp [strstr, h]
  | cons b s ih =>
    rw [strstr]
    by_cases h : sep.isPrefixOf (b :: s) = true
    · have hinit := List.isPrefixOf_iff_prefix.mp h
      rw [if_pos h]
      constructor
      · rintro ⟨⟩
        exact ⟨Nat.zero_le _, hinit, fun k hk => absurd hk (Nat.not_lt_zero k)⟩
      · rintro ⟨-, -, hfirst⟩
        cases i with
        | zero => rfl
        | succ i => exact absurd hinit (hfirst 0 (Nat.succ_pos i))
    · have hinit : ¬ sep <+: b :: s := fun e => h (List.isPrefixOf_iff_prefix.mpr e)
      rw [if_neg h, Option.map_eq_some_iff]
      constructor
      · rintro ⟨k, hk, rfl⟩
        obtain ⟨hle, hat, hfirst⟩ := ih.mp hk
        refine ⟨Nat.succ_le_succ hle, hat, fun n hn => ?_⟩
        cases n with
        | zero => exact hinit
        | succ n => exact hfirst n (Nat.lt_of_succ_lt_succ hn)
      · rintro ⟨hle, hat, hfirst⟩
        cases i with
        | zero => exact absurd hat hinit
        | succ i =>
          exact ⟨i, ih.mpr ⟨Nat.le_of_succ_le_succ hle, hat,
            fun k hk => hfirst (k + 1) (Nat.succ_lt_succ hk)⟩, rfl⟩

theorem Pieces.ne_nil (h : Pieces sep s ws) : ws ≠ [] := by
  cases h <;> exact List.cons_ne_nil _ _

/-- Joining the pieces gives the string back. -/
theorem Pieces.intercalate (h : Pieces sep s ws) : sep.intercalate ws = s := by
  induction h with
  | last _ => simp
  | @cut s i ws hi hrest ih =>
    obtain ⟨hle, ⟨t, ht⟩, -⟩ := strstr_eq_some_iff.mp hi
    have hdrop : s.drop (i + sep.length) = t := by
      rw [← List.drop_drop, ← ht, List.drop_left]
    rw [List.intercalate_cons_of_ne_nil hrest.ne_nil, ih, hdrop, List.append_assoc, ht,
      List.take_append_drop]

theorem Pieces.unique {ws' : List Bytes} (h : Pieces sep s ws) (h' : Pieces sep s ws') :
    ws = ws' := by
  induction h generalizing ws' with
  | last hnone =>
    cases h' with
    | last _ => rfl
    | cut hi _ =>
      rw [hnone] at hi
      contradiction
  | cut hi _ ih =>
    cases h' with
    | last hnone =>
      rw [hnone] at hi
      contradiction
    | cut hi' hrest =>
      rw [hi] at hi'
      obtain rfl := Option.some.inj hi'
      rw [ih hrest]

/-- A vector that the code can count on: it has a cell for each slot and one to spare. -/
structure Tokens.Room (t : Tokens) : Prop where
  cells : t.cells = t.slots
  size : yastrSize * t.slots < 2 ^ 63
  spare : t.tokens.length < t.slots

theorem vector_cases (m : Malloc) {slots : ℕ} (h : yastrSize * slots < 2 ^ 64) :
    m.vector slots = .error .null ∨ m.vector slots = .ok slots ∧ yastrSize * slots < 2 ^ 63 := by
  unfold Malloc.vector
  rw [sizeT_of_lt h]
  by_cases hm : m.succeeds (yastrSize * slots) = true
  · rw [if_pos hm, Nat.mul_div_cancel_left slots (by decide)]
    exact Or.inr ⟨rfl, m.limit _ hm⟩
  · rw [if_neg hm]
    exact Or.inl rfl

theorem Tokens.Room.grow {t : Tokens} (h : t.Room) (m : Malloc) : t.grow m = .error .null ∨
    ∃ t', t.grow m = .ok t' ∧ t'.Room ∧ t'.tokens = t.tokens ∧ t.tokens.length + 1 < t'.slots := by
  have hsize := h.size
  have hspare := h.spare
  unfold yastrSize at hsize
  unfold Tokens.grow
  by_cases hfull : t.slots < t.tokens.length + 2
  · rw [if_pos hfull]
    have hdouble : yastrSize * (t.slots * 2) < 2 ^ 64 := by
      unfold yastrSize
      omega
    rcases vector_cases m hdouble with hnull | ⟨hok, hlt⟩
    · rw [hnull]
      exact Or.inl rfl
    · rw [hok]
      refine Or.inr ⟨_, rfl, ⟨rfl, hlt, ?_⟩, rfl, ?_⟩
      · show t.tokens.length < t.slots * 2
        omega
      · show t.tokens.length + 1 < t.slots * 2
        omega
  · rw [if_neg hfull]
    exact Or.inr ⟨t, rfl, h, rfl, by omega⟩

theorem Tokens.Room.push {t : Tokens} (h : t.Room) (token : Yastrhdr) :
    t.push token = .ok { t with tokens := t.tokens ++ [token] } := by
  rw [Tokens.push, if_pos]
  rw [h.cells]
  exact h.spare

/-- The comparison within the string finds the separator where it stands. -/
theorem separatorAt_eq {str sep : Bytes} {len seplen j : ℕ} (hpos : 0 < seplen)
    (hsep : seplen ≤ sep.length) (hlen : len ≤ str.length) (hj : j + seplen ≤ len) :
    ∃ found, separatorAt str sep seplen j = .ok found ∧
      (found = true ↔ sep.take seplen <+: (str.take len).drop j) := by
  have hread : read str j seplen = .ok ((str.drop j).take seplen) := if_pos (by omega)
  have htake : (sep.take seplen).length = seplen := List.length_take_of_le hsep
  have hinit : sep.take seplen <+: (str.take len).drop j ↔
      (str.drop j).take seplen = sep.take seplen := by
    rw [List.drop_take, List.prefix_take_iff, List.prefix_iff_eq_take, htake]
    constructor
    · exact fun e => e.1.symm
    · exact fun e => ⟨e.symm, by omega⟩
  have hcmp : (do
      let a ← read str j seplen
      let b ← read sep 0 seplen
      .ok (a == b) : Checked Bool) = .ok ((str.drop j).take seplen == sep.take seplen) := by
    rw [hread, ok_bind, read_zero hsep, ok_bind]
  have hno : ∃ found,
      (.ok ((str.drop j).take seplen == sep.take seplen) : Checked Bool) = .ok found ∧
      (found = true ↔ sep.take seplen <+: (str.take len).drop j) :=
    ⟨_, rfl, by rw [hinit, beq_iff_eq]⟩
  unfold separatorAt
  by_cases hone : seplen = 1
  · have hj' : j < str.length := by omega
    have h0 : 0 < sep.length := by omega
    rw [if_pos hone, load_of_lt hj', ok_bind, load_of_lt h0, ok_bind, ok_bind, hcmp]
    by_cases hsame : str[j] = sep[0]
    · refine ⟨true, by rw [beq_iff_eq.mpr hsame]; rfl, iff_of_true rfl (hinit.mpr ?_)⟩
      rw [hone, List.drop_eq_getElem_cons hj', hsame, List.take_succ_cons, List.take_zero]
      exact List.take_append_getElem h0
    · rw [beq_eq_false_iff_ne.mpr hsame]
      exact hno
  · rw [if_neg hone, ok_bind, hcmp]
    exact hno

/-- Behind the last offset there is no room for a separator. -/
theorem strstr_eq_none_of_short {n : ℕ} (hshort : s.length < n + sep.length)
    (hnone : ∀ k < n, ¬ sep <+: s.drop k) : strstr s sep = none := by
  apply strstr_eq_none_iff.mpr
  intro k hk hat
  by_cases hkn : k < n
  · exact hnone k hkn hat
  · have hle := hat.length_le
    rw [List.length_drop] at hle
    omega

theorem splitLoop_gives (m m' : ℕ → Malloc) {str : Bytes} {len seplen stop fuel j start : ℕ}
    {t : Tokens} {texts : List Bytes} (hpos : 0 < seplen) (hsep : seplen ≤ sep.length)
    (hlen : len ≤ str.length) (hfits : Fits len) (hstop : stop + seplen = len + 1)
    (hfuel : stop ≤ j + fuel) (hstart : start ≤ j) (hj : j ≤ len)
    (hnone : ∀ k < j - start, ¬ sep.take seplen <+: ((str.take len).drop start).drop k)
    (hroom : t.Room) (htexts : List.Forall₂ Holds t.tokens texts) :
    splitLoop m m' str sep seplen stop fuel j start t = .error .null ∨
      ∃ start' t' ws, splitLoop m m' str sep seplen stop fuel j start t = .ok (start', t') ∧
        start' ≤ len ∧
        Pieces (sep.take seplen) ((str.take len).drop start) (ws ++ [(str.take len).drop start']) ∧
        List.Forall₂ Holds t'.tokens (texts ++ ws) ∧ t'.Room := by
  have hsepLen : (sep.take seplen).length = seplen := List.length_take_of_le hsep
  induction fuel generalizing j start t texts with
  | zero =>
    have hshort : ((str.take len).drop start).length < j - start + (sep.take seplen).length := by
      rw [List.length_drop, List.length_take_of_le hlen]
      omega
    exact Or.inr ⟨start, t, [], rfl, by omega, .last (strstr_eq_none_of_short hshort hnone),
      by simpa using htexts, hroom⟩
  | succ fuel ih =>
    unfold splitLoop
    by_cases hlt : j < stop
    · rw [if_pos hlt]
      rcases hroom.grow (m j) with hnull | ⟨t', hgrow, hroom', hsame, hspare⟩
      · rw [hnull]
        exact Or.inl rfl
      · obtain ⟨found, htest, hfound⟩ :=
          separatorAt_eq hpos hsep hlen (show j + seplen ≤ len by omega)
        rw [hgrow, ok_bind, htest, ok_bind]
        by_cases hf : found = true
        · have hat := hfound.mp hf
          have hfirst : strstr ((str.take len).drop start) (sep.take seplen) =
              some (j - start) := by
            refine strstr_eq_some_iff.mpr ⟨?_, ?_, hnone⟩
            · rw [List.length_drop, List.length_take_of_le hlen]
              omega
            · rwa [List.drop_drop, Nat.add_sub_cancel' hstart]
          have hlt' : j - start < 2 ^ 63 := by
            unfold Fits at hfits
            omega
          have hle : j - start ≤ (str.drop start).length := by
            rw [List.length_drop]
            omega
          rw [if_pos hf]
          rcases yaslnew_gives (m' j) hlt' hle with hnull | ⟨token, htoken, hholds⟩
          · rw [hnull]
            exact Or.inl rfl
          · have hpiece : (str.drop start).take (j - start) =
                ((str.take len).drop start).take (j - start) := by
              rw [List.drop_take, List.take_take, min_eq_left (by omega)]
            rw [hpiece] at hholds
            have htexts' : List.Forall₂ Holds (t'.tokens ++ [token])
                (texts ++ [((str.take len).drop start).take (j - start)]) := by
              rw [hsame]
              exact List.rel_append htexts (List.Forall₂.cons hholds List.Forall₂.nil)
            have hroom'' : Tokens.Room { t' with tokens := t'.tokens ++ [token] } := by
              refine ⟨hroom'.cells, hroom'.size, ?_⟩
              show (t'.tokens ++ [token]).length < t'.slots
              rw [List.length_append, List.length_singleton, hsame]
              exact hspare
            rw [htoken, ok_bind, hroom'.push token, ok_bind]
            rcases ih (show stop ≤ j + seplen + fuel by omega) le_rfl (by omega)
              (fun k hk => absurd hk (by omega)) hroom'' htexts' with
              hnull | ⟨start', t'', ws, hok, hle', hpieces, hforall, hroom₃⟩
            · exact Or.inl hnull
            · refine Or.inr ⟨start', t'', _ :: ws, hok, hle', .cut hfirst ?_, ?_, hroom₃⟩
              · rw [List.drop_drop, hsepLen, ← Nat.add_assoc, Nat.add_sub_cancel' hstart]
                exact hpieces
              · rwa [List.append_assoc, List.singleton_append] at hforall
        · have hnext : ∀ k < j + 1 - start,
              ¬ sep.take seplen <+: ((str.take len).drop start).drop k := by
            intro k hk
            by_cases hkj : k < j - start
            · exact hnone k hkj
            · obtain rfl : k = j - start := by omega
              rw [List.drop_drop, Nat.add_sub_cancel' hstart]
              exact fun e => hf (hfound.mpr e)
          rw [if_neg hf]
          exact ih (show stop ≤ j + 1 + fuel by omega) (by omega) (by omega) hnext hroom'
            (hsame ▸ htexts)
    · have hshort : ((str.take len).drop start).length < j - start + (sep.take seplen).length := by
        rw [List.length_drop, List.length_take_of_le hlen]
        omega
      rw [if_neg hlt]
      exact Or.inr ⟨start, t, [], rfl, by omega, .last (strstr_eq_none_of_short hshort hnone),
        by simpa using htexts, hroom⟩

/-- A piece of memory is cut into its pieces, or an allocation failed. -/
theorem yaslsplitlen_gives (m m' : ℕ → Malloc) {str : Bytes} {len seplen : ℕ} (hpos : 0 < seplen)
    (hsep : seplen ≤ sep.length) (hlen : len ≤ str.length) (hfits : Fits len) (hlen0 : 0 < len)
    (hshort : seplen ≤ len + 1) :
    yaslsplitlen m m' str len sep seplen = .error .null ∨
      ∃ tokens ws, yaslsplitlen m m' str len sep seplen = .ok tokens ∧
        List.Forall₂ Holds tokens ws ∧ Pieces (sep.take seplen) (str.take len) ws := by
  unfold Fits at hfits
  have hone : ¬ seplen < 1 := by omega
  have hzero : ¬ len = 0 := by omega
  have hstop : sizeSub len (seplen - 1) = len - (seplen - 1) := sizeSub_of_le (by omega) (by omega)
  have hvector : yastrSize * 5 < 2 ^ 64 := by decide
  unfold yaslsplitlen
  simp only [hone, hzero, ite_false]
  rcases vector_cases (m len) hvector with hnull | ⟨hok, hlt⟩
  · rw [hnull]
    exact Or.inl rfl
  · have hroom : Tokens.Room ⟨5, 5, []⟩ := ⟨rfl, hlt, by simp⟩
    simp only [hok, ok_bind, hstop]
    rcases splitLoop_gives m m' hpos hsep hlen (show Fits len from hfits)
      (show len - (seplen - 1) + seplen = len + 1 by omega)
      (show len - (seplen - 1) ≤ 0 + (len - (seplen - 1)) by omega) le_rfl (Nat.zero_le len)
      (fun k hk => absurd hk (Nat.not_lt_zero k)) hroom List.Forall₂.nil with
      hnull | ⟨start, t, ws, hloop, hle, hpieces, htexts, hroom'⟩
    · rw [hnull]
      exact Or.inl rfl
    · have hlt' : len - start < 2 ^ 63 := by omega
      have hrest : len - start ≤ (str.drop start).length := by
        rw [List.length_drop]
        omega
      rw [hloop, ok_bind]
      rcases yaslnew_gives (m' len) hlt' hrest with hnull | ⟨token, htoken, hholds⟩
      · simp only [hnull]
        exact Or.inl rfl
      · rw [← List.drop_take] at hholds
        rw [List.drop_zero] at hpieces
        rw [List.nil_append] at htexts
        simp only [htoken, ok_bind, hroom'.push token]
        exact Or.inr ⟨_, _, rfl,
          List.rel_append htexts (List.Forall₂.cons hholds List.Forall₂.nil), hpieces⟩

/-- Where the memory is shorter than the separator by two, the number of
offsets wraps and the first comparison leaves the block. -/
theorem yaslsplitlen_eq_fault_iff (m m' : ℕ → Malloc) {str : Bytes} {seplen : ℕ}
    (hsep : seplen ≤ sep.length) (hfits : Fits str.length) (hfits' : Fits seplen) :
    yaslsplitlen m m' str str.length sep seplen = .error .fault ↔
      (m str.length).succeeds (yastrSize * 5) = true ∧ 0 < str.length ∧
        str.length + 1 < seplen := by
  have hvector : yastrSize * 5 < 2 ^ 64 := by decide
  have hnull : (m str.length).succeeds (yastrSize * 5) ≠ true →
      (m str.length).vector 5 = .error .null := fun e => by
    rw [Malloc.vector, sizeT_of_lt hvector, if_neg e]
  constructor
  · intro hfault
    by_cases hpos : 0 < seplen
    · by_cases hm : (m str.length).succeeds (yastrSize * 5) = true
      · by_cases hlen0 : 0 < str.length
        · refine ⟨hm, hlen0, ?_⟩
          by_contra hshort
          rcases yaslsplitlen_gives m m' hpos hsep le_rfl hfits hlen0 (by omega) with
            hnull | ⟨tokens, ws, hok, -⟩
          · rw [hnull] at hfault
            contradiction
          · rw [hok] at hfault
            contradiction
        · have hzero : str.length = 0 := by omega
          rw [yaslsplitlen, if_neg (by omega)] at hfault
          rcases vector_cases (m str.length) hvector with hno | ⟨hok, -⟩
          · rw [hno, error_bind] at hfault
            contradiction
          · rw [hok, ok_bind, if_pos hzero] at hfault
            contradiction
      · rw [yaslsplitlen, if_neg (by omega), hnull hm, error_bind] at hfault
        contradiction
    · rw [yaslsplitlen, if_pos (by omega)] at hfault
      contradiction
  · rintro ⟨hm, hlen0, hshort⟩
    unfold Fits at hfits hfits'
    have hone : ¬ seplen < 1 := by omega
    have hzero : ¬ str.length = 0 := by omega
    have hok : (m str.length).vector 5 = .ok 5 := by
      rw [Malloc.vector, sizeT_of_lt hvector, if_pos hm]
      rfl
    obtain ⟨n, hn⟩ : ∃ n, sizeSub str.length (seplen - 1) = n + 1 := by
      refine ⟨sizeSub str.length (seplen - 1) - 1, ?_⟩
      unfold sizeSub sizeT
      omega
    have hgrow : (⟨5, 5, []⟩ : Tokens).grow (m 0) = .ok ⟨5, 5, []⟩ := rfl
    have hread : read str 0 seplen = .error .fault := if_neg (by omega)
    have htest : separatorAt str sep seplen 0 = .error .fault := by
      rw [separatorAt, if_neg (by omega), ok_bind, hread]
      rfl
    simp only [yaslsplitlen, hone, hzero, ite_false, hok, ok_bind, hn, splitLoop,
      Nat.succ_pos, ite_true, hgrow, htest, error_bind]

theorem yaslsplitlen_eq_fault_iff_dashes :
    yaslsplitlen (fun _ => plenty) (fun _ => plenty) (bytes "a") 1 (bytes "----") 4 =
      .error .fault := by
  have hfits : ∀ n < 5, Fits n := by
    unfold Fits
    omega
  have hsep : 4 ≤ (bytes "----").length := by decide
  have hstr : Fits (bytes "a").length := hfits 1 (by decide)
  exact (yaslsplitlen_eq_fault_iff (fun _ => plenty) (fun _ => plenty) hsep hstr
    (hfits 4 (by decide))).mpr (by decide)

theorem Holds.unique {str : Yastrhdr} {t : Bytes} (h : Holds str s) (h' : Holds str t) :
    s = t := by
  obtain ⟨rest, hbuf, -⟩ := h.buf
  obtain ⟨rest', hbuf', -⟩ := h'.buf
  rw [hbuf'] at hbuf
  exact (List.append_inj hbuf.symm (h.len.symm.trans h'.len)).1

/-- What the loop of a join appends, for any way to append an element. -/
theorem joinLoop_gives {A : Type} {cat : Malloc → Yastrhdr → A → Checked Yastrhdr}
    {P : A → Bytes → Prop} (m m' : ℕ → Malloc) {seplen : ℕ} (hsep : seplen ≤ sep.length)
    (hfits : Fits seplen) (hcat : ∀ m str s a w, Holds str s → P a w → Gives (cat m str a) (s ++ w))
    {argv : List A} (hargv : List.Forall₂ P argv ws) {join : Yastrhdr} (j : ℕ)
    (h : Holds join s) : Gives (joinLoop cat m m' sep seplen j argv join)
      (s ++ (sep.take seplen).intercalate ws) := by
  induction hargv generalizing join s j with
  | nil =>
    rw [List.intercalate_nil, List.append_nil]
    exact Or.inr ⟨join, rfl, h⟩
  | @cons a w argv ws ha hrest ih =>
    cases hrest with
    | nil =>
      rw [List.intercalate_singleton]
      exact hcat (m j) join s a w h ha
    | @cons b v argv ws hb hrest =>
      rw [List.intercalate_cons_cons, ← List.append_assoc, ← List.append_assoc]
      apply Gives.bind (hcat (m j) join s a w h ha)
      intro join' hjoin'
      apply Gives.bind (yaslcatlen_gives (m' j) hjoin' hfits hsep)
      intro join'' hjoin''
      exact ih (j + 1) hjoin''

theorem yasljoinyasl_gives (m m' : ℕ → Malloc) {seplen : ℕ} (hsep : seplen ≤ sep.length)
    (hfits : Fits seplen) {argv : List Yastrhdr}
    (hargv : List.Forall₂ (fun a w => Holds a w ∧ Fits w.length) argv ws) :
    Gives (yasljoinyasl m m' argv sep seplen) ((sep.take seplen).intercalate ws) := by
  apply Gives.bind (yaslempty_gives (m argv.length))
  intro join hjoin
  refine joinLoop_gives m m' hsep hfits ?_ hargv 0 hjoin
  intro m str s a w hstr ha
  exact yaslcatyasl_gives m hstr ha.1 (ha.1.len ▸ ha.2)

theorem yasljoin_gives (m m' : ℕ → Malloc) {seplen : ℕ} (hsep : seplen ≤ sep.length)
    (hfits : Fits seplen) {argv : List Bytes} (hargv : ∀ a ∈ argv, 0 ∈ a ∧ Fits a.length) :
    Gives (yasljoin m m' argv sep seplen) ((sep.take seplen).intercalate (argv.map cstr)) := by
  apply Gives.bind (yaslempty_gives (m argv.length))
  intro join hjoin
  have hforall : List.Forall₂ (fun a w => (0 ∈ a ∧ Fits a.length) ∧ w = cstr a) argv
      (argv.map cstr) := by
    rw [List.forall₂_map_right_iff, List.forall₂_same]
    exact fun a ha => ⟨hargv a ha, rfl⟩
  refine joinLoop_gives m m' hsep hfits ?_ hforall 0 hjoin
  rintro m str s a w hstr ⟨⟨hnul, hfits'⟩, rfl⟩
  exact yaslcat_gives m hstr hfits' hnul

/-- The strings that a separator keeps apart: it comes first where a token ends,
and not at all in the last one. -/
def Separated (sep : Bytes) : List Bytes → Prop
  | [] => True
  | [w] => strstr w sep = none
  | w :: v :: ws => strstr (w ++ sep) sep = some w.length ∧ Separated sep (v :: ws)

/-- What comes behind a separator does not make it come earlier. -/
theorem strstr_append_iff (w rest : Bytes) :
    strstr (w ++ sep ++ rest) sep = some w.length ↔ strstr (w ++ sep) sep = some w.length := by
  have hdrop : ∀ k ≤ w.length, (sep <+: (w ++ sep ++ rest).drop k ↔ sep <+: (w ++ sep).drop k) := by
    intro k hk
    have hlen : sep.length ≤ ((w ++ sep).drop k).length := by
      rw [List.length_drop, List.length_append]
      omega
    rw [List.drop_append_of_le_length (by rw [List.length_append]; omega)]
    constructor
    · intro h
      exact List.prefix_of_prefix_length_le h (List.prefix_append _ rest) hlen
    · exact fun h => h.trans (List.prefix_append _ rest)
  rw [strstr_eq_some_iff, strstr_eq_some_iff, hdrop w.length le_rfl]
  constructor
  · rintro ⟨-, hat, hfirst⟩
    refine ⟨by rw [List.length_append]; omega, hat, fun k hk => ?_⟩
    rw [← hdrop k hk.le]
    exact hfirst k hk
  · rintro ⟨-, hat, hfirst⟩
    refine ⟨by simp only [List.length_append]; omega, hat, fun k hk => ?_⟩
    rw [hdrop k hk.le]
    exact hfirst k hk

theorem Pieces.singleton_iff {w : Bytes} : Pieces sep s [w] ↔ strstr s sep = none ∧ w = s := by
  constructor
  · intro h
    cases h with
    | last hnone => exact ⟨hnone, rfl⟩
    | cut _ hrest => exact absurd rfl hrest.ne_nil
  · rintro ⟨hnone, rfl⟩
    exact .last hnone

theorem Pieces.cons_iff {w v : Bytes} : Pieces sep s (w :: v :: ws) ↔
    ∃ i, strstr s sep = some i ∧ s.take i = w ∧
      Pieces sep (s.drop (i + sep.length)) (v :: ws) := by
  constructor
  · intro h
    cases h with
    | cut hi hrest => exact ⟨_, hi, rfl, hrest⟩
  · rintro ⟨i, hi, rfl, hrest⟩
    exact .cut hi hrest

/-- A join is cut into the strings it was made of exactly if they are kept apart. -/
theorem pieces_intercalate_iff (hws : ws ≠ []) :
    Pieces sep (sep.intercalate ws) ws ↔ Separated sep ws := by
  induction ws with
  | nil => exact absurd rfl hws
  | cons w ws ih =>
    cases ws with
    | nil =>
      rw [List.intercalate_singleton, Pieces.singleton_iff]
      exact and_iff_left rfl
    | cons v ws =>
      have hdrop : (w ++ sep ++ sep.intercalate (v :: ws)).drop (w.length + sep.length) =
          sep.intercalate (v :: ws) := by rw [← List.length_append, List.drop_left]
      rw [List.intercalate_cons_cons, Separated, ← ih (List.cons_ne_nil v ws),
        ← strstr_append_iff w (sep.intercalate (v :: ws)), Pieces.cons_iff]
      constructor
      · rintro ⟨i, hi, htake, hrest⟩
        have hlen : i = w.length := by
          rw [← htake, List.length_take_of_le (strstr_eq_some_iff.mp hi).1]
        subst hlen
        rw [hdrop] at hrest
        exact ⟨hi, hrest⟩
      · rintro ⟨hi, hrest⟩
        refine ⟨w.length, hi, ?_, by rwa [hdrop]⟩
        rw [List.append_assoc, List.take_left]

theorem length_le_of_mem_intercalate (sep : Bytes) {w : Bytes} (hw : w ∈ ws) :
    w.length ≤ (sep.intercalate ws).length := by
  induction ws with
  | nil => exact absurd hw List.not_mem_nil
  | cons v ws ih =>
    cases ws with
    | nil => rw [List.mem_singleton.mp hw, List.intercalate_singleton]
    | cons v' ws =>
      rw [List.intercalate_cons_cons, List.length_append, List.length_append]
      rcases List.mem_cons.mp hw with rfl | hw
      · omega
      · have hle := ih hw
        omega

/-- Only no string and one empty string make an empty join. -/
theorem intercalate_eq_nil_iff (hsep : sep ≠ []) :
    sep.intercalate ws = [] ↔ ws = [] ∨ ws = [[]] := by
  cases ws with
  | nil => simp
  | cons w ws =>
    cases ws with
    | nil => simp
    | cons v ws =>
      rw [List.intercalate_cons_cons]
      simp [hsep]

theorem yaslsplitlen_zero (m m' : ℕ → Malloc) {str : Bytes} {seplen : ℕ} {tokens : List Yastrhdr}
    (h : yaslsplitlen m m' str 0 sep seplen = .ok tokens) : tokens = [] := by
  unfold yaslsplitlen at h
  by_cases hone : seplen < 1
  · rw [if_pos hone] at h
    contradiction
  · rw [if_neg hone] at h
    rcases vector_cases (m 0) (show yastrSize * 5 < 2 ^ 64 by decide) with hno | ⟨hok, -⟩
    · rw [hno, error_bind] at h
      contradiction
    · rw [hok, ok_bind, if_pos rfl] at h
      exact (Except.ok.inj h).symm

/-- The tokens that a call returns. -/
theorem yaslsplitlen_tokens (m m' : ℕ → Malloc) {str : Bytes} {len seplen : ℕ} (hpos : 0 < seplen)
    (hsep : seplen ≤ sep.length) (hlen : len ≤ str.length) (hfits : Fits len)
    (hshort : len = 0 ∨ seplen ≤ len + 1) {tokens : List Yastrhdr}
    (h : yaslsplitlen m m' str len sep seplen = .ok tokens) :
    len = 0 ∧ tokens = [] ∨ 0 < len ∧ ∃ ws, List.Forall₂ Holds tokens ws ∧
      Pieces (sep.take seplen) (str.take len) ws := by
  by_cases hzero : len = 0
  · subst hzero
    exact Or.inl ⟨rfl, yaslsplitlen_zero m m' h⟩
  · rcases yaslsplitlen_gives m m' hpos hsep hlen hfits (by omega) (by omega) with
      hnull | ⟨tokens', ws, hok, hforall, hpieces⟩
    · rw [hnull] at h
      contradiction
    · rw [hok] at h
      obtain rfl := Except.ok.inj h
      exact Or.inr ⟨by omega, ws, hforall, hpieces⟩

/-- Joining what a split returns gives the memory back. -/
theorem yasljoinyasl_yaslsplitlen (m m' n n' : ℕ → Malloc) {str : Bytes} {len seplen : ℕ}
    (hpos : 0 < seplen) (hsep : seplen ≤ sep.length) (hlen : len ≤ str.length) (hfits : Fits len)
    (hfits' : Fits seplen) (hshort : len = 0 ∨ seplen ≤ len + 1) {tokens : List Yastrhdr}
    (h : yaslsplitlen m m' str len sep seplen = .ok tokens) :
    Gives (yasljoinyasl n n' tokens sep seplen) (str.take len) := by
  rcases yaslsplitlen_tokens m m' hpos hsep hlen hfits hshort h with
    ⟨rfl, rfl⟩ | ⟨-, ws, hforall, hpieces⟩
  · rw [List.take_zero]
    exact yasljoinyasl_gives n n' hsep hfits' List.Forall₂.nil
  · have hsize : ∀ w ∈ ws, Fits w.length := by
      intro w hw
      have hle := length_le_of_mem_intercalate (sep.take seplen) hw
      rw [hpieces.intercalate, List.length_take_of_le hlen] at hle
      unfold Fits at *
      omega
    have hargv : List.Forall₂ (fun a w => Holds a w ∧ Fits w.length) tokens ws := by
      rw [List.forall₂_iff_get] at hforall ⊢
      exact ⟨hforall.1, fun i hi hi' => ⟨hforall.2 i hi hi', hsize _ (List.get_mem ws ⟨i, hi'⟩)⟩⟩
    have hjoin := yasljoinyasl_gives n n' hsep hfits' hargv
    rwa [hpieces.intercalate] at hjoin

theorem yasljoinyasl_yaslsplitlen_list :
    Gives (yasljoinyasl (fun _ => plenty) (fun _ => plenty)
      [⟨1, 0, bytes "a" ++ [0]⟩, ⟨3, 0, bytes "b,c" ++ [0]⟩] (bytes ", ") 2)
      (bytes "a, b,c") := by
  have hfits : ∀ n < 7, Fits n := by
    unfold Fits
    omega
  have hsep : 2 ≤ (bytes ", ").length := by decide
  have hlen : 6 ≤ (bytes "a, b,c").length := by decide
  have hsplit : yaslsplitlen (fun _ => plenty) (fun _ => plenty) (bytes "a, b,c") 6 (bytes ", ") 2 =
      .ok [⟨1, 0, bytes "a" ++ [0]⟩, ⟨3, 0, bytes "b,c" ++ [0]⟩] := by decide +kernel
  exact yasljoinyasl_yaslsplitlen _ _ (fun _ => plenty) (fun _ => plenty) (by decide) hsep hlen
    (hfits 6 (by decide)) (hfits 2 (by decide)) (Or.inr (by decide)) hsplit

/-- Splitting a join gives the strings back exactly if the separator keeps them
apart. One empty string is lost: nothing is left to split. -/
theorem yaslsplitlen_yasljoinyasl_iff (m m' n n' : ℕ → Malloc) {seplen : ℕ} (hpos : 0 < seplen)
    (hsep : seplen ≤ sep.length) (hfits : Fits seplen) {argv : List Yastrhdr}
    (hargv : List.Forall₂ (fun a w => Holds a w ∧ Fits w.length) argv ws) {join : Yastrhdr}
    (hjoin : yasljoinyasl m m' argv sep seplen = .ok join) (hlen : Fits join.len)
    (hshort : join.len = 0 ∨ seplen ≤ join.len + 1) {tokens : List Yastrhdr}
    (hsplit : yaslsplitlen n n' join.buf join.len sep seplen = .ok tokens) :
    List.Forall₂ Holds tokens ws ↔ ws ≠ [[]] ∧ Separated (sep.take seplen) ws := by
  have hsepLen : (sep.take seplen).length = seplen := List.length_take_of_le hsep
  have hsep0 : sep.take seplen ≠ [] := by
    rw [← List.length_pos_iff, hsepLen]
    exact hpos
  obtain ⟨join', hok, hholds⟩ : Leaves (yasljoinyasl m m' argv sep seplen)
      ((sep.take seplen).intercalate ws) := by
    rcases yasljoinyasl_gives m m' hsep hfits hargv with hnull | hleaves
    · rw [hnull] at hjoin
      contradiction
    · exact hleaves
  rw [hok] at hjoin
  obtain rfl := Except.ok.inj hjoin
  obtain ⟨rest, hbuf, -⟩ := hholds.buf
  have htext : join'.buf.take join'.len = (sep.take seplen).intercalate ws := by
    rw [hbuf, hholds.len, List.take_left]
  have hle : join'.len ≤ join'.buf.length := by
    rw [hholds.buf_length]
    omega
  rcases yaslsplitlen_tokens n n' hpos hsep hle hlen hshort hsplit with
    ⟨hzero, rfl⟩ | ⟨hpos', ws', hforall, hpieces⟩
  · have hnil : (sep.take seplen).intercalate ws = [] :=
      List.length_eq_zero_iff.mp (hholds.len ▸ hzero)
    rcases (intercalate_eq_nil_iff hsep0).mp hnil with rfl | rfl
    · exact iff_of_true List.Forall₂.nil ⟨by simp, trivial⟩
    · exact iff_of_false (fun e => by cases e) (fun e => e.1 rfl)
  · have hne : (sep.take seplen).intercalate ws ≠ [] := by
      rw [← List.length_pos_iff, ← hholds.len]
      exact hpos'
    have hws : ws ≠ [] := fun e => hne (by rw [e, List.intercalate_nil])
    have hws' : ws ≠ [[]] := fun e => hne (by rw [e, List.intercalate_singleton])
    rw [htext] at hpieces
    rw [← pieces_intercalate_iff hws, and_iff_right hws']
    constructor
    · intro htokens
      have hsame : ws' = ws :=
        List.right_unique_forall₂' (fun _ _ _ h h' => h.unique h') hforall htokens
      rwa [hsame] at hpieces
    · intro hown
      rwa [← hpieces.unique hown]

/-- A token that ends like the separator begins lets it come too early. -/
theorem yaslsplitlen_yasljoinyasl_iff_dashes :
    ¬ List.Forall₂ Holds [⟨1, 0, bytes "a" ++ [0]⟩, ⟨2, 0, bytes "-b" ++ [0]⟩]
      [bytes "a-", bytes "b"] := by
  have hfits : ∀ n < 7, Fits n := by
    unfold Fits
    omega
  have hsep : 2 ≤ (bytes "--").length := by decide
  have hargv : List.Forall₂ (fun a w => Holds a w ∧ Fits w.length)
      [⟨2, 0, bytes "a-" ++ [0]⟩, ⟨1, 0, bytes "b" ++ [0]⟩] [bytes "a-", bytes "b"] :=
    .cons ⟨⟨rfl, ⟨[], rfl, rfl⟩, by decide⟩, hfits 2 (by decide)⟩
      (.cons ⟨⟨rfl, ⟨[], rfl, rfl⟩, by decide⟩, hfits 1 (by decide)⟩ .nil)
  have hjoin : yasljoinyasl (fun _ => plenty) (fun _ => plenty)
      [⟨2, 0, bytes "a-" ++ [0]⟩, ⟨1, 0, bytes "b" ++ [0]⟩] (bytes "--") 2 =
      .ok ⟨5, 5, bytes "a---b" ++ List.replicate 6 0⟩ := by decide +kernel
  have hsplit : yaslsplitlen (fun _ => plenty) (fun _ => plenty)
      (bytes "a---b" ++ List.replicate 6 0) 5 (bytes "--") 2 =
      .ok [⟨1, 0, bytes "a" ++ [0]⟩, ⟨2, 0, bytes "-b" ++ [0]⟩] := by
    decide +kernel
  intro hsame
  have hkept := ((yaslsplitlen_yasljoinyasl_iff _ _ _ _ (by decide) hsep (hfits 2 (by decide)) hargv
    hjoin (hfits 5 (by decide)) (Or.inr (by decide)) hsplit).mp hsame).2.1
  revert hkept
  decide +kernel

end

end Simvacation.YaslHeap
