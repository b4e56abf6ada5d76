import Mathlib.Data.List.GetD
import Simvacation.HeaderLines
import Simvacation.Probe

/-!
The header reader as it looks at its buffer byte by byte. One iteration is
written with the loops of the library functions and of the source, and each
byte they examine is recorded. It computes the same as the reader on strings,
and where the name of the header is known it stays in front of any NUL.
-/

namespace Simvacation.BufferReads

open CString Yasl Vutil Readheaders HeaderLines Probe

/-- A computation on the buffer. Its loops have fuel for the size of the buffer. -/
abbrev Reads := Probe ℕ UInt8

/-- Behind its end the buffer reads as NUL. -/
def memory (buf : Bytes) (i : ℕ) : UInt8 := buf.getD i 0

/-- `strncasecmp` with a literal at offset `p`, up to the length of the literal. -/
def agreesAt : ℕ → Bytes → Reads Bool
  | _, [] => pure true
  | p, a :: s => do
    let c ← examine p
    if tolower a = tolower c then agreesAt (p + 1) s else pure false

/-- Whether one of several literals is at offset `p`, as `||` tries them. -/
def agreesAny (p : ℕ) : List Bytes → Reads Bool
  | [] => pure false
  | s :: ss => do
    let found ← agreesAt p s
    if found then pure true else agreesAny p ss

/-- What `strlen` and `%s` run over. -/
def stringAt : ℕ → ℕ → Reads Bytes
  | 0, _ => pure []
  | size + 1, p => do
    let c ← examine p
    if c = 0 then pure []
    else
      let s ← stringAt size (p + 1)
      pure (c :: s)

def indexAt : ℕ → ℕ → UInt8 → Reads (Option ℕ)
  | 0, _, _ => pure none
  | size + 1, p, c => do
    let b ← examine p
    if b = c then pure (some p)
    else if b = 0 then pure none
    else indexAt size (p + 1) c

/-- `while (*++p && isspace(*p));` gives the new `p`. -/
def skipspaceAt : ℕ → ℕ → Reads ℕ
  | 0, p => pure p
  | size + 1, p => do
    let c ← examine (p + 1)
    if c ≠ 0 && isspace c then skipspaceAt size (p + 1) else pure (p + 1)

/-- The prefix chain, test by test. -/
def headerNameAt : List (Bytes × HeaderName) → Reads HeaderName
  | [] => pure .other
  | e :: table => do
    let found ← agreesAt 0 e.1
    if found then pure e.2 else headerNameAt table

/-- NULL is returned after a message with the string at `p`. -/
def suppressAt (size p : ℕ) : Reads Flow := do
  let _ ← stringAt size p
  pure .suppress

/-- Skips to the value of a field. Without a value the loop ends. -/
def fieldValueAt (size p : ℕ) (test : ℕ → Reads Flow) : Reads Flow := do
  let p ← skipspaceAt size p
  let c ← examine p
  if c = 0 then pure .stop else test p

def autoSubmittedAt (size : ℕ) (r : Reader) (p : ℕ) : Reads Flow := do
  let no ← agreesAt p (bytes "no")
  if no then pure (.next { r with state := .noreply }) else suppressAt size 0

def precedenceAt (size : ℕ) (r : Reader) (p : ℕ) : Reads Flow := do
  let bulk ← agreesAny p [bytes "junk", bytes "bulk", bytes "list"]
  if bulk then suppressAt size p else pure (.next { r with state := .noreply })

def dispatchAt (size : ℕ) (r : Reader) : Reads Flow := do
  let name ← headerNameAt headerTable
  match name with
  | .capture k => pure (.next { r with state := .append, stripfield := true, currentHdr := some k })
  | .autoSubmitted => fieldValueAt size 15 (autoSubmittedAt size r)
  | .list => suppressAt size 0
  | .precedence =>
    let c ← examine 10
    if c = colon || c = 32 || c = 9 then
      let index ← indexAt size 0 colon
      match index with
      | some i => fieldValueAt size i (precedenceAt size r)
      | none => pure (.next { r with state := .noreply })
    else pure (.next { r with state := .noreply })
  | .autoResponseSuppress =>
    let h ← stringAt size 0
    if isSubstring (bytes "OOF") h false then suppressAt size 0
    else
      let h ← stringAt size 0
      if isSubstring (bytes "All") h false then suppressAt size 0
      else pure (.next { r with state := .noreply })
  | .recipient => pure (.next { r with state := .recipient })
  | .other =>
    let c ← examine 0
    if isspace c then pure (.next r) else pure (.next { r with state := .unknown })

/-- The offset that `append_header` appends from. -/
def valueAt (size : ℕ) (stripfield : Bool) : Reads (Option ℕ) :=
  if stripfield then do
    let index ← indexAt size 0 colon
    match index with
    | some i =>
      let p ← skipspaceAt size i
      pure (some p)
    | none => pure none
  else pure (some 0)

def appendHeaderAt (size : ℕ) (str : Option Bytes) (stripfield : Bool) :
    Reads (Option Bytes) := do
  let value ← valueAt size stripfield
  match value with
  | some p =>
    let v ← stringAt size p
    pure (some (yasltrim (yaslcat (str.getD []) v) [lf]))
  | none => pure none

def storeLineAt (size : ℕ) (r : Reader) : Reads Reader :=
  match r.state, r.currentHdr with
  | .recipient, _ => do
    let s ← stringAt size 0
    pure { r with rcptHdrs := yaslcatlen (yaslcat r.rcptHdrs s) (bytes " ") 1 }
  | .append, some k => do
    let v ← appendHeaderAt size (r.h.get k) r.stripfield
    pure { r with h := r.h.set k v, stripfield := false }
  | _, _ => pure r

/-- One iteration, from the test of the loop on. -/
def iterationAt (size : ℕ) (r : Reader) : Reads Flow := do
  let c ← examine 0
  if c = lf then pure .stop
  else
    let flow ← dispatchAt size r
    match flow with
    | .next r =>
      let r ← storeLineAt size r
      pure (.next r)
    | .stop => pure .stop
    | .suppress => pure .suppress

/-- The same iteration on strings. -/
def iteration (buf : Bytes) (r : Reader) : Flow :=
  if buf.headD 0 = lf then .stop
  else
    match dispatch buf r with
    | .next r => .next (storeLine buf r)
    | .stop => .stop
    | .suppress => .suppress

theorem cstr_at (buf : Bytes) (p : ℕ) : cstr (buf.drop p) =
    if memory buf p = 0 then [] else memory buf p :: cstr (buf.drop (p + 1)) := by
  unfold memory
  by_cases hp : p < buf.length
  · rw [List.drop_eq_getElem_cons hp, List.getD_eq_getElem _ _ hp]
    by_cases hc : buf[p] = 0
    · rw [if_pos hc, cstr, List.takeWhile_cons_of_neg (by simpa using hc)]
    · rw [if_neg hc, cstr, List.takeWhile_cons_of_pos (by simpa using hc)]
      rfl
  · have hdefault : buf.getD p 0 = 0 := List.getD_eq_default _ _ (by omega)
    rw [List.drop_eq_nil_of_le (by omega), hdefault]
    rfl

theorem agreesAt_iff (buf : Bytes) (p : ℕ) {s : Bytes} (h : 0 ∉ s) :
    (agreesAt p s).result (memory buf) = true ↔ lower s <+: lower (cstr (buf.drop p)) := by
  induction s generalizing p with
  | nil => simp [agreesAt, lower]
  | cons a s ih =>
    have ha : tolower a ≠ 0 := fun e => h (by simp [(tolower_eq_zero_iff a).mp e])
    have hs : 0 ∉ s := fun e => h (List.mem_cons_of_mem a e)
    rw [agreesAt, result_bind, result_examine, cstr_at]
    by_cases hc : memory buf p = 0
    · have hne : tolower a ≠ tolower 0 := ha
      simp [hc, hne, lower]
    · by_cases hac : tolower a = tolower (memory buf p)
      · rw [if_pos hac, if_neg hc, ih (p + 1) hs]
        simp [lower, hac]
      · simp [hac, hc, lower]

theorem agreesAt_result (buf : Bytes) (p : ℕ) {s : Bytes} (h : 0 ∉ s) :
    (agreesAt p s).result (memory buf) =
      decide (strncasecmp (cstr (buf.drop p)) s s.length = 0) := by
  rw [Bool.eq_iff_iff, agreesAt_iff buf p h, decide_eq_true_iff, strncasecmp_eq_zero_iff' h]

theorem agreesAny_result (buf : Bytes) (p : ℕ) {ss : List Bytes} (h : ∀ s ∈ ss, 0 ∉ s) :
    (agreesAny p ss).result (memory buf) =
      ss.any fun s => strncasecmp (cstr (buf.drop p)) s s.length = 0 := by
  induction ss with
  | nil => rfl
  | cons s ss ih =>
    have hss : ∀ t ∈ ss, 0 ∉ t := fun t ht => h t (List.mem_cons_of_mem s ht)
    rw [agreesAny, result_bind, agreesAt_result buf p (h s List.mem_cons_self), List.any_cons]
    cases decide (strncasecmp (cstr (buf.drop p)) s s.length = 0) with
    | true => rfl
    | false => exact ih hss

theorem stringAt_result (buf : Bytes) {size p : ℕ} (h : buf.length ≤ p + size) :
    (stringAt size p).result (memory buf) = cstr (buf.drop p) := by
  induction size generalizing p with
  | zero =>
    have hnil : buf.drop p = [] := List.drop_eq_nil_of_le h
    rw [hnil]
    rfl
  | succ size ih =>
    rw [stringAt, result_bind, result_examine, cstr_at]
    by_cases hc : memory buf p = 0
    · rw [if_pos hc, if_pos hc]
      rfl
    · rw [if_neg hc, if_neg hc, result_bind, ih (by omega)]
      rfl

theorem indexAt_result (buf : Bytes) {size p : ℕ} {c : UInt8} (hc : c ≠ 0)
    (h : buf.length ≤ p + size) : (indexAt size p c).result (memory buf) =
      (strchr (cstr (buf.drop p)) c).map fun i => p + i := by
  induction size generalizing p with
  | zero =>
    have hnil : buf.drop p = [] := List.drop_eq_nil_of_le h
    rw [hnil]
    rfl
  | succ size ih =>
    rw [indexAt, result_bind, result_examine, cstr_at]
    by_cases hb : memory buf p = c
    · rw [if_pos hb, hb, if_neg hc, strchr, List.idxOf?_cons]
      simp
    · rw [if_neg hb]
      by_cases hz : memory buf p = 0
      · rw [if_pos hz, if_pos hz]
        rfl
      · have hnext : strchr (memory buf p :: cstr (buf.drop (p + 1))) c =
            (strchr (cstr (buf.drop (p + 1))) c).map (· + 1) := by
          simp [strchr, List.idxOf?_cons, hb]
        rw [if_neg hz, if_neg hz, ih (by omega), hnext, Option.map_map]
        congr 1
        funext i
        exact Nat.add_right_comm p 1 i

/-- The string at the new `p` is what `skipspace` gives. -/
theorem skipspaceAt_result (buf : Bytes) {size p : ℕ} (h : buf.length ≤ p + size) :
    cstr (buf.drop ((skipspaceAt size p).result (memory buf))) = skipspace buf p := by
  induction size generalizing p with
  | zero =>
    have hnil : buf.drop (p + 1) = [] := List.drop_eq_nil_of_le (by omega)
    have hnil' : buf.drop p = [] := List.drop_eq_nil_of_le h
    rw [skipspace, hnil, skipspaceAt, result_pure, hnil']
    rfl
  | succ size ih =>
    rw [skipspaceAt, result_bind, result_examine, skipspace, cstr_at buf (p + 1)]
    by_cases hc : memory buf (p + 1) = 0
    · simp [hc, cstr_at buf (p + 1)]
    · by_cases hs : isspace (memory buf (p + 1)) = true
      · simp only [ne_eq, hc, not_false_eq_true, decide_true, hs, Bool.and_self, ite_true,
          ite_false]
        rw [ih (by omega), skipspace, List.dropWhile_cons_of_pos hs]
      · simp [hc, hs, cstr_at buf (p + 1)]

theorem memory_zero (buf : Bytes) : memory buf 0 = buf.headD 0 := by
  cases buf <;> rfl

theorem headerNameAt_result (buf : Bytes) :
    (headerNameAt headerTable).result (memory buf) = headerName (cstr buf) := by
  have hfind : ∀ table : List (Bytes × HeaderName), (∀ e ∈ table, 0 ∉ e.1) →
      (headerNameAt table).result (memory buf) =
        ((table.find? fun e => checkHeader (cstr buf) e.1 = 0).map Prod.snd).getD .other := by
    intro table htable
    induction table with
    | nil => rfl
    | cons e table ih =>
      have he : 0 ∉ e.1 := htable e List.mem_cons_self
      have htest : (agreesAt 0 e.1).result (memory buf) =
          decide (checkHeader (cstr buf) e.1 = 0) := by
        rw [Bool.eq_iff_iff, agreesAt_iff buf 0 he, decide_eq_true_iff, checkHeader,
          strncasecmp_eq_zero_iff he]
        rfl
      rw [headerNameAt, result_bind, htest, List.find?_cons]
      cases decide (checkHeader (cstr buf) e.1 = 0) with
      | true => rfl
      | false => exact ih fun e' he' => htable e' (List.mem_cons_of_mem e he')
  rw [hfind headerTable headerTable_noNul, headerName]
  cases headerTable.find? fun e => checkHeader (cstr buf) e.1 = 0 <;> rfl

theorem suppressAt_result (mem : ℕ → UInt8) (size p : ℕ) :
    (suppressAt size p).result mem = .suppress := by
  rw [suppressAt, result_bind, result_pure]

theorem isSubstring_cstr (n buf : Bytes) (name : Bool) :
    isSubstring n (cstr buf) name = isSubstring n buf name := by
  rw [isSubstring, isSubstring, cstr_eq_self (nul_notMem_cstr buf)]

/-- The first byte of the string at an offset. -/
theorem cstr_eq_nil_iff (buf : Bytes) (p : ℕ) : cstr (buf.drop p) = [] ↔ memory buf p = 0 := by
  rw [cstr_at]
  by_cases hc : memory buf p = 0 <;> simp [hc]

/-- A test of the value sees the string that is left behind the white space. -/
theorem fieldValueAt_result (buf : Bytes) {size p : ℕ} (h : buf.length ≤ p + size)
    {test : ℕ → Reads Flow} (spec : Bytes → Flow)
    (htest : ∀ q, (test q).result (memory buf) = spec (cstr (buf.drop q))) :
    (fieldValueAt size p test).result (memory buf) =
      if skipspace buf p = [] then .stop else spec (skipspace buf p) := by
  rw [← skipspaceAt_result buf h, fieldValueAt, result_bind, result_bind, result_examine]
  by_cases hc : memory buf ((skipspaceAt size p).result (memory buf)) = 0
  · rw [if_pos hc, if_pos ((cstr_eq_nil_iff buf _).mpr hc), result_pure]
  · rw [if_neg hc, if_neg (mt (cstr_eq_nil_iff buf _).mp hc), htest]

theorem autoSubmittedAt_result (buf : Bytes) (size : ℕ) (r : Reader) (p : ℕ) :
    (autoSubmittedAt size r p).result (memory buf) =
      if strncasecmp (cstr (buf.drop p)) (bytes "no") 2 ≠ 0 then .suppress
      else .next { r with state := .noreply } := by
  have hno : (0 : UInt8) ∉ bytes "no" := by decide +kernel
  have htest := agreesAt_result buf p hno
  change _ = decide (strncasecmp (cstr (buf.drop p)) (bytes "no") 2 = 0) at htest
  rw [autoSubmittedAt, result_bind, htest]
  by_cases hagree : strncasecmp (cstr (buf.drop p)) (bytes "no") 2 = 0
  · simp [hagree]
  · simp [hagree, suppressAt_result]

theorem precedenceAt_result (buf : Bytes) (size : ℕ) (r : Reader) (p : ℕ) :
    (precedenceAt size r p).result (memory buf) =
      if strncasecmp (cstr (buf.drop p)) (bytes "junk") 4 = 0 ||
          strncasecmp (cstr (buf.drop p)) (bytes "bulk") 4 = 0 ||
          strncasecmp (cstr (buf.drop p)) (bytes "list") 4 = 0 then .suppress
      else .next { r with state := .noreply } := by
  have hnoNul : ∀ s ∈ [bytes "junk", bytes "bulk", bytes "list"], (0 : UInt8) ∉ s := by
    decide +kernel
  have htest := agreesAny_result buf p hnoNul
  simp only [List.any_cons, List.any_nil, Bool.or_false, ← Bool.or_assoc] at htest
  change _ = (decide (strncasecmp (cstr (buf.drop p)) (bytes "junk") 4 = 0) ||
    decide (strncasecmp (cstr (buf.drop p)) (bytes "bulk") 4 = 0) ||
    decide (strncasecmp (cstr (buf.drop p)) (bytes "list") 4 = 0)) at htest
  rw [precedenceAt, result_bind, htest, apply_ite (result (memory buf)), suppressAt_result,
    result_pure]

theorem dispatchAt_result (buf : Bytes) {size : ℕ} (h : buf.length ≤ size) (r : Reader) :
    (dispatchAt size r).result (memory buf) = dispatch buf r := by
  have hfuel : ∀ p, buf.length ≤ p + size := fun p => Nat.le_add_left_of_le h
  unfold dispatchAt dispatch
  rw [result_bind, headerNameAt_result]
  dsimp only
  cases headerName (cstr buf) with
  | capture k => rfl
  | autoSubmitted =>
    exact fieldValueAt_result buf (hfuel 15)
      (fun v => if strncasecmp v (bytes "no") 2 ≠ 0 then .suppress
        else .next { r with state := .noreply })
      (autoSubmittedAt_result buf size r)
  | list => exact suppressAt_result _ _ _
  | precedence =>
    dsimp only
    rw [result_bind, result_examine, memory]
    by_cases hc : (decide (buf.getD 10 0 = colon) || decide (buf.getD 10 0 = 32) ||
        decide (buf.getD 10 0 = 9)) = true
    · have hindex := indexAt_result buf (c := colon) (by decide) (hfuel 0)
      rw [if_pos hc, if_pos hc, result_bind, hindex, List.drop_zero]
      cases strchr (cstr buf) colon with
      | none => rfl
      | some i =>
        rw [Option.map_some, Nat.zero_add]
        exact fieldValueAt_result buf (hfuel i)
          (fun v => if strncasecmp v (bytes "junk") 4 = 0 || strncasecmp v (bytes "bulk") 4 = 0 ||
            strncasecmp v (bytes "list") 4 = 0 then .suppress
            else .next { r with state := .noreply })
          (precedenceAt_result buf size r)
    · rw [if_neg hc, if_neg hc]
      rfl
  | autoResponseSuppress =>
    simp only [result_bind, stringAt_result buf (hfuel 0), List.drop_zero, isSubstring_cstr]
    by_cases hoof : isSubstring (bytes "OOF") buf false = true
    · simp [hoof, suppressAt_result]
    · by_cases hall : isSubstring (bytes "All") buf false = true
      · simp [hoof, hall, suppressAt_result, stringAt_result buf (hfuel 0), isSubstring_cstr]
      · simp [hoof, hall, stringAt_result buf (hfuel 0), isSubstring_cstr]
  | recipient => rfl
  | other =>
    simp only [result_bind, result_examine, memory_zero]
    by_cases hs : isspace (buf.headD 0) = true
    · rw [if_pos hs, if_pos hs, result_pure]
    · rw [if_neg hs, if_neg hs, result_pure]

/-- Where the value starts, the string appended is that of the reader on strings. -/
theorem valueAt_result (buf : Bytes) {size : ℕ} (h : buf.length ≤ size) (stripfield : Bool) :
    ((valueAt size stripfield).result (memory buf)).map (fun p => cstr (buf.drop p)) =
      if stripfield then (strchr (cstr buf) colon).map (skipspace buf) else some (cstr buf) := by
  cases stripfield with
  | false => rfl
  | true =>
    have hindex := indexAt_result buf (c := colon) (p := 0) (by decide) (Nat.le_add_left_of_le h)
    rw [if_pos rfl, valueAt, if_pos rfl, result_bind, hindex, List.drop_zero]
    cases strchr (cstr buf) colon with
    | none => rfl
    | some i =>
      simp only [Option.map_some, Nat.zero_add, result_bind, result_pure]
      rw [skipspaceAt_result buf (Nat.le_add_left_of_le h)]

theorem appendHeaderAt_result (buf : Bytes) {size : ℕ} (h : buf.length ≤ size)
    (str : Option Bytes) (stripfield : Bool) :
    (appendHeaderAt size str stripfield).result (memory buf) = appendHeader str buf stripfield := by
  rw [appendHeader, ← valueAt_result buf h, appendHeaderAt, result_bind]
  cases (valueAt size stripfield).result (memory buf) with
  | none => rfl
  | some p =>
    simp only [result_bind, result_pure, Option.map_some]
    rw [stringAt_result buf (Nat.le_add_left_of_le h)]

theorem storeLineAt_result (buf : Bytes) {size : ℕ} (h : buf.length ≤ size) (r : Reader) :
    (storeLineAt size r).result (memory buf) = storeLine buf r := by
  have hstring : (stringAt size 0).result (memory buf) = cstr buf :=
    stringAt_result buf (Nat.le_add_left_of_le h)
  unfold storeLineAt storeLine
  cases r.state with
  | recipient =>
    simp only [result_bind, result_pure, hstring, yaslcat, cstr_eq_self (nul_notMem_cstr buf)]
  | append =>
    cases r.currentHdr with
    | none => rfl
    | some k => simp only [result_bind, result_pure, appendHeaderAt_result buf h]
  | unknown => cases r.currentHdr <;> rfl
  | noreply => cases r.currentHdr <;> rfl

/-- Byte by byte or on strings, an iteration comes to the same. -/
theorem iterationAt_result (buf : Bytes) {size : ℕ} (h : buf.length ≤ size) (r : Reader) :
    (iterationAt size r).result (memory buf) = iteration buf r := by
  rw [iterationAt, iteration, result_bind, result_examine, memory_zero]
  by_cases hlf : buf.headD 0 = lf
  · rw [if_pos hlf, if_pos hlf, result_pure]
  · rw [if_neg hlf, if_neg hlf, result_bind, dispatchAt_result buf h]
    cases dispatch buf r with
    | next r => simp only [result_bind, result_pure, storeLineAt_result buf h]
    | stop => rfl
    | suppress => rfl

section Bounds

variable {mem : ℕ → UInt8} {stop : ℕ}

/-- A byte in front of the NUL has a next one that is not behind it. -/
theorem succ_le_of_ne_zero (hstop : mem stop = 0) {p : ℕ} (hp : p ≤ stop) (hc : mem p ≠ 0) :
    p + 1 ≤ stop := by
  have hne : p ≠ stop := by
    rintro rfl
    exact hc hstop
  omega

theorem ne_zero_of_tolower {a : UInt8} {s : Bytes} (h : 0 ∉ a :: s) {c : UInt8}
    (hac : tolower a = tolower c) : c ≠ 0 := by
  rintro rfl
  have ha : a = 0 := (tolower_eq_zero_iff a).mp hac
  exact h (by simp [ha])

theorem agreesAt_within (hstop : mem stop = 0) {p : ℕ} (hp : p ≤ stop) {s : Bytes} (h : 0 ∉ s) :
    (agreesAt p s).Within mem fun i => i ≤ stop := by
  induction s generalizing p with
  | nil => exact within_pure true
  | cons a s ih =>
    rw [agreesAt, within_bind, within_examine, result_examine]
    refine ⟨hp, ?_⟩
    by_cases hac : tolower a = tolower (mem p)
    · rw [if_pos hac]
      have hnext := succ_le_of_ne_zero hstop hp (ne_zero_of_tolower h hac)
      exact ih hnext fun e => h (List.mem_cons_of_mem a e)
    · rw [if_neg hac]
      exact within_pure false

/-- A literal that is found lies in front of the NUL. -/
theorem agreesAt_le (hstop : mem stop = 0) {p : ℕ} (hp : p ≤ stop) {s : Bytes} (h : 0 ∉ s)
    (hfound : (agreesAt p s).result mem = true) : p + s.length ≤ stop := by
  induction s generalizing p with
  | nil => exact hp
  | cons a s ih =>
    rw [agreesAt, result_bind, result_examine] at hfound
    by_cases hac : tolower a = tolower (mem p)
    · rw [if_pos hac] at hfound
      have hnext := succ_le_of_ne_zero hstop hp (ne_zero_of_tolower h hac)
      have hlen := ih hnext (fun e => h (List.mem_cons_of_mem a e)) hfound
      rw [List.length_cons]
      omega
    · rw [if_neg hac] at hfound
      exact Bool.noConfusion hfound

theorem agreesAny_within (hstop : mem stop = 0) {p : ℕ} (hp : p ≤ stop) {ss : List Bytes}
    (h : ∀ s ∈ ss, 0 ∉ s) : (agreesAny p ss).Within mem fun i => i ≤ stop := by
  induction ss with
  | nil => exact within_pure false
  | cons s ss ih =>
    rw [agreesAny, within_bind]
    refine ⟨agreesAt_within hstop hp (h s List.mem_cons_self), ?_⟩
    cases (agreesAt p s).result mem with
    | true => exact within_pure true
    | false => exact ih fun t ht => h t (List.mem_cons_of_mem s ht)

theorem headerNameAt_within (hstop : mem stop = 0) {table : List (Bytes × HeaderName)}
    (h : ∀ e ∈ table, 0 ∉ e.1) : (headerNameAt table).Within mem fun i => i ≤ stop := by
  induction table with
  | nil => exact within_pure _
  | cons e table ih =>
    rw [headerNameAt, within_bind]
    refine ⟨agreesAt_within hstop (Nat.zero_le stop) (h e List.mem_cons_self), ?_⟩
    cases (agreesAt 0 e.1).result mem with
    | true => exact within_pure e.2
    | false => exact ih fun e' he' => h e' (List.mem_cons_of_mem e he')

/-- A name that is found lies in front of the NUL. -/
theorem headerNameAt_le (hstop : mem stop = 0) {table : List (Bytes × HeaderName)}
    (h : ∀ e ∈ table, 0 ∉ e.1) : (headerNameAt table).result mem = .other ∨
      ∃ e ∈ table, (headerNameAt table).result mem = e.2 ∧ e.1.length ≤ stop := by
  induction table with
  | nil => exact Or.inl rfl
  | cons e table ih =>
    rw [headerNameAt, result_bind]
    cases hfound : (agreesAt 0 e.1).result mem with
    | true =>
      have hlen := agreesAt_le hstop (Nat.zero_le stop) (h e List.mem_cons_self) hfound
      exact Or.inr ⟨e, List.mem_cons_self, rfl, by omega⟩
    | false =>
      rcases ih fun e' he' => h e' (List.mem_cons_of_mem e he') with hother | ⟨e', he', hname, hlen⟩
      · exact Or.inl hother
      · exact Or.inr ⟨e', List.mem_cons_of_mem e he', hname, hlen⟩

theorem stringAt_within (hstop : mem stop = 0) (size : ℕ) {p : ℕ} (hp : p ≤ stop) :
    (stringAt size p).Within mem fun i => i ≤ stop := by
  induction size generalizing p with
  | zero => exact within_pure []
  | succ size ih =>
    rw [stringAt, within_bind, within_examine, result_examine]
    refine ⟨hp, ?_⟩
    by_cases hc : mem p = 0
    · rw [if_pos hc]
      exact within_pure []
    · rw [if_neg hc, within_bind]
      exact ⟨ih (succ_le_of_ne_zero hstop hp hc), within_pure _⟩

theorem indexAt_within (hstop : mem stop = 0) (size : ℕ) {p : ℕ} (hp : p ≤ stop) (c : UInt8) :
    (indexAt size p c).Within mem fun i => i ≤ stop := by
  induction size generalizing p with
  | zero => exact within_pure none
  | succ size ih =>
    rw [indexAt, within_bind, within_examine, result_examine]
    refine ⟨hp, ?_⟩
    by_cases hb : mem p = c
    · rw [if_pos hb]
      exact within_pure _
    · by_cases hz : mem p = 0
      · rw [if_neg hb, if_pos hz]
        exact within_pure none
      · rw [if_neg hb, if_neg hz]
        exact ih (succ_le_of_ne_zero hstop hp hz)

/-- A byte that is found lies in front of the NUL. -/
theorem indexAt_lt (hstop : mem stop = 0) {size p i : ℕ} (hp : p ≤ stop) {c : UInt8} (hc : c ≠ 0)
    (h : (indexAt size p c).result mem = some i) : i < stop := by
  induction size generalizing p with
  | zero => cases h
  | succ size ih =>
    rw [indexAt, result_bind, result_examine] at h
    by_cases hb : mem p = c
    · rw [if_pos hb] at h
      have hnext := succ_le_of_ne_zero hstop hp (hb ▸ hc)
      cases h
      omega
    · by_cases hz : mem p = 0
      · rw [if_neg hb, if_pos hz] at h
        cases h
      · rw [if_neg hb, if_neg hz] at h
        exact ih (succ_le_of_ne_zero hstop hp hz) h

theorem skipspaceAt_within (hstop : mem stop = 0) (size : ℕ) {p : ℕ} (hp : p < stop) :
    (skipspaceAt size p).Within mem (fun i => i ≤ stop) ∧
      (skipspaceAt size p).result mem ≤ stop := by
  induction size generalizing p with
  | zero => exact ⟨within_pure p, Nat.le_of_lt hp⟩
  | succ size ih =>
    rw [skipspaceAt, within_bind, within_examine, result_bind, result_examine]
    by_cases hc : (decide (mem (p + 1) ≠ 0) && isspace (mem (p + 1))) = true
    · have hne : mem (p + 1) ≠ 0 := of_decide_eq_true (Bool.and_eq_true_iff.mp hc).1
      rw [if_pos hc]
      have hnext := ih (succ_le_of_ne_zero hstop hp hne)
      exact ⟨⟨hp, hnext.1⟩, hnext.2⟩
    · rw [if_neg hc]
      exact ⟨⟨hp, within_pure _⟩, hp⟩

theorem suppressAt_within (hstop : mem stop = 0) (size : ℕ) {p : ℕ} (hp : p ≤ stop) :
    (suppressAt size p).Within mem fun i => i ≤ stop := by
  rw [suppressAt, within_bind]
  exact ⟨stringAt_within hstop size hp, within_pure _⟩

theorem fieldValueAt_within (hstop : mem stop = 0) (size : ℕ) {p : ℕ} (hp : p < stop)
    {test : ℕ → Reads Flow} (htest : ∀ q ≤ stop, (test q).Within mem fun i => i ≤ stop) :
    (fieldValueAt size p test).Within mem fun i => i ≤ stop := by
  have hskip := skipspaceAt_within hstop size hp
  rw [fieldValueAt, within_bind, within_bind, within_examine, result_examine]
  refine ⟨hskip.1, hskip.2, ?_⟩
  by_cases hc : mem ((skipspaceAt size p).result mem) = 0
  · rw [if_pos hc]
    exact within_pure _
  · rw [if_neg hc]
    exact htest _ hskip.2

/-- A branch is reached only behind the whole name that leads to it. -/
theorem length_le_of_name (hstop : mem stop = 0) {name : HeaderName} {n : ℕ}
    (hname : (headerNameAt headerTable).result mem = name) (hother : name ≠ .other)
    (hlen : ∀ e ∈ headerTable, e.2 = name → e.1.length = n) : n ≤ stop := by
  rcases headerNameAt_le hstop headerTable_noNul with h | ⟨e, he, hentry, hle⟩
  · exact absurd (hname.symm.trans h) hother
  · rwa [hlen e he (hentry.symm.trans hname)] at hle

/-- Only the test behind `Auto-Submitted:` takes a byte in front of it for granted. -/
theorem dispatchAt_within (hstop : mem stop = 0) (size : ℕ) (r : Reader)
    (h : (headerNameAt headerTable).result mem = .autoSubmitted → stop ≠ 15) :
    (dispatchAt size r).Within mem fun i => i ≤ stop := by
  have hzero := Nat.zero_le stop
  rw [dispatchAt, within_bind]
  refine ⟨headerNameAt_within hstop headerTable_noNul, ?_⟩
  have hnoNul : ∀ s ∈ [bytes "no", bytes "junk", bytes "bulk", bytes "list"], (0 : UInt8) ∉ s := by
    decide +kernel
  cases hname : (headerNameAt headerTable).result mem with
  | capture k => exact within_pure _
  | autoSubmitted =>
    have h15 : 15 ≤ stop := length_le_of_name hstop hname (by decide) (by decide +kernel)
    have hlt : 15 < stop := Nat.lt_of_le_of_ne h15 (h hname).symm
    refine fieldValueAt_within hstop size hlt fun q hq => ?_
    rw [autoSubmittedAt, within_bind]
    refine ⟨agreesAt_within hstop hq (hnoNul _ (by simp)), ?_⟩
    split
    · exact within_pure _
    · exact suppressAt_within hstop size hzero
  | list => exact suppressAt_within hstop size hzero
  | precedence =>
    have h10 : 10 ≤ stop := length_le_of_name hstop hname (by decide) (by decide +kernel)
    dsimp only
    rw [within_bind, within_examine, result_examine]
    refine ⟨h10, ?_⟩
    split
    · rw [within_bind]
      refine ⟨indexAt_within hstop size hzero colon, ?_⟩
      cases hi : (indexAt size 0 colon).result mem with
      | none => exact within_pure _
      | some i =>
        have hlt : i < stop := indexAt_lt hstop hzero (by decide) hi
        refine fieldValueAt_within hstop size hlt fun q hq => ?_
        rw [precedenceAt, within_bind]
        refine ⟨agreesAny_within hstop hq fun s hs => hnoNul s (List.mem_cons_of_mem _ hs), ?_⟩
        split
        · exact suppressAt_within hstop size hq
        · exact within_pure _
    · exact within_pure _
  | autoResponseSuppress =>
    dsimp only
    rw [within_bind]
    refine ⟨stringAt_within hstop size hzero, ?_⟩
    split
    · exact suppressAt_within hstop size hzero
    · rw [within_bind]
      refine ⟨stringAt_within hstop size hzero, ?_⟩
      split
      · exact suppressAt_within hstop size hzero
      · exact within_pure _
  | recipient => exact within_pure _
  | other =>
    dsimp only
    rw [within_bind, within_examine]
    refine ⟨hzero, ?_⟩
    split
    · exact within_pure _
    · exact within_pure _

/-- The value starts at the NUL at the latest. -/
theorem valueAt_within (hstop : mem stop = 0) (size : ℕ) (stripfield : Bool) :
    (valueAt size stripfield).Within mem (fun i => i ≤ stop) ∧
      ∀ p, (valueAt size stripfield).result mem = some p → p ≤ stop := by
  have hzero := Nat.zero_le stop
  cases stripfield with
  | false =>
    refine ⟨within_pure _, fun p hp => ?_⟩
    cases hp
    exact hzero
  | true =>
    rw [valueAt, if_pos rfl, within_bind, result_bind]
    refine ⟨⟨indexAt_within hstop size hzero colon, ?_⟩, ?_⟩
    · cases hi : (indexAt size 0 colon).result mem with
      | none => exact within_pure _
      | some i =>
        have hlt : i < stop := indexAt_lt hstop hzero (by decide) hi
        dsimp only
        rw [within_bind]
        exact ⟨(skipspaceAt_within hstop size hlt).1, within_pure _⟩
    · intro p hp
      cases hi : (indexAt size 0 colon).result mem with
      | none =>
        rw [hi] at hp
        cases hp
      | some i =>
        have hlt : i < stop := indexAt_lt hstop hzero (by decide) hi
        rw [hi] at hp
        dsimp only at hp
        rw [result_bind] at hp
        cases hp
        exact (skipspaceAt_within hstop size hlt).2

theorem storeLineAt_within (hstop : mem stop = 0) (size : ℕ) (r : Reader) :
    (storeLineAt size r).Within mem fun i => i ≤ stop := by
  unfold storeLineAt
  cases r.state with
  | recipient =>
    dsimp only
    rw [within_bind]
    exact ⟨stringAt_within hstop size (Nat.zero_le stop), within_pure _⟩
  | append =>
    cases r.currentHdr with
    | none => exact within_pure _
    | some k =>
      dsimp only
      rw [within_bind, appendHeaderAt, within_bind]
      refine ⟨⟨(valueAt_within hstop size r.stripfield).1, ?_⟩, within_pure _⟩
      cases hp : (valueAt size r.stripfield).result mem with
      | none => exact within_pure _
      | some p =>
        dsimp only
        rw [within_bind]
        have hle := (valueAt_within hstop size r.stripfield).2 p hp
        exact ⟨stringAt_within hstop size hle, within_pure _⟩
  | unknown => cases r.currentHdr <;> exact within_pure _
  | noreply => cases r.currentHdr <;> exact within_pure _

theorem iterationAt_within (hstop : mem stop = 0) (size : ℕ) (r : Reader)
    (h : (headerNameAt headerTable).result mem = .autoSubmitted → stop ≠ 15) :
    (iterationAt size r).Within mem fun i => i ≤ stop := by
  rw [iterationAt, within_bind, within_examine]
  refine ⟨Nat.zero_le stop, ?_⟩
  split
  · exact within_pure _
  · rw [within_bind]
    refine ⟨dispatchAt_within hstop size r h, ?_⟩
    cases (dispatchAt size r).result mem with
    | next r' =>
      dsimp only
      rw [within_bind]
      exact ⟨storeLineAt_within hstop size r', within_pure _⟩
    | stop => exact within_pure _
    | suppress => exact within_pure _

end Bounds

/-- An iteration stays in front of a NUL unless `Auto-Submitted:` ends there. -/
theorem iterationAt_within_iff {buf : Bytes} {stop size : ℕ} (hstop : memory buf stop = 0)
    (hsize : buf.length ≤ size) (r : Reader) :
    ((iterationAt size r).Within (memory buf) fun i => i ≤ stop) ↔
      (headerName buf = .autoSubmitted → stop ≠ 15) := by
  have hresult : (headerNameAt headerTable).result (memory buf) = headerName buf := by
    rw [headerNameAt_result, headerName_cstr]
  constructor
  · rintro h hname rfl
    have hlf : memory buf 0 ≠ lf := by
      intro e
      have hspace : isspace (buf.headD 0) = true := by
        rw [← memory_zero, e]
        decide
      rw [headerName_of_isspace hspace] at hname
      exact HeaderName.noConfusion hname
    have hlen := (autoSubmitted_iff.mp hname).length_le
    rw [lower_length, lower_length] at hlen
    obtain ⟨fuel, rfl⟩ : ∃ fuel, size = fuel + 1 := by
      have hfield : (bytes "Auto-Submitted:").length = 15 := by decide +kernel
      exact ⟨size - 1, by omega⟩
    rw [iterationAt, within_bind, result_examine, if_neg hlf, within_bind, dispatchAt, within_bind,
      hresult, hname] at h
    -- the loop increments before it looks, so its first byte is at 16
    have hskip : (skipspaceAt (fuel + 1) 15).Within (memory buf) fun i => i ≤ 15 :=
      ((within_bind _ _).mp h.2.1.2).1
    rw [skipspaceAt, within_bind, within_examine] at hskip
    exact absurd hskip.1 (by decide)
  · intro h
    exact iterationAt_within hstop size r (by rwa [hresult])

end Simvacation.BufferReads
