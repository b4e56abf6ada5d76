import Simvacation.BufferReads
import Simvacation.Messages

/-!
Where the header reader looks while it reads a message. Each iteration of the
loop is recorded with the string `fgets` stored and the offsets examined. The
reader stays in front of the terminating NUL except at one kind of line, and
where it stays there nothing that is left in the buffer has an influence.
-/

namespace Simvacation.LineEnds

open CString Readheaders HeaderLines Messages Probe BufferReads

/-- What the loop returns after an iteration that left the reader `r` behind. -/
def resume (r : Reader) (next : Reader → Option Reader) : Flow → Option Reader
  | .next r' => next r'
  | .stop => some r
  | .suppress => none

/-- The iterations of the loop: the string stored and the offsets examined. -/
def iterations (buf : Bytes) (r : Reader) : List Bytes → List (Bytes × List ℕ)
  | [] => []
  | line :: reads =>
    let buf := fgetsStore buf line
    let body := iterationAt buf.length r
    (line, body.examined (memory buf)) ::
      match body.result (memory buf) with
      | .next r => iterations buf r reads
      | .stop => []
      | .suppress => []

/-- A read that the loop gets to, if each line is read on its own. -/
def Reached (reads : List Bytes) (line : Bytes) : Prop :=
  ∃ pre post, reads = pre ++ line :: post ∧ ∀ k ∈ pre, ¬ Ends k ∧ ¬ Suppresses k

/-- Reading a message never looks past the current line, where a line ends at the offset that
`stop` gives; and the headers are those of the lines. -/
structure NeverPast (stop : Bytes → ℕ) (stdin : Bytes) : Prop where
  within : ∀ stack, ∀ it ∈ iterations stack Reader.init (fgetsReads MAXLINE stdin),
    ∀ i ∈ it.2, i ≤ stop it.1
  forgets : ∀ stack names, readheaders stack names stdin =
    (lineLoop Reader.init (fgetsReads MAXLINE stdin)).map (finish names)

theorem headerLoop_cons (buf line : Bytes) (r : Reader) (reads : List Bytes) :
    headerLoop buf r (line :: reads) = resume r
      (fun r' => headerLoop (fgetsStore buf line) r' reads)
      (iteration (fgetsStore buf line) r) := by
  rw [headerLoop, iteration]
  split
  · rfl
  · cases dispatch (fgetsStore buf line) r <;> rfl

theorem lineLoop_cons (line : Bytes) (r : Reader) (lines : List Bytes) :
    lineLoop r (line :: lines) = resume r (fun r' => lineLoop r' lines) (iteration line r) := by
  rw [lineLoop, iteration]
  split
  · rfl
  · cases dispatch line r <;> rfl

/-- The bytes up to the terminating NUL are those of the line. -/
theorem memory_fgetsStore {buf line : Bytes} {i : ℕ} (h : i ≤ line.length) :
    memory (fgetsStore buf line) i = memory line i := getD_fgetsStore h

/-- An iteration that does not look past the line comes out as on the line alone. -/
theorem iteration_fgetsStore {buf line : Bytes} {r : Reader}
    (h : (iterationAt (fgetsStore buf line).length r).Within (memory (fgetsStore buf line))
      fun i => i ≤ line.length) :
    iteration (fgetsStore buf line) r = iteration line r := by
  have hlen : line.length ≤ (fgetsStore buf line).length := by
    rw [fgetsStore, List.length_append]
    exact Nat.le_add_right _ _
  rw [← iterationAt_result _ (Nat.le_refl _), ← iterationAt_result line hlen]
  exact (result_congr _ (h.imp fun i hi => memory_fgetsStore hi)).symm

theorem iteration_cases (line : Bytes) (r : Reader) :
    (Ends line ∧ iteration line r = .stop) ∨
      (Suppresses line ∧ iteration line r = .suppress) ∨
      (¬ Ends line ∧ ¬ Suppresses line ∧ ∃ r', iteration line r = .next r') := by
  unfold iteration Ends
  by_cases hlf : line.headD 0 = lf
  · rw [if_pos hlf]
    exact Or.inl ⟨Or.inl hlf, rfl⟩
  · rw [if_neg hlf]
    rcases dispatch_cases line r with ⟨hs, hd⟩ | ⟨hs, hd⟩ | ⟨hstop, hs, hd⟩
    · exact Or.inl ⟨Or.inr hs, by rw [hd]⟩
    · exact Or.inr (Or.inl ⟨hs, by rw [hd]⟩)
    · exact Or.inr (Or.inr ⟨not_or_intro hlf hstop, hs, ⟨_, by rw [hd]⟩⟩)

theorem reached_cons_iff {k line : Bytes} {reads : List Bytes} :
    Reached (k :: reads) line ↔
      line = k ∨ (¬ Ends k ∧ ¬ Suppresses k) ∧ Reached reads line := by
  constructor
  · rintro ⟨pre, post, heq, hpre⟩
    cases pre with
    | nil => exact Or.inl (List.cons.inj heq).1.symm
    | cons k' pre =>
      obtain ⟨rfl, htail⟩ := List.cons.inj heq
      exact Or.inr ⟨hpre k List.mem_cons_self, pre, post, htail,
        fun j hj => hpre j (List.mem_cons_of_mem k hj)⟩
  · rintro (rfl | ⟨hk, pre, post, rfl, hpre⟩)
    · exact ⟨[], reads, rfl, fun _ h => absurd h List.not_mem_nil⟩
    · refine ⟨k :: pre, post, rfl, fun j hj => ?_⟩
      rcases List.mem_cons.mp hj with rfl | hj
      · exact hk
      · exact hpre j hj

/-- If no iteration looks past its line, the loop is that over the lines. -/
theorem headerLoop_of_within {reads : List Bytes} {buf : Bytes} {r : Reader}
    (h : ∀ it ∈ iterations buf r reads, ∀ i ∈ it.2, i ≤ it.1.length) :
    headerLoop buf r reads = lineLoop r reads := by
  induction reads generalizing buf r with
  | nil => rfl
  | cons line reads ih =>
    unfold iterations at h
    obtain ⟨hline, hrest⟩ := List.forall_mem_cons.mp h
    have hsame := iteration_fgetsStore hline
    rw [iterationAt_result _ (Nat.le_refl _), hsame] at hrest
    rw [headerLoop_cons, lineLoop_cons, hsame]
    cases hflow : iteration line r with
    | stop => rfl
    | suppress => rfl
    | next r' =>
      rw [hflow] at hrest
      exact ih hrest

/-- A terminating NUL: at the end of the line, or at the first NUL in it. -/
structure Terminates (stop : Bytes → ℕ) : Prop where
  le : ∀ line, stop line ≤ line.length
  nul : ∀ line, memory line (stop line) = 0

theorem terminates_length : Terminates List.length where
  le _ := Nat.le_refl _
  nul line := List.getD_eq_default line 0 (Nat.le_refl _)

theorem terminates_cstr : Terminates fun line => (cstr line).length where
  le line := (prefix_of_cstr line).length_le
  nul line := by
    rw [← cstr_eq_nil_iff, cstr_drop (Nat.le_refl _), List.drop_length]

/-- Only lines that the loop gets to count, and of these only `Auto-Submitted:` and its NUL. -/
theorem within_iff {stop : Bytes → ℕ} (hstop : Terminates stop) (reads : List Bytes)
    (buf : Bytes) (r : Reader) :
    (∀ it ∈ iterations buf r reads, ∀ i ∈ it.2, i ≤ stop it.1) ↔
      ∀ line, Reached reads line → headerName line = .autoSubmitted → stop line ≠ 15 := by
  induction reads generalizing buf r with
  | nil =>
    refine ⟨fun _ line h => ?_, fun _ it h => absurd h List.not_mem_nil⟩
    obtain ⟨pre, post, heq, -⟩ := h
    exact absurd heq.symm (by simp)
  | cons line reads ih =>
    have hnul : memory (fgetsStore buf line) (stop line) = 0 := by
      rw [memory_fgetsStore (hstop.le line), hstop.nul]
    have hline := iterationAt_within_iff hnul (Nat.le_refl _) r
    rw [headerName_fgetsStore] at hline
    unfold iterations
    rw [List.forall_mem_cons]
    -- an iteration within its line goes on as the line alone says, so both sides go on together
    constructor
    · rintro ⟨hhead, hrest⟩ l hl
      have hgood := hline.mp hhead
      have hsame := iteration_fgetsStore fun i hi => (hhead i hi).trans (hstop.le line)
      rcases reached_cons_iff.mp hl with rfl | ⟨⟨hends, hsup⟩, hlater⟩
      · exact hgood
      · rw [iterationAt_result _ (Nat.le_refl _), hsame] at hrest
        rcases iteration_cases line r with ⟨he, -⟩ | ⟨hs, -⟩ | ⟨-, -, r', hnext⟩
        · exact absurd he hends
        · exact absurd hs hsup
        · rw [hnext] at hrest
          exact (ih _ r').mp hrest l hlater
    · intro h
      have hhead := hline.mpr (h line (reached_cons_iff.mpr (Or.inl rfl)))
      have hsame := iteration_fgetsStore fun i hi => (hhead i hi).trans (hstop.le line)
      refine ⟨hhead, ?_⟩
      rw [iterationAt_result _ (Nat.le_refl _), hsame]
      rcases iteration_cases line r with ⟨-, hnext⟩ | ⟨-, hnext⟩ | ⟨hends, hsup, r', hnext⟩
      · rw [hnext]
        exact fun _ hit => absurd hit List.not_mem_nil
      · rw [hnext]
        exact fun _ hit => absurd hit List.not_mem_nil
      · rw [hnext]
        exact (ih _ r').mpr fun l hl => h l (reached_cons_iff.mpr (Or.inr ⟨⟨hends, hsup⟩, hl⟩))

/-- What the reader takes for `Auto-Submitted:` and what has no byte behind the colon. -/
theorem autoSubmitted_ends_iff {text : Bytes} :
    (headerName text = .autoSubmitted ∧ text.length = 15) ↔
      lower text = bytes "auto-submitted:" := by
  have hlower : lower (bytes "Auto-Submitted:") = bytes "auto-submitted:" := by decide +kernel
  have hfield : (bytes "auto-submitted:").length = 15 := by decide +kernel
  rw [autoSubmitted_iff, hlower]
  constructor
  · rintro ⟨hname, hlen⟩
    exact (hname.eq_of_length (by rw [lower_length, hfield, hlen])).symm
  · intro heq
    rw [heq, ← lower_length, heq]
    exact ⟨List.prefix_refl _, hfield⟩

theorem neverPast_of_terminates {stop : Bytes → ℕ} (hstop : Terminates stop) (stdin : Bytes) :
    NeverPast stop stdin ↔ ∀ line, Reached (fgetsReads MAXLINE stdin) line →
      headerName line = .autoSubmitted → stop line ≠ 15 := by
  constructor
  · intro h
    exact (within_iff hstop _ [] _).mp (h.within [])
  · intro h
    have hwithin := fun stack => (within_iff hstop _ stack Reader.init).mpr h
    refine ⟨hwithin, fun stack names => ?_⟩
    have hloop := headerLoop_of_within fun it hit i hi => (hwithin stack it hit i hi).trans
      (hstop.le it.1)
    rw [readheaders, hloop]
    rfl

/-- The reader stays in front of the NUL that ends the C string, or of the one that `fgets` put,
unless it gets to a line with nothing between the name `Auto-Submitted:` and that NUL. -/
theorem neverPast_iff (stdin : Bytes) :
    (NeverPast (fun line => (cstr line).length) stdin ↔
      ∀ line, Reached (fgetsReads MAXLINE stdin) line →
        lower (cstr line) ≠ bytes "auto-submitted:") ∧
    (NeverPast List.length stdin ↔
      ∀ line, Reached (fgetsReads MAXLINE stdin) line → lower line ≠ bytes "auto-submitted:") := by
  constructor
  · rw [neverPast_of_terminates terminates_cstr]
    refine forall₂_congr fun line _ => ?_
    rw [← not_and, ← headerName_cstr, autoSubmitted_ends_iff]
  · rw [neverPast_of_terminates terminates_length]
    refine forall₂_congr fun line _ => ?_
    rw [← not_and, autoSubmitted_ends_iff]

/-- The last line has no line feed, and what an earlier line left there suppresses the reply. -/
theorem leftover_suppresses :
    ¬ NeverPast (fun line => (cstr line).length)
        (bytes "Received: by mx.example.com\nAuto-Submitted:") ∧
      ¬ NeverPast List.length (bytes "Received: by mx.example.com\nAuto-Submitted:") := by
  have hdiffer : readheaders [] [] (bytes "Received: by mx.example.com\nAuto-Submitted:") ≠
      (lineLoop Reader.init (fgetsReads MAXLINE
        (bytes "Received: by mx.example.com\nAuto-Submitted:"))).map (finish []) := by
    decide +kernel
  exact ⟨fun h => hdiffer (h.forgets [] []), fun h => hdiffer (h.forgets [] [])⟩

end Simvacation.LineEnds
