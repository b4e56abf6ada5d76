import Simvacation.BulkMail
import Simvacation.ResponderLoop

/-!
The Auto-Submitted field. What should decide is the keyword its value begins
with. What decides is a text that starts one byte behind the colon and is cut
where the first read of the line ends; its first two letters are compared. The
field is honoured when this text tells about the keyword what it should, and
when no later piece of a line interferes.
-/

namespace Simvacation.AutoSubmitted

open CString Yasl Vutil Readheaders HeaderLines Messages BulkMail SendMessage ResponderLoop

/-- Header lines of any length; behind them nothing, or the empty line and a body. -/
def rawMessage (lines : List Bytes) (body : Option Bytes) : Bytes :=
  printLines lines ++ match body with
    | none => []
    | some body => lf :: body

/-- The characters up to a semicolon, a parenthesis, or white space. -/
def keyword (value : Bytes) : Bytes := value.takeWhile fun c => c ≠ 59 && c ≠ 40 && !isspace c

/-- The message says that it is no automatic one. -/
def SaysNo (value : Bytes) : Prop := lower (keyword value) = bytes "no"

/-- An Auto-Submitted field on one line. -/
structure OneLine where
  name : Bytes
  blank : Bytes
  value : Bytes
  name_auto : lower name = bytes "auto-submitted:"
  blank_wsp : ∀ c ∈ blank, isWsp c
  value_head : ∃ c ∈ value.head?, isWsp c = false
  no_lf : lf ∉ value
  no_nul : 0 ∉ value

def OneLine.text (f : OneLine) : Bytes := f.name ++ (f.blank ++ f.value)

/-- The text that is compared: of what the first read of the line holds behind
the colon, the first byte is passed over, and then white space. -/
def OneLine.tested (f : OneLine) : Bytes :=
  (((f.blank ++ f.value ++ [lf]).take (MAXLINE - 16)).drop 1).dropWhile isspace

/-- The reads of the line behind the first one. -/
def OneLine.later (f : OneLine) : List Bytes := (pieces f.text).tail

/-- The tested text is right about the keyword, and later reads do not interfere. -/
structure Honoured (f : OneLine) (later : List Bytes) : Prop where
  of_no : SaysNo f.value →
    f.tested = [] ∨ (bytes "no" <+: lower f.tested ∧ ¬ Suppressed later)
  of_other : ¬ SaysNo f.value →
    f.tested ≠ [] ∧ (bytes "no" <+: lower f.tested → Suppressed later)

/-- The header section is read line by line, whatever the buffer held before, and the
empty line ends it whatever stands behind. -/
theorem readheaders_rawMessage_eq {lines : List Bytes} (hlf : ∀ line ∈ lines, lf ∉ line)
    (stack : Bytes) (names : List Bytes) (body : Option Bytes) :
    readheaders stack names (rawMessage lines body) =
      (lineLoop Reader.init (lines.flatMap pieces)).map (finish names) := by
  obtain ⟨rest, hreads, hrest⟩ : ∃ rest, fgetsReads MAXLINE (rawMessage lines body) =
      lines.flatMap pieces ++ rest ∧ (rest = [] ∨ rest.head? = some [lf]) := by
    cases body with
    | none => exact ⟨[], fgetsReads_printLines hlf [], Or.inl rfl⟩
    | some body =>
      refine ⟨[lf] :: fgetsReads MAXLINE body, ?_, Or.inr rfl⟩
      have hempty : fgetsReads MAXLINE (lf :: body) = [lf] :: fgetsReads MAXLINE body :=
        fgetsReads_line List.not_mem_nil (by decide)
      rw [rawMessage, fgetsReads_printLines hlf, hempty]
  have hclean : ∀ line ∈ lines.flatMap pieces, Clean line := by
    intro line hline
    obtain ⟨l, -, hl⟩ := List.mem_flatMap.mp hline
    exact clean_fgetsReads List.getLast?_concat line hl
  rw [readheaders, hreads, headerLoop_append_empty _ _ _ _ hrest, headerLoop_eq_lineLoop hclean]
  rfl

theorem readheaders_rawMessage {lines : List Bytes} (hlf : ∀ line ∈ lines, lf ∉ line)
    (stack : Bytes) (names : List Bytes) (body : Option Bytes) :
    readheaders stack names (rawMessage lines body) = none ↔
      Suppressed (lines.flatMap pieces) := by
  rw [readheaders_rawMessage_eq hlf, Option.map_eq_none_iff, lineLoop_eq_none_iff]

namespace OneLine

variable (f : OneLine)

theorem name_length : f.name.length = 15 := by
  rw [← lower_length, f.name_auto]
  rfl

theorem notMem_blank {c : UInt8} (hc : isWsp c = false) : c ∉ f.blank := by
  intro h
  rw [f.blank_wsp c h] at hc
  contradiction

theorem notMem_name {c : UInt8} (hc : tolower c ∉ bytes "auto-submitted:") : c ∉ f.name := by
  intro h
  apply hc
  rw [← f.name_auto]
  exact List.mem_map_of_mem h

theorem lf_notMem_text : lf ∉ f.text := by
  rw [text, List.mem_append, List.mem_append, not_or, not_or]
  exact ⟨f.notMem_name (by decide), f.notMem_blank (by decide), f.no_lf⟩

/-- The first read of the line. -/
def first : Bytes := f.name ++ (f.blank ++ f.value ++ [lf]).take (MAXLINE - 16)

theorem pieces_text : pieces f.text = f.first :: f.later := by
  have hne : f.text ++ [lf] ≠ [] := by simp
  have hfirst : (fgetsSplit (MAXLINE - 1) (f.text ++ [lf])).1 = f.first := by
    rw [fgetsSplit_take _ f.lf_notMem_text, text, List.append_assoc, List.take_append,
      f.name_length, List.take_of_length_le (by rw [f.name_length]; decide)]
    rfl
  obtain ⟨c, s, hs⟩ := List.exists_cons_of_ne_nil hne
  have hpieces : pieces f.text = f.first :: fgetsReads MAXLINE
      (fgetsSplit (MAXLINE - 1) (f.text ++ [lf])).2 := by
    rw [← hfirst, pieces, hs]
    exact fgetsReads_cons (by decide) c s
  rw [later, hpieces]
  rfl

theorem nul_notMem_first : 0 ∉ f.first := by
  rw [first, List.mem_append, not_or]
  refine ⟨f.notMem_name (by decide), fun h => ?_⟩
  have hmem := List.mem_of_mem_take h
  rw [List.mem_append, List.mem_append] at hmem
  rcases hmem with (hmem | hmem) | hmem
  · exact f.notMem_blank (by decide) hmem
  · exact f.no_nul hmem
  · exact absurd hmem (by decide)

theorem headerName_first : headerName f.first = .autoSubmitted := by
  rw [autoSubmitted_iff, first, lower_append, f.name_auto]
  exact List.prefix_append _ _

theorem skipspace_first : skipspace f.first 15 = f.tested := by
  have hdrop : f.first.drop (15 + 1) =
      ((f.blank ++ f.value ++ [lf]).take (MAXLINE - 16)).drop 1 := by
    rw [← List.drop_drop, first, ← f.name_length, List.drop_left]
  have hnul : 0 ∉ ((f.blank ++ f.value ++ [lf]).take (MAXLINE - 16)).drop 1 := by
    rw [← hdrop]
    exact fun h => f.nul_notMem_first (List.mem_of_mem_drop h)
  rw [skipspace, hdrop, cstr_eq_self hnul, tested]

/-- The loop ends at the first read if the tested text is empty, and returns
NULL if it does not begin with `no`. -/
theorem suppressed_pieces (rest : List Bytes) : Suppressed (pieces f.text ++ rest) ↔
    f.tested ≠ [] ∧ (¬ bytes "no" <+: lower f.tested ∨ Suppressed (f.later ++ rest)) := by
  have hhead : f.first.headD 0 ≠ lf := by
    intro h
    have hlf : lf ∉ f.name := f.notMem_name (by decide)
    cases hname : f.name with
    | nil => simpa [hname] using f.name_length
    | cons c s =>
      rw [first, hname, List.cons_append, List.headD_cons] at h
      rw [hname, h] at hlf
      exact hlf List.mem_cons_self
  have hno : strncasecmp f.tested (bytes "no") 2 = 0 ↔ bytes "no" <+: lower f.tested :=
    strncasecmp_eq_zero_iff' (show 0 ∉ bytes "no" by decide)
  have hends : Ends f.first ↔ f.tested = [] := by
    rw [Ends, or_iff_right hhead, Stops, headerName_first, skipspace_first]
    simp
  have hsuppresses : Suppresses f.first ↔
      f.tested ≠ [] ∧ ¬ bytes "no" <+: lower f.tested := by
    rw [Suppresses, headerName_first, skipspace_first, ← hno]
    simp
  rw [pieces_text, List.cons_append, Suppressed, hends, hsuppresses]
  by_cases hempty : f.tested = []
  · simp [hempty]
  · simp [hempty]

end OneLine

/-- A message whose Auto-Submitted field is reached gets no response exactly
when its keyword is another one than `no`, if and only if the field is honoured. -/
theorem auto_submitted_iff (stack : Bytes) (names : List Bytes) {before after : List Bytes}
    (f : OneLine) (body : Option Bytes) (hbefore : ∀ line ∈ before, lf ∉ line)
    (hafter : ∀ line ∈ after, lf ∉ line)
    (hreached : ∀ piece ∈ before.flatMap pieces, ¬ Ends piece ∧ ¬ Suppresses piece) :
    (readheaders stack names (rawMessage (before ++ f.text :: after) body) = none ↔
        ¬ SaysNo f.value) ↔
      Honoured f (f.later ++ after.flatMap pieces) := by
  have hlf : ∀ line ∈ before ++ f.text :: after, lf ∉ line := by
    intro line hline
    rcases List.mem_append.mp hline with hline | hline
    · exact hbefore line hline
    · rcases List.mem_cons.mp hline with rfl | hline
      · exact f.lf_notMem_text
      · exact hafter line hline
  rw [readheaders_rawMessage hlf, List.flatMap_append, List.flatMap_cons,
    suppressed_append_of_pass hreached, f.suppressed_pieces]
  constructor
  · intro hiff
    constructor
    · intro hno
      have hnot := mt hiff.mp (not_not.mpr hno)
      by_cases hempty : f.tested = []
      · exact Or.inl hempty
      · rw [and_iff_right hempty, not_or, not_not] at hnot
        exact Or.inr hnot
    · intro hother
      obtain ⟨hne, hcases⟩ := hiff.mpr hother
      exact ⟨hne, fun hstarts => hcases.resolve_left (not_not.mpr hstarts)⟩
  · intro h
    constructor
    · rintro ⟨hne, hcases⟩ hno
      rcases h.of_no hno with hempty | ⟨hstarts, hlater⟩
      · exact hne hempty
      · exact hcases.elim (fun e => e hstarts) hlater
    · intro hother
      obtain ⟨hne, hlater⟩ := h.of_other hother
      refine ⟨hne, ?_⟩
      by_cases hstarts : bytes "no" <+: lower f.tested
      · exact Or.inr (hlater hstarts)
      · exact Or.inl hstarts

/-- A field of one read, with a blank behind its colon, is honoured unless its
value begins with the letters of `no` and goes on with the same word. -/
theorem honoured_iff_of_fits (f : OneLine) (hblank : f.blank ≠ [])
    (hhead : ∃ c ∈ f.value.head?, isspace c = false) (hfits : f.text.length < MAXLINE - 1) :
    Honoured f f.later ↔ (bytes "no" <+: lower f.value → SaysNo f.value) := by
  obtain ⟨c, hc, hspace⟩ := hhead
  obtain ⟨value, hvalue⟩ := List.head?_eq_some_iff.mp hc
  obtain ⟨b, blank, hb⟩ := List.exists_cons_of_ne_nil hblank
  have hlater : f.later = [] := by
    rw [OneLine.later, pieces, fgetsReads_line f.lf_notMem_text (by omega)]
    rfl
  have htested : f.tested = f.value ++ [lf] := by
    have hlen : (f.blank ++ f.value ++ [lf]).length ≤ MAXLINE - 16 := by
      have := f.name_length
      simp only [OneLine.text, List.length_append, List.length_singleton] at hfits ⊢
      omega
    have hskip : ∀ c ∈ blank, isspace c = true := by
      intro c hc
      exact isspace_of_isWsp (f.blank_wsp c (hb ▸ List.mem_cons_of_mem _ hc))
    rw [OneLine.tested, List.take_of_length_le hlen, hb, List.append_assoc, List.cons_append,
      List.drop_one, List.tail_cons, List.dropWhile_append_of_pos hskip, hvalue,
      List.cons_append, List.dropWhile_cons_of_neg (by simp [hspace])]
  have hne : f.tested ≠ [] := by simp [htested]
  have hstarts : bytes "no" <+: lower f.tested ↔ bytes "no" <+: lower f.value := by
    rw [htested, lower_append]
    constructor
    · intro h
      rcases List.prefix_concat_iff.mp h with heq | h
      · have hlast := congrArg List.getLast? heq
        rw [List.getLast?_concat] at hlast
        exact absurd hlast (by decide)
      · exact h
    · exact fun h => h.trans (List.prefix_append _ _)
  have hend : ¬ Suppressed f.later := by simp [hlater, Suppressed]
  constructor
  · intro h hno
    by_contra hother
    exact hend ((h.of_other hother).2 (hstarts.mpr hno))
  · intro h
    constructor
    · intro hno
      have hword : bytes "no" <+: lower f.value := by
        rw [← hno]
        exact (List.takeWhile_prefix _).map tolower
      exact Or.inr ⟨hstarts.mpr hword, hend⟩
    · exact fun hother => ⟨hne, fun hno => absurd (h (hstarts.mp hno)) hother⟩

/-- `Auto-Submitted: auto-replied`. -/
def autoReplied : OneLine where
  name := bytes "Auto-Submitted:"
  blank := [32]
  value := bytes "auto-replied"
  name_auto := by decide
  blank_wsp := List.forall_mem_singleton.mpr rfl
  value_head := ⟨97, by decide, by decide⟩
  no_lf := by decide
  no_nul := by decide

/-- `Auto-Submitted: none`, with another keyword than `no`. -/
def notNo : OneLine where
  name := bytes "Auto-Submitted:"
  blank := [32]
  value := bytes "none"
  name_auto := by decide
  blank_wsp := List.forall_mem_singleton.mpr rfl
  value_head := ⟨110, by decide, by decide⟩
  no_lf := by decide
  no_nul := by decide

def linesBefore : List Bytes := [bytes "Received: from mx.example.com", bytes "Precedence: urgent"]

/-- The list header is behind the field, on a line of its own. -/
def linesAfter : List Bytes := [bytes "To: bob@example.com", bytes "List-Id: <staff.example.com>"]

theorem auto_replied_suppressed :
    (readheaders (bytes "no") [bytes "bob"]
          (rawMessage (linesBefore ++ autoReplied.text :: linesAfter) (some (bytes "Away."))) =
        none ↔ ¬ SaysNo autoReplied.value) ↔
      Honoured autoReplied (autoReplied.later ++ linesAfter.flatMap pieces) :=
  auto_submitted_iff (bytes "no") [bytes "bob"] autoReplied (some (bytes "Away.")) (by decide)
    (by decide) (by decide +kernel)

/-- The keyword `none` is taken for `no`. -/
theorem none_answered : ¬ ∀ (stack : Bytes) (names : List Bytes) (before after : List Bytes)
    (f : OneLine) (body : Option Bytes), (∀ line ∈ before, lf ∉ line) →
      (∀ line ∈ after, lf ∉ line) →
      (∀ piece ∈ before.flatMap pieces, ¬ Ends piece ∧ ¬ Suppresses piece) →
      (∀ piece ∈ after.flatMap pieces, ¬ Suppresses piece) →
      (readheaders stack names (rawMessage (before ++ f.text :: after) body) = none ↔
        ¬ SaysNo f.value) := by
  intro h
  have hnone := h [] [] [] [] notNo none (by decide) (by decide) (by simp) (by simp)
  have hno : ¬ SaysNo notNo.value := by rw [SaysNo]; decide
  exact absurd (hnone.mpr hno) (by decide +kernel)

end Simvacation.AutoSubmitted
