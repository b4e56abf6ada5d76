import Simvacation.HeaderLines

/-!
Messages whose header lines end in a line feed and fit one read of the buffer.
The header section is the list of its lines; behind it stands either nothing,
or the empty line and a body. Reading such a message is the line loop on the
header section, whatever the buffer held before and whatever the body is.
-/

namespace Simvacation.Messages

open CString Yasl Vutil Readheaders HeaderLines

/-- A header line without its line feed. -/
structure Line where
  text : Bytes
  nonempty : text ≠ []
  noLf : lf ∉ text
  short : text.length ≤ 998

def Line.read (l : Line) : Bytes := l.text ++ [lf]

/-- `none` for a message that ends with its header section. -/
def message (lines : List Line) (body : Option Bytes) : Bytes :=
  lines.flatMap Line.read ++ match body with
    | none => []
    | some body => lf :: body

theorem Line.clean (l : Line) : Clean l.read := clean_of_lf l.text

theorem Line.headD_ne_lf (l : Line) : l.read.headD 0 ≠ lf := by
  obtain ⟨c, s, hs⟩ := List.exists_cons_of_ne_nil l.nonempty
  have hlf := l.noLf
  simp only [read, hs, List.cons_append, List.headD_cons]
  rintro rfl
  exact hlf (by simp [hs])

theorem headD_read (l : Line) : l.read.headD 0 = l.text.headD 0 := by
  obtain ⟨c, s, hs⟩ := List.exists_cons_of_ne_nil l.nonempty
  rw [Line.read, hs, List.cons_append, List.headD_cons, List.headD_cons]

theorem headerName_continuation {l : Line} (h : isspace (l.text.headD 0) = true) :
    headerName l.read = .other :=
  headerName_of_isspace (by rwa [headD_read])

theorem reads_message (lines : List Line) (body : Option Bytes) :
    ∃ rest, fgetsReads MAXLINE (message lines body) = lines.map Line.read ++ rest ∧
      (rest = [] ∨ rest.head? = some [lf]) := by
  induction lines with
  | nil =>
    cases body with
    | none => exact ⟨[], rfl, Or.inl rfl⟩
    | some body =>
      refine ⟨[lf] :: fgetsReads MAXLINE body, ?_, Or.inr rfl⟩
      have hempty : lf ∉ ([] : Bytes) := List.not_mem_nil
      exact fgetsReads_line hempty (by decide)
  | cons l lines ih =>
    obtain ⟨rest, heq, hrest⟩ := ih
    refine ⟨rest, ?_, hrest⟩
    have hsplit : message (l :: lines) body = l.text ++ lf :: message lines body := by
      simp [message, Line.read]
    have hshort : l.text.length + 1 < MAXLINE := by
      have := l.short
      simp only [MAXLINE]
      omega
    rw [hsplit, fgetsReads_line l.noLf hshort, heq]
    rfl

/-- The loop does not look behind the empty line. -/
theorem headerLoop_append_empty (buf : Bytes) (r : Reader) (reads rest : List Bytes)
    (h : rest = [] ∨ rest.head? = some [lf]) :
    headerLoop buf r (reads ++ rest) = headerLoop buf r reads := by
  induction reads generalizing buf r with
  | nil =>
    cases rest with
    | nil => rfl
    | cons line rest =>
      have hline : line = [lf] := by simpa using h
      simp [headerLoop, hline, fgetsStore]
  | cons line reads ih =>
    simp only [List.cons_append, headerLoop, ih]

def finish (names : List Bytes) (r : Reader) : Headers :=
  { r.h with rcptMatch := names.any fun n => isSubstring n r.rcptHdrs true }

theorem readheaders_message (stack : Bytes) (names : List Bytes) (lines : List Line)
    (body : Option Bytes) : readheaders stack names (message lines body) =
      (lineLoop Reader.init (lines.map Line.read)).map (finish names) := by
  obtain ⟨rest, heq, hrest⟩ := reads_message lines body
  have hclean : ∀ line ∈ lines.map Line.read, Clean line := by
    intro line hline
    obtain ⟨l, -, rfl⟩ := List.mem_map.mp hline
    exact l.clean
  rw [readheaders, heq, headerLoop_append_empty _ _ _ _ hrest, headerLoop_eq_lineLoop hclean]
  rfl

/-- NULL is returned exactly when a line suppresses the reply before one ends the loop. -/
theorem readheaders_eq_none_iff (stack : Bytes) (names : List Bytes) (lines : List Line)
    (body : Option Bytes) : readheaders stack names (message lines body) = none ↔
      Suppressed (lines.map Line.read) := by
  rw [readheaders_message, Option.map_eq_none_iff, lineLoop_eq_none_iff]

theorem Line.ends_iff (l : Line) : Ends l.read ↔ Stops l.read :=
  or_iff_right l.headD_ne_lf

/-- The same decision for the lines of a header section. -/
theorem suppressed_read_iff (lines : List Line) : Suppressed (lines.map Line.read) ↔
    (∃ l ∈ lines, Suppresses l.read) ∧ ∀ pre l post, lines = pre ++ l :: post →
      Stops l.read → ∃ k ∈ pre, Suppresses k.read := by
  rw [suppressed_iff]
  constructor
  · intro hparts
    obtain ⟨⟨line, hline, hs⟩, hall⟩ := hparts
    obtain ⟨l, hl, rfl⟩ := List.mem_map.mp hline
    refine ⟨⟨l, hl, hs⟩, ?_⟩
    rintro pre l post rfl hstop
    obtain ⟨k, hk, hks⟩ := hall (pre.map Line.read) l.read (post.map Line.read)
      (by rw [List.map_append, List.map_cons]) (l.ends_iff.mpr hstop)
    obtain ⟨j, hj, rfl⟩ := List.mem_map.mp hk
    exact ⟨j, hj, hks⟩
  · intro hparts
    obtain ⟨⟨l, hl, hs⟩, hall⟩ := hparts
    refine ⟨⟨l.read, List.mem_map_of_mem hl, hs⟩, ?_⟩
    intro pre line post heq hends
    obtain ⟨ls, ks, rfl, rfl, hks⟩ := List.map_eq_append_iff.mp heq
    obtain ⟨k, rest, rfl, rfl, rfl⟩ := List.map_eq_cons_iff.mp hks
    obtain ⟨j, hj, hjs⟩ := hall ls k rest rfl (k.ends_iff.mp hends)
    exact ⟨j.read, List.mem_map_of_mem hj, hjs⟩

end Simvacation.Messages
