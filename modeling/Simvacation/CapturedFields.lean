import Simvacation.Messages
import Simvacation.ResponseHeaders

/-!
The captured fields. A header section is a list of fields, each a first line
with the continuation lines behind it, and what the reader captures under a
name is the text of all fields with that name. The reader itself goes line by
line: `gather` follows one captured value through the lines, given the field
that is open, and is the link between the two.
-/

namespace Simvacation.CapturedFields

open CString Yasl Readheaders HeaderLines Messages ResponseHeaders

def isContinuation (l : Line) : Bool := isspace (l.text.headD 0)

/-- The fields of a header section. White space in front of the first field belongs to none. -/
def fields : List Line → List (Line × List Line)
  | [] => []
  | l :: lines =>
    if isContinuation l then fields lines else (l, lines.takeWhile isContinuation) :: fields lines

def captureName : Capture → Bytes
  | .messageid => bytes "message-id:"
  | .references => bytes "references:"
  | .inreplyto => bytes "in-reply-to:"
  | .subject => bytes "subject:"

/-- The occurrences of a field, in any letter case. -/
def occurrences (k : Capture) (lines : List Line) : List (Line × List Line) :=
  (fields lines).filter fun f => (captureName k).isPrefixOf (lower f.1.text)

/-- The rest of a first line behind its colon, without leading white space. -/
def fieldBody (text : Bytes) : Bytes := ((text.dropWhile (· ≠ colon)).drop 1).dropWhile isspace

def fieldText (f : Line × List Line) : Bytes := fieldBody f.1.text ++ f.2.flatMap Line.text

/-- All occurrences of a field one after the other, null if there is none. -/
def captured (k : Capture) (lines : List Line) : Option Bytes :=
  if occurrences k lines = [] then none else some ((occurrences k lines).flatMap fieldText)

/-- What one line adds to the field that is open at it. -/
def piece (l : Line) : Bytes := if isContinuation l then l.text else fieldBody l.text

/-- The captured field that is open once a line has been read. -/
def openAfter (current : Option Capture) (line : Bytes) : Option Capture :=
  match headerName line with
  | .capture k => some k
  | .other => if isspace (line.headD 0) then current else none
  | _ => none

/-- A captured value, followed through the lines. -/
def gather (k : Capture) (current : Option Capture) (v : Option Bytes) : List Line → Option Bytes
  | [] => v
  | l :: lines =>
    let current := openAfter current l.read
    gather k current (if current = some k then some (v.getD [] ++ piece l) else v) lines

/-- The captured field a reader is at. -/
def openField (r : Reader) : Option Capture := if r.state = .append then r.currentHdr else none

/-- No captured value contains a line feed or a NUL. -/
def PlainValues (h : Headers) : Prop := ∀ k, ∀ v ∈ h.get k, lf ∉ v ∧ 0 ∉ v

theorem yasltrim_lf {s : Bytes} (hlf : lf ∉ s) (hnul : 0 ∉ s) :
    yasltrim s [lf] = s ∧ yasltrim (s ++ [lf]) [lf] = s := by
  have hkeep : ∀ c ∈ s, ¬ (decide (c = 0) || [lf].contains c) = true := by
    intro c hc
    have hc0 : c ≠ 0 := fun e => hnul (e ▸ hc)
    have hclf : c ≠ lf := fun e => hlf (e ▸ hc)
    simp [hc0, hclf]
  have hright : s.rdropWhile (fun c => decide (c = 0) || [lf].contains c) = s :=
    List.rdropWhile_eq_self_iff.mpr fun hne => hkeep _ (List.getLast_mem hne)
  unfold yasltrim
  cases s with
  | nil => decide
  | cons c s =>
    have hleft : ∀ t, (c :: t).dropWhile (fun c => decide (c = 0) || [lf].contains c) = c :: t :=
      fun t => List.dropWhile_cons_of_neg (hkeep c List.mem_cons_self)
    rw [List.cons_append, hleft, hleft]
    refine ⟨hright, ?_⟩
    rw [← List.cons_append, List.rdropWhile_concat_pos _ _ _ (by decide)]
    exact hright

theorem fieldBody_append {name rest : Bytes} (h : colon ∉ name) :
    fieldBody (name ++ colon :: rest) = rest.dropWhile isspace := by
  have hname : ∀ c ∈ name, decide (c ≠ colon) = true := by
    intro c hc
    exact decide_eq_true fun e => h (e ▸ hc)
  rw [fieldBody, List.dropWhile_append_of_pos hname, List.dropWhile_cons_of_neg (by simp)]
  rfl

theorem mem_fieldBody {text : Bytes} {c : UInt8} (h : c ∈ fieldBody text) : c ∈ text := by
  have hsub := (List.dropWhile_suffix isspace).subset h
  exact (List.dropWhile_suffix _).subset (List.mem_of_mem_drop hsub)

theorem mem_piece {l : Line} {c : UInt8} (h : c ∈ piece l) : c ∈ l.text := by
  unfold piece at h
  split at h
  · exact h
  · exact mem_fieldBody h

section

variable {v : Option Bytes} {l : Line}

/-- A continuation line is appended without its line feed. -/
theorem appendHeader_continuation (hv : ∀ s ∈ v, lf ∉ s ∧ 0 ∉ s) (hnul : 0 ∉ l.text) :
    appendHeader v l.read false = some (v.getD [] ++ l.text) := by
  have hread : 0 ∉ l.read := by
    rw [Line.read, List.mem_append, not_or]
    exact ⟨hnul, by decide⟩
  have hplain : lf ∉ v.getD [] ++ l.text ∧ 0 ∉ v.getD [] ++ l.text := by
    rw [List.mem_append, List.mem_append, not_or, not_or]
    cases v with
    | none => exact ⟨⟨List.not_mem_nil, l.noLf⟩, List.not_mem_nil, hnul⟩
    | some s => exact ⟨⟨(hv s rfl).1, l.noLf⟩, (hv s rfl).2, hnul⟩
  simp only [appendHeader, Bool.false_eq_true, ite_false, Option.map_some, cstr_eq_self hread,
    yaslcat]
  rw [Line.read, ← List.append_assoc, (yasltrim_lf hplain.1 hplain.2).2]

/-- Of a first line, what stands behind the colon and the white space is appended. -/
theorem appendHeader_first (hv : ∀ s ∈ v, lf ∉ s ∧ 0 ∉ s) (hnul : 0 ∉ l.text)
    (hcolon : colon ∈ l.text) :
    appendHeader v l.read true = some (v.getD [] ++ fieldBody l.text) := by
  obtain ⟨i, hi⟩ := Option.ne_none_iff_exists'.mp fun e => strchr_eq_none_iff.mp e hcolon
  obtain ⟨name, rest, htext, -, hname⟩ := strchr_eq_some_iff.mp hi
  have hline : l.read = name ++ colon :: (rest ++ [lf]) := by
    rw [Line.read, htext, List.append_assoc, List.cons_append]
  have hread : 0 ∉ l.read := by
    rw [Line.read, List.mem_append, not_or]
    exact ⟨hnul, by decide⟩
  have htail : 0 ∉ rest ++ [lf] := by
    intro h
    apply hread
    rw [hline]
    exact List.mem_append_right _ (List.mem_cons_of_mem _ h)
  have hskip : skipspace l.read name.length = (rest ++ [lf]).dropWhile isspace := by
    rw [skipspace, hline, ← List.drop_drop, List.drop_left, List.drop_one, List.tail_cons,
      cstr_eq_self htail]
  have hbody : fieldBody l.text = rest.dropWhile isspace := by rw [htext, fieldBody_append hname]
  have hplain : lf ∉ v.getD [] ++ fieldBody l.text ∧ 0 ∉ v.getD [] ++ fieldBody l.text := by
    rw [List.mem_append, List.mem_append, not_or, not_or]
    have hlf : lf ∉ fieldBody l.text := fun h => l.noLf (mem_fieldBody h)
    have hnul' : 0 ∉ fieldBody l.text := fun h => hnul (mem_fieldBody h)
    cases v with
    | none => exact ⟨⟨List.not_mem_nil, hlf⟩, List.not_mem_nil, hnul'⟩
    | some s => exact ⟨⟨(hv s rfl).1, hlf⟩, (hv s rfl).2, hnul'⟩
  have hstr : strchr (cstr l.read) colon = some name.length := by
    rw [cstr_eq_self hread, hline, strchr_append_cons hname]
  have hsome : appendHeader v l.read true =
      some (yasltrim (yaslcat (v.getD []) (skipspace l.read name.length)) [lf]) := by
    simp only [appendHeader, ite_true, hstr, Option.map_some]
  have hcstr : cstr (skipspace l.read name.length) = skipspace l.read name.length := by
    apply cstr_eq_self
    rw [hskip]
    exact fun h => htail ((List.dropWhile_suffix _).subset h)
  rw [hsome, yaslcat, hcstr, hskip, List.dropWhile_append, ← hbody]
  congr 1
  by_cases hempty : fieldBody l.text = []
  · rw [hempty] at hplain ⊢
    rw [List.append_nil] at hplain ⊢
    rw [if_pos List.isEmpty_nil, show [lf].dropWhile isspace = [] by decide, List.append_nil]
    exact (yasltrim_lf hplain.1 hplain.2).1
  · rw [if_neg (by simpa using hempty), ← List.append_assoc]
    exact (yasltrim_lf hplain.1 hplain.2).2

end

theorem capture_iff (k : Capture) (l : Line) :
    headerName l.read = .capture k ↔ captureName k <+: lower l.text := by
  have hlf : ∀ k, lf ∉ captureName k := by
    intro k
    cases k <;> decide
  have hline : captureName k <+: lower l.read ↔ captureName k <+: lower l.text := by
    rw [Line.read, lower_append, show lower [lf] = [lf] by decide, List.prefix_concat_iff]
    refine or_iff_right fun heq => hlf k ?_
    rw [heq]
    exact List.mem_append_right _ (List.mem_singleton.mpr rfl)
  have hentry : ∃ e ∈ headerTable, e.2 = .capture k ∧ lower e.1 = captureName k ∧
      ∀ e' ∈ headerTable, e'.2 = e.2 → e' = e := by
    cases k <;> decide
  obtain ⟨e, he, hk, hname, hunique⟩ := hentry
  have hother : e.2 ≠ .other := by
    rw [hk]
    exact HeaderName.noConfusion
  rw [← hline, ← hk, ← hname]
  exact headerName_eq_iff he hother hunique

theorem tolower_eq_colon_iff (c : UInt8) : tolower c = colon ↔ c = colon := by
  apply forall_byte (P := fun c => tolower c = colon ↔ c = colon)
  decide +kernel

/-- A captured field has its colon. -/
theorem colon_mem_of_capture {k : Capture} {l : Line} (h : headerName l.read = .capture k) :
    colon ∈ l.text := by
  have hname : colon ∈ captureName k := by cases k <;> decide
  obtain ⟨c, hc, heq⟩ := List.mem_map.mp (((capture_iff k l).mp h).subset hname)
  rwa [(tolower_eq_colon_iff c).mp heq] at hc

theorem isContinuation_of_other {l : Line} {k : Capture} (h : headerName l.read = .capture k) :
    isContinuation l = false := by
  by_contra hne
  rw [headerName_continuation (eq_true_of_ne_false hne)] at h
  cases h

theorem openField_settle (line : Bytes) (r : Reader) :
    openField (settle line r) = openAfter (openField r) line := by
  unfold settle openAfter
  cases headerName line with
  | other =>
    by_cases hsp : isspace (line.headD 0) = true
    · simp only [hsp, ite_true]
    · simp only [hsp, ite_false, Bool.false_eq_true]
      rfl
  | _ => rfl

/-- Only the first line of a captured field is stripped. -/
theorem stripfield_settle {line : Bytes} {r : Reader} (hstrip : r.stripfield = false) :
    (settle line r).stripfield = true ↔ ∃ k, headerName line = .capture k := by
  unfold settle
  cases hname : headerName line with
  | capture k => exact iff_of_true rfl ⟨k, rfl⟩
  | other =>
    by_cases hsp : isspace (line.headD 0) = true
    · simp only [hsp, ite_true, hstrip]
      simp
    · simp only [hsp, ite_false, hstrip, Bool.false_eq_true]
      simp
  | _ => simp [hstrip]

theorem storeLine_of_closed {r : Reader} (h : openField r = none) (line : Bytes) :
    (storeLine line r).h = r.h ∧ (storeLine line r).stripfield = r.stripfield ∧
      openField (storeLine line r) = none := by
  unfold openField at h
  cases hs : r.state with
  | append =>
    rw [if_pos hs] at h
    simp only [storeLine, hs, h, openField, ite_true, and_self]
  | _ => simp [storeLine, hs, openField]

theorem storeLine_of_open {r : Reader} {j : Capture} (h : openField r = some j) (line : Bytes) :
    (storeLine line r).h = r.h.set j (appendHeader (r.h.get j) line r.stripfield) ∧
      (storeLine line r).stripfield = false ∧ openField (storeLine line r) = some j := by
  unfold openField at h
  split at h
  · next hs => simp only [storeLine, hs, h, openField, ite_true, and_self]
  · cases h

/-- What a line adds to the field that is open when it is stored. -/
theorem appendHeader_piece {r : Reader} {l : Line} {j : Capture} (hstrip : r.stripfield = false)
    (hvalues : PlainValues r.h) (hnul : 0 ∉ l.text)
    (hopen : openAfter (openField r) l.read = some j) :
    appendHeader (r.h.get j) l.read (settle l.read r).stripfield =
      some ((r.h.get j).getD [] ++ piece l) := by
  by_cases hcapture : ∃ k, headerName l.read = .capture k
  · obtain ⟨k, hk⟩ := hcapture
    have hpiece : piece l = fieldBody l.text := by
      rw [piece, isContinuation_of_other hk, if_neg (by decide)]
    rw [(stripfield_settle hstrip).mpr ⟨k, hk⟩, hpiece]
    exact appendHeader_first (hvalues j) hnul (colon_mem_of_capture hk)
  · have hcont : isContinuation l = true := by
      unfold openAfter at hopen
      split at hopen
      · next k hk => exact absurd ⟨k, hk⟩ hcapture
      · split at hopen
        · next hspace => rwa [isContinuation, ← headD_read]
        · cases hopen
      · cases hopen
    have hfalse : (settle l.read r).stripfield = false := by
      rw [← Bool.not_eq_true, stripfield_settle hstrip]
      exact hcapture
    rw [hfalse, piece, if_pos hcont]
    exact appendHeader_continuation (hvalues j) hnul

/-- What one line does to the captured values. -/
theorem get_storeLine {r : Reader} {l : Line} (hstrip : r.stripfield = false)
    (hvalues : PlainValues r.h) (hnul : 0 ∉ l.text) :
    (storeLine l.read (settle l.read r)).stripfield = false ∧
      openField (storeLine l.read (settle l.read r)) = openAfter (openField r) l.read ∧
      ∀ k, (storeLine l.read (settle l.read r)).h.get k =
        if openAfter (openField r) l.read = some k then some ((r.h.get k).getD [] ++ piece l)
        else r.h.get k := by
  have hafter := openField_settle l.read r
  cases hopen : openAfter (openField r) l.read with
  | none =>
    rw [hopen] at hafter
    obtain ⟨hh, hs, ho⟩ := storeLine_of_closed hafter l.read
    refine ⟨?_, ho, fun k => ?_⟩
    · rw [hs, ← Bool.not_eq_true, stripfield_settle hstrip]
      rintro ⟨k, hk⟩
      simp [openAfter, hk] at hopen
    · rw [hh, (settle_keeps _ _).1, if_neg (by simp)]
  | some j =>
    rw [hopen] at hafter
    obtain ⟨hh, hs, ho⟩ := storeLine_of_open hafter l.read
    refine ⟨hs, ho, fun k => ?_⟩
    rw [hh, (settle_keeps _ _).1, get_set, appendHeader_piece hstrip hvalues hnul hopen]
    by_cases hk : k = j
    · rw [if_pos hk, if_pos (congrArg some hk.symm), hk]
    · rw [if_neg hk, if_neg fun e => hk (Option.some.inj e).symm]

theorem plainValues_storeLine {r : Reader} {l : Line} (hstrip : r.stripfield = false)
    (hvalues : PlainValues r.h) (hnul : 0 ∉ l.text) :
    PlainValues (storeLine l.read (settle l.read r)).h := by
  intro k v hv
  rw [(get_storeLine hstrip hvalues hnul).2.2 k] at hv
  split at hv
  · cases hv
    rw [List.mem_append, List.mem_append, not_or, not_or]
    have hlf : lf ∉ piece l := fun h => l.noLf (mem_piece h)
    have hnul' : 0 ∉ piece l := fun h => hnul (mem_piece h)
    cases hk : r.h.get k with
    | none => exact ⟨⟨List.not_mem_nil, hlf⟩, List.not_mem_nil, hnul'⟩
    | some s =>
      obtain ⟨hslf, hsnul⟩ := hvalues k s hk
      exact ⟨⟨hslf, hlf⟩, hsnul, hnul'⟩
  · exact hvalues k v hv

/-- The loop goes through the whole header section and gathers every captured field. -/
theorem lineLoop_gather {lines : List Line}
    (hpass : ∀ l ∈ lines, ¬ Stops l.read ∧ ¬ Suppresses l.read) (hnul : ∀ l ∈ lines, 0 ∉ l.text)
    {r : Reader} (hstrip : r.stripfield = false) (hvalues : PlainValues r.h) :
    ∃ r', lineLoop r (lines.map Line.read) = some r' ∧
      ∀ k, r'.h.get k = gather k (openField r) (r.h.get k) lines := by
  induction lines generalizing r with
  | nil => exact ⟨r, rfl, fun k => rfl⟩
  | cons l lines ih =>
    obtain ⟨hstop, hsuppress⟩ := hpass l List.mem_cons_self
    have hl := hnul l List.mem_cons_self
    obtain ⟨hs, ho, hget⟩ := get_storeLine hstrip hvalues hl
    obtain ⟨r', hloop, hr'⟩ := ih (fun j hj => hpass j (List.mem_cons_of_mem l hj))
      (fun j hj => hnul j (List.mem_cons_of_mem l hj)) hs (plainValues_storeLine hstrip hvalues hl)
    refine ⟨r', ?_, fun k => ?_⟩
    · rw [List.map_cons, lineLoop, if_neg l.headD_ne_lf]
      rcases dispatch_cases l.read r with ⟨h, -⟩ | ⟨h, -⟩ | ⟨-, -, hd⟩
      · exact absurd h hstop
      · exact absurd h hsuppress
      · rw [hd]
        exact hloop
    · rw [hr' k, ho, hget k]
      rfl

theorem openAfter_continuation {l : Line} (h : isContinuation l = true) (current : Option Capture) :
    openAfter current l.read = current := by
  have hspace : isspace (l.read.headD 0) = true := by rwa [headD_read]
  simp only [openAfter, headerName_continuation h, hspace, ite_true]

/-- A line that continues nothing opens the field it names, or none. -/
theorem openAfter_first {l : Line} (h : isContinuation l = false) (current : Option Capture)
    (k : Capture) : openAfter current l.read = some k ↔ headerName l.read = .capture k := by
  unfold openAfter
  cases hname : headerName l.read with
  | other =>
    have hspace : isspace (l.read.headD 0) = false := by rwa [headD_read]
    simp only [hspace, Bool.false_eq_true, ite_false]
    simp
  | _ => simp

theorem occurrences_continuation {l : Line} (h : isContinuation l = true) (k : Capture)
    (lines : List Line) : occurrences k (l :: lines) = occurrences k lines := by
  rw [occurrences, fields, if_pos h, occurrences]

theorem occurrences_first {l : Line} (h : isContinuation l = false) (k : Capture)
    (lines : List Line) : occurrences k (l :: lines) =
      if headerName l.read = .capture k then
        (l, lines.takeWhile isContinuation) :: occurrences k lines
      else occurrences k lines := by
  rw [occurrences, fields, h, if_neg Bool.false_ne_true, List.filter_cons, occurrences]
  simp only [capture_iff, List.isPrefixOf_iff_prefix]

/-- The values followed line by line are those of the fields. -/
theorem gather_eq {k : Capture} {current : Option Capture} {v : Option Bytes}
    (hopen : current = some k → v ≠ none) (lines : List Line) :
    gather k current v lines =
      if v = none ∧ occurrences k lines = [] then none
      else some (v.getD [] ++
        (if current = some k then (lines.takeWhile isContinuation).flatMap Line.text else []) ++
        (occurrences k lines).flatMap fieldText) := by
  induction lines generalizing current v with
  | nil =>
    cases v with
    | none =>
      have hnone : current ≠ some k := fun e => hopen e rfl
      simp [gather, occurrences, fields]
    | some s => simp [gather, occurrences, fields]
  | cons l lines ih =>
    rw [gather]
    by_cases hcont : isContinuation l = true
    · rw [openAfter_continuation hcont, occurrences_continuation hcont,
        List.takeWhile_cons_of_pos hcont]
      by_cases hcur : current = some k
      · obtain ⟨s, rfl⟩ := Option.ne_none_iff_exists'.mp (hopen hcur)
        rw [if_pos hcur, if_pos hcur, ih fun _ => Option.some_ne_none _, if_pos hcur]
        simp [piece, hcont]
      · rw [if_neg hcur, if_neg hcur, ih fun e => absurd e hcur, if_neg hcur]
    · have hfirst : isContinuation l = false := Bool.eq_false_iff.mpr hcont
      rw [occurrences_first hfirst, List.takeWhile_cons_of_neg hcont]
      by_cases hk : headerName l.read = .capture k
      · have hafter := (openAfter_first hfirst current k).mpr hk
        rw [if_pos hk, if_pos hafter, ih fun _ => Option.some_ne_none _, if_pos hafter]
        simp [piece, hcont, fieldText]
      · have hafter := mt (openAfter_first hfirst current k).mp hk
        rw [if_neg hk, if_neg hafter, ih fun e => absurd e hafter, if_neg hafter]
        simp

/-- When the loop goes through the whole header section, each captured value is
the text of all occurrences of its field, and null where there is none. -/
theorem readheaders_captured (stack : Bytes) (names : List Bytes) {lines : List Line}
    (body : Option Bytes) (hnul : ∀ l ∈ lines, 0 ∉ l.text)
    (hpass : ∀ l ∈ lines, ¬ Stops l.read ∧ ¬ Suppresses l.read) :
    ∃ h, readheaders stack names (message lines body) = some h ∧
      ∀ k, h.get k = captured k lines := by
  have hinit : PlainValues Reader.init.h := by
    intro k v hv
    cases k <;> cases hv
  obtain ⟨r, hloop, hget⟩ := lineLoop_gather hpass hnul (r := Reader.init) rfl hinit
  refine ⟨finish names r, by rw [readheaders_message, hloop, Option.map_some], fun k => ?_⟩
  have hnone : Reader.init.h.get k = none := by cases k <;> rfl
  have hfinish : (finish names r).get k = r.h.get k := by cases k <;> rfl
  have hclosed : openField Reader.init = some k → (none : Option Bytes) ≠ none := by
    intro e
    cases e
  rw [hfinish, hget k, hnone, gather_eq hclosed]
  rw [if_neg (show openField Reader.init ≠ some k from nofun)]
  simp only [true_and, Option.getD_none, List.nil_append, captured]

/-- A folded subject, another field between, and the subject again. -/
def twoSubjects : List Line :=
  [⟨bytes "Subject: big", by decide, by decide, by decide⟩,
    ⟨bytes " lunch", by decide, by decide, by decide⟩,
    ⟨bytes "Precedence: normal", by decide, by decide, by decide⟩,
    ⟨bytes " mail", by decide, by decide, by decide⟩,
    ⟨bytes "SUBJECT:today", by decide, by decide, by decide⟩]

theorem readheaders_two_subjects : ∃ h, readheaders [] [] (message twoSubjects none) = some h ∧
    ∀ k, h.get k = captured k twoSubjects := by
  have hnext : ∀ l ∈ twoSubjects,
      dispatch l.read Reader.init = .next (settle l.read Reader.init) := by decide +kernel
  exact readheaders_captured [] [] none (by decide) fun l hl => passes_of_next (hnext l hl)

example : captured .subject twoSubjects = some (bytes "big lunchtoday") := by decide +kernel

end Simvacation.CapturedFields
