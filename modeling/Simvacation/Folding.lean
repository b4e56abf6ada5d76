import Simvacation.Messages
import Simvacation.RecipientMatch

/-!
Refolding of header fields. A field is a first line with its colon and the
continuation lines behind it; two foldings of a field have the same text once
the line feeds are taken out. `readheaders` looks for a value in the first line
of a field only, and it searches the aliases in a text that keeps the line
feeds. So a folding can hide a value or cut an alias in two. These foldings, and
no others, can change what becomes of a message.
-/

namespace Simvacation.Folding

open CString Yasl Vutil Readheaders HeaderLines Messages
open RecipientMatch (isSubstring_iff)
open RecipientMatch renaming normalize → haystack

structure Field where
  first : Line
  rest : List Line
  hasColon : colon ∈ first.text
  notContinuation : isspace (first.text.headD 0) = false
  continued : ∀ l ∈ rest, isspace (l.text.headD 0) = true

def Field.lines (f : Field) : List Line := f.first :: f.rest

/-- Line feeds in front of white space are removed. -/
def Field.unfold (f : Field) : Bytes := f.lines.flatMap Line.text

/-- A field and the same field folded anew, no line of it white space only. -/
structure Refolding where
  left : Field
  right : Field
  same : left.unfold = right.unfold
  noBlankLine : ∀ l ∈ right.rest, ∃ c ∈ l.text, isspace c = false

inductive Block where
  | kept (l : Line)
  | refolded (f : Refolding)

def Block.left : Block → List Line
  | .kept l => [l]
  | .refolded f => f.left.lines

def Block.right : Block → List Line
  | .kept l => [l]
  | .refolded f => f.right.lines

def lefts (blocks : List Block) : List Line := blocks.flatMap Block.left

def rights (blocks : List Block) : List Line := blocks.flatMap Block.right

def reads (lines : List Line) : List Bytes := lines.map Line.read

inductive Verdict where
  | pass
  | stop
  | suppress
  deriving DecidableEq, Repr

/-- What the prefix chain makes of a line. -/
def verdict (line : Bytes) : Verdict :=
  match dispatch line Reader.init with
  | .next _ => .pass
  | .stop => .stop
  | .suppress => .suppress

/-- An X-Auto-Response-Suppress field with OOF or All in its first line. -/
def AsksForNone (line : Bytes) : Prop :=
  headerName line = .autoResponseSuppress ∧
    (isSubstring (bytes "OOF") line false = true ∨ isSubstring (bytes "All") line false = true)

/-- Both first lines have the value of the field or neither has, and both have
OOF or All or neither has. -/
def Refolding.Alike (f : Refolding) : Prop :=
  (Stops f.left.first.read ↔ Stops f.right.first.read) ∧
    (AsksForNone f.left.first.read ↔ AsksForNone f.right.first.read)

/-- A field of the recipient text, cut at its line feeds: behind each of them
stands the blank that was added to the line. -/
def Field.pieces (f : Field) : List Bytes :=
  f.first.text :: (f.rest.map fun l => 32 :: l.text) ++ [[32]]

/-- The alias lies in one line of the field. -/
def Field.Holds (f : Field) (name : Bytes) : Prop := ∃ p ∈ f.pieces, isSubstring name p true = true

/-- Neither folding cuts the alias where the other one leaves it whole. -/
def Refolding.Whole (f : Refolding) (name : Bytes) : Prop := f.left.Holds name ↔ f.right.Holds name

/-- A line feed or a colon in an alias could be matched across lines or fields. -/
def Plain (name : Bytes) : Prop := lf ∉ cstr name ∧ colon ∉ cstr name

/-- A NUL would end the gathered text of its line early. -/
def Refolding.NulFree (f : Refolding) : Prop :=
  headerName f.left.first.read = .recipient → 0 ∉ f.left.unfold

/-- No decision and no search for an alias sees the folding. -/
def Refolding.Unseen (f : Refolding) (names : Set Bytes) : Prop :=
  f.Alike ∧ (headerName f.left.first.read = .recipient → ∀ n ∈ names, f.Whole n)

/-- Whatever else a message holds, and whichever of the aliases are searched, the
foldings of these fields do not show in what becomes of it. -/
def Same (fs : Set Refolding) (names : Set Bytes) : Prop :=
  ∀ (stack stack' : Bytes) (aliases : List Bytes) (blocks : List Block) (body : Option Bytes),
    (∀ n ∈ aliases, n ∈ names) → (∀ f, .refolded f ∈ blocks → f ∈ fs) →
    (readheaders stack aliases (message (lefts blocks) body)).map Headers.rcptMatch =
      (readheaders stack' aliases (message (rights blocks) body)).map Headers.rcptMatch

instance (line : Bytes) : Decidable (AsksForNone line) := inferInstanceAs (Decidable (_ ∧ _))

instance (f : Refolding) : Decidable f.Alike := inferInstanceAs (Decidable (_ ∧ _))

instance (name : Bytes) : Decidable (Plain name) := inferInstanceAs (Decidable (_ ∧ _))

theorem verdict_cases (line : Bytes) :
    (Stops line ∧ ¬ Suppresses line ∧ verdict line = .stop) ∨
    (¬ Stops line ∧ Suppresses line ∧ verdict line = .suppress) ∨
      (¬ Stops line ∧ ¬ Suppresses line ∧ verdict line = .pass) := by
  unfold verdict
  rcases dispatch_cases line Reader.init with ⟨hs, hd⟩ | ⟨hs, hd⟩ | ⟨hstop, hs, hd⟩
  · exact Or.inl ⟨hs, hs.not_suppresses, by rw [hd]⟩
  · exact Or.inr (Or.inl ⟨fun e => e.not_suppresses hs, hs, by rw [hd]⟩)
  · exact Or.inr (Or.inr ⟨hstop, hs, by rw [hd]⟩)

theorem verdict_eq_stop_iff {line : Bytes} : verdict line = .stop ↔ Stops line := by
  rcases verdict_cases line with ⟨hs, -, hv⟩ | ⟨hs, -, hv⟩ | ⟨hs, -, hv⟩ <;> simp [hs, hv]

/-- One line of the decision, in terms of its verdict. -/
theorem suppressed_cons (l : Line) (lines : List Line) :
    Suppressed (reads (l :: lines)) ↔
      match verdict l.read with
      | .pass => Suppressed (reads lines)
      | .stop => False
      | .suppress => True := by
  simp only [reads, List.map_cons, Suppressed, l.ends_iff]
  rcases verdict_cases l.read with ⟨hs, -, hv⟩ | ⟨hs, hs', hv⟩ | ⟨hs, hs', hv⟩
  · simp [hs, hv]
  · simp [hs, hs', hv]
  · simp [hs, hs', hv]

theorem verdict_continuation {l : Line} (h : isspace (l.text.headD 0) = true) :
    verdict l.read = .pass := by
  have hname := headerName_continuation h
  rcases verdict_cases l.read with ⟨hs, -, -⟩ | ⟨-, hs, -⟩ | ⟨-, -, hv⟩
  · simp [Stops, hname] at hs
  · simp [Suppresses, hname] at hs
  · exact hv

/-- Continuation lines are passed over. -/
theorem suppressed_continuation {rest : List Line}
    (h : ∀ l ∈ rest, isspace (l.text.headD 0) = true) (lines : List Line) :
    Suppressed (reads (rest ++ lines)) ↔ Suppressed (reads lines) := by
  induction rest with
  | nil => rfl
  | cons l rest ih =>
    rw [List.cons_append, suppressed_cons, verdict_continuation (h l List.mem_cons_self)]
    exact ih fun k hk => h k (List.mem_cons_of_mem _ hk)

theorem suppressed_field (f : Field) (lines : List Line) :
    Suppressed (reads (f.lines ++ lines)) ↔
      match verdict f.first.read with
      | .pass => Suppressed (reads lines)
      | .stop => False
      | .suppress => True := by
  rw [Field.lines, List.cons_append, suppressed_cons, suppressed_continuation f.continued]

/-- The alias occurs in the To and Cc fields. -/
def Found (name : Bytes) (lines : List Line) : Prop :=
  isSubstring name (recipientText .unknown (reads lines)) true = true

theorem readheaders_answers (stack : Bytes) (names : List Bytes) {lines : List Line}
    (body : Option Bytes) (h : ¬ Suppressed (reads lines)) :
    ∃ hdrs, readheaders stack names (message lines body) = some hdrs ∧
      (hdrs.rcptMatch = true ↔ ∃ n ∈ names, Found n lines) := by
  cases hloop : lineLoop Reader.init (reads lines) with
  | none => exact absurd ((lineLoop_eq_none_iff _ _).mp hloop) h
  | some r =>
    have hread : readheaders stack names (message lines body) = some (finish names r) := by
      rw [readheaders_message, show lines.map Line.read = reads lines from rfl, hloop,
        Option.map_some]
    have htext : r.rcptHdrs = recipientText .unknown (reads lines) := lineLoop_rcptHdrs hloop
    refine ⟨finish names r, hread, ?_⟩
    simp only [finish, List.any_eq_true, htext, Found]

/-- When two messages have the same outcome, in terms of their lines. -/
theorem outcome_eq_iff (stack stack' : Bytes) (names : List Bytes) (lines lines' : List Line)
    (body : Option Bytes) :
    (readheaders stack names (message lines body)).map Headers.rcptMatch =
        (readheaders stack' names (message lines' body)).map Headers.rcptMatch ↔
      (Suppressed (reads lines) ↔ Suppressed (reads lines')) ∧
        (Suppressed (reads lines) ∨
          ((∃ n ∈ names, Found n lines) ↔ ∃ n ∈ names, Found n lines')) := by
  by_cases hleft : Suppressed (reads lines)
  · rw [(readheaders_eq_none_iff stack names _ body).mpr hleft]
    simp only [hleft, true_or, and_true, true_iff, Option.map_none]
    rw [eq_comm, Option.map_eq_none_iff]
    exact readheaders_eq_none_iff stack' names _ body
  · obtain ⟨hdrs, hread, hmatch⟩ := readheaders_answers stack names body hleft
    by_cases hright : Suppressed (reads lines')
    · rw [hread, (readheaders_eq_none_iff stack' names _ body).mpr hright]
      simp [hleft, hright]
    · obtain ⟨hdrs', hread', hmatch'⟩ := readheaders_answers stack' names body hright
      rw [hread, hread', Option.map_some, Option.map_some, Option.some_inj, Bool.eq_iff_iff,
        hmatch, hmatch']
      simp only [hleft, hright, false_or, true_and]

/-- A field name ends at the first colon at the latest. -/
theorem headerTable_colon : ∀ e ∈ headerTable, colon ∉ (lower e.1).dropLast := by decide

theorem prefix_of_colon {s name text : Bytes} (hs : colon ∉ s.dropLast)
    (h : s <+: name ++ colon :: text) : s <+: name ++ [colon] := by
  have hname : name ++ [colon] <+: name ++ colon :: text := ⟨text, by simp⟩
  rcases List.prefix_or_prefix_of_prefix h hname with hle | ⟨t, ht⟩
  · exact hle
  · cases t with
    | nil => exact ⟨[], by simpa using ht.symm⟩
    | cons c t =>
      have hmem : colon ∈ s.dropLast := by
        rw [← ht, List.dropLast_append_of_ne_nil (by simp)]
        simp
      exact absurd hmem hs

theorem headerName_colon {name text text' : Bytes} :
    headerName (name ++ colon :: text) = headerName (name ++ colon :: text') := by
  have hmem : ∀ {t t' : Bytes}, ∀ e ∈ headerTable,
      lower e.1 <+: lower (name ++ colon :: t) → lower e.1 <+: lower (name ++ colon :: t') := by
    intro t t' e he h
    have hlow : ∀ t, lower (name ++ colon :: t) = lower name ++ colon :: lower t := by
      intro t
      rw [lower_append]
      rfl
    rw [hlow] at h ⊢
    exact (prefix_of_colon (headerTable_colon e he) h).trans ⟨lower t', by simp⟩
  by_cases hname : headerName (name ++ colon :: text) = .other
  · by_contra hne
    have hname' : headerName (name ++ colon :: text') ≠ .other := fun e => hne (hname.trans e.symm)
    obtain ⟨e, he, hn, hprefix⟩ := prefix_of_headerName rfl hname'
    have heq : headerName (name ++ colon :: text) = e.2 :=
      headerName_of_prefix he (hmem e he hprefix)
    exact hne (heq.trans hn)
  · obtain ⟨e, he, hn, hprefix⟩ := prefix_of_headerName rfl hname
    have heq : headerName (name ++ colon :: text') = e.2 :=
      headerName_of_prefix he (hmem e he hprefix)
    rw [heq, hn]

/-- Two foldings of a field have the same name in front of the colon. -/
theorem Refolding.firsts (f : Refolding) : ∃ name post post',
    f.left.first.text = name ++ colon :: post ∧ f.right.first.text = name ++ colon :: post' ∧
      colon ∉ name := by
  have hsplit : ∀ g : Field, ∃ name post, g.first.text = name ++ colon :: post ∧ colon ∉ name ∧
      g.unfold = name ++ colon :: (post ++ g.rest.flatMap Line.text) := by
    intro g
    obtain ⟨i, hi⟩ := Option.ne_none_iff_exists'.mp
      fun e => strchr_eq_none_iff.mp e g.hasColon
    obtain ⟨name, post, heq, -, hname⟩ := strchr_eq_some_iff.mp hi
    refine ⟨name, post, heq, hname, ?_⟩
    rw [Field.unfold, Field.lines, List.flatMap_cons, heq, List.append_assoc, List.cons_append]
  obtain ⟨name, post, hleft, hname, hunfold⟩ := hsplit f.left
  obtain ⟨name', post', hright, hname', hunfold'⟩ := hsplit f.right
  have heq : name ++ colon :: (post ++ f.left.rest.flatMap Line.text) =
      name' ++ colon :: (post' ++ f.right.rest.flatMap Line.text) := by
    rw [← hunfold, ← hunfold', f.same]
  obtain ⟨rfl, -⟩ := append_cons_inj_first hname hname' heq
  exact ⟨name, post, post', hleft, hright, hname⟩

theorem Refolding.headerName_first (f : Refolding) :
    headerName f.left.first.read = headerName f.right.first.read := by
  obtain ⟨name, post, post', hleft, hright, -⟩ := f.firsts
  rw [Line.read, Line.read, hleft, hright, List.append_assoc, List.append_assoc, List.cons_append,
    List.cons_append]
  exact headerName_colon

theorem Refolding.lineState_first (f : Refolding) (s : HeaderState) :
    lineState s f.left.first.read = lineState s f.right.first.read := by
  have hleft : isspace (f.left.first.read.headD 0) = false := by
    rw [headD_read, f.left.notContinuation]
  have hright : isspace (f.right.first.read.headD 0) = false := by
    rw [headD_read, f.right.notContinuation]
  unfold lineState
  rw [f.headerName_first, hleft, hright]

/-- Nothing, or a text that begins with white space. -/
def Blank (t : Bytes) : Prop := t = [] ∨ isspace (t.headD 0) = true

theorem Field.blank_of_rest (f : Field) {t r : Bytes} (h : f.rest.flatMap Line.text = t ++ r) :
    Blank t := by
  cases t with
  | nil => exact Or.inl rfl
  | cons c t =>
    right
    cases hrest : f.rest with
    | nil => simp [hrest] at h
    | cons l rest =>
      obtain ⟨b, s, hs⟩ := List.exists_cons_of_ne_nil l.nonempty
      have hspace := f.continued l (by simp [hrest])
      rw [hrest, List.flatMap_cons, hs, List.cons_append, List.cons_append] at h
      rw [hs] at hspace
      rwa [List.headD_cons, ← (List.cons.inj h).1]

/-- One first line begins with the other, and goes on with white space. -/
theorem first_text_cases {f g : Field} (h : f.unfold = g.unfold) :
    (∃ t, g.first.text = f.first.text ++ t ∧ Blank t) ∨
      ∃ t, f.first.text = g.first.text ++ t ∧ Blank t := by
  have heq : f.first.text ++ f.rest.flatMap Line.text =
      g.first.text ++ g.rest.flatMap Line.text := h
  rcases List.append_eq_append_iff.mp heq with ⟨t, hg, hrest⟩ | ⟨t, hf, hrest⟩
  · exact Or.inl ⟨t, hg, f.blank_of_rest hrest⟩
  · exact Or.inr ⟨t, hf, g.blank_of_rest hrest⟩

theorem spaceless_of_all {w : Bytes} (h : (w.all fun c => !isspace c) = true) :
    ∀ c ∈ w, isspace c = false := by
  simpa only [List.all_eq_true, Bool.not_eq_true'] using h

/-- The word at the beginning of a value ends in front of the white space. -/
theorem word_prefix_iff {w s t : Bytes} (hw : ∀ c ∈ w, isspace c = false)
    (ht : isspace (t.headD 0) = true) (hs : ∃ c ∈ cstr s, isspace c = false) :
    w <+: lower ((cstr (s ++ t)).dropWhile isspace) ↔
      w <+: lower ((cstr s).dropWhile isspace) := by
  by_cases hnul : 0 ∈ s
  · obtain ⟨u, v, rfl⟩ := List.append_of_mem hnul
    rw [List.append_assoc, List.cons_append, cstr_append_zero, cstr_append_zero]
  · cases t with
    | nil => exact absurd ht (by decide)
    | cons c t =>
      rw [List.headD_cons] at ht
      have hc : c ≠ 0 := by
        rintro rfl
        exact absurd ht (by decide)
      rw [cstr_eq_self hnul] at hs ⊢
      obtain ⟨b, hb, hspace⟩ := hs
      have hdrop : (s ++ c :: cstr t).dropWhile isspace = s.dropWhile isspace ++ c :: cstr t := by
        rw [List.dropWhile_append, if_neg]
        intro hempty
        have hall := List.dropWhile_eq_nil_iff.mp (List.isEmpty_iff.mp hempty) b hb
        rw [hspace] at hall
        contradiction
      have hlow : lower (s.dropWhile isspace ++ c :: cstr t) =
          lower (s.dropWhile isspace) ++ tolower c :: lower (cstr t) := by
        rw [lower_append]
        rfl
      have hmem : tolower c ∉ w := by
        intro hmem
        have := hw _ hmem
        rw [isspace_tolower, ht] at this
        contradiction
      rw [cstr_append_cons hnul hc, hdrop, hlow, prefix_append_cons hmem]

/-- A longer first line has the same word, if the shorter one has any. -/
theorem value_prefix_iff {w p t : Bytes} {i : ℕ} (hw : ∀ c ∈ w, isspace c = false)
    (ht : Blank t) (hne : skipspace (p ++ [lf]) i ≠ []) :
    w <+: lower (skipspace (p ++ t ++ [lf]) i) ↔ w <+: lower (skipspace (p ++ [lf]) i) := by
  have hlen : i + 1 ≤ p.length := by
    by_contra hlt
    refine hne ?_
    have hdrop : (p ++ [lf]).drop (i + 1) = [] := by
      rw [List.drop_eq_nil_iff, List.length_append, List.length_singleton]
      omega
    rw [skipspace, hdrop]
    rfl
  have hdrop : ∀ u, (p ++ u).drop (i + 1) = p.drop (i + 1) ++ u :=
    fun u => List.drop_append_of_le_length hlen
  have hlf : isspace (([lf] : Bytes).headD 0) = true := by decide
  have htail : isspace ((t ++ [lf]).headD 0) = true := by
    rcases ht with rfl | ht
    · exact hlf
    · cases t with
      | nil => exact absurd ht (by decide)
      | cons c t => exact ht
  have hword : ∃ c ∈ cstr (p.drop (i + 1)), isspace c = false := by
    by_contra hnone
    refine hne ?_
    rw [skipspace, hdrop, List.dropWhile_eq_nil_iff]
    intro c hc
    by_contra hspace
    rw [Bool.not_eq_true] at hspace
    refine hnone ⟨c, ?_, hspace⟩
    by_cases hnul : 0 ∈ p.drop (i + 1)
    · obtain ⟨u, v, huv⟩ := List.append_of_mem hnul
      rw [huv] at hc ⊢
      rwa [List.append_assoc, List.cons_append, cstr_append_zero, ← cstr_append_zero u v] at hc
    · have hmem := (prefix_of_cstr _).subset hc
      rw [cstr_eq_self hnul]
      rcases List.mem_append.mp hmem with hmem | hmem
      · exact hmem
      · rw [List.mem_singleton.mp hmem] at hspace
        exact absurd hspace (by decide)
  rw [skipspace, skipspace, List.append_assoc, hdrop, hdrop, word_prefix_iff hw htail hword,
    word_prefix_iff hw hlf hword]

/-- Where the value stands, when the field is one whose value is read. -/
theorem precedenceValue_colon {name : Bytes} (hname : colon ∉ name) (hlen : 10 ≤ name.length) :
    ∃ reached : Bool, ∀ post, precedenceValue (name ++ colon :: post) =
      if reached then some (skipspace (name ++ colon :: post) name.length) else none := by
  let c := (name ++ [colon]).getD 10 0
  refine ⟨(c = colon || c = 32 || c = 9) && decide (0 ∉ name), ?_⟩
  intro post
  have hget : (name ++ colon :: post).getD 10 0 = c := by
    have hlt : 10 < (name ++ [colon]).length := by
      rw [List.length_append, List.length_singleton]
      omega
    rw [show name ++ colon :: post = (name ++ [colon]) ++ post by simp,
      List.getD_eq_getElem?_getD, List.getElem?_append_left hlt, ← List.getD_eq_getElem?_getD]
  rw [precedenceValue, hget]
  by_cases hguard : (decide (c = colon) || decide (c = 32) || decide (c = 9)) = true
  · by_cases hnul : 0 ∈ name
    · have hnone : strchr (cstr (name ++ colon :: post)) colon = none := by
        obtain ⟨u, v, rfl⟩ := List.append_of_mem hnul
        rw [List.append_assoc, List.cons_append, cstr_append_zero, strchr_eq_none_iff]
        intro hmem
        exact hname (List.mem_append_left _ ((prefix_of_cstr u).subset hmem))
      rw [if_pos hguard, hguard, hnone]
      simp [hnul]
    · rw [if_pos hguard, hguard, cstr_append_cons hnul (by decide), strchr_append_cons hname]
      simp [hnul]
  · rw [if_neg hguard, Bool.eq_false_iff.mpr hguard]
    simp

theorem isBulk_iff (value : Bytes) : isBulk value ↔
    ∃ w ∈ [bytes "junk", bytes "bulk", bytes "list"], w <+: lower value := by
  have hjunk := @strncasecmp_eq_zero_iff' value _ (show 0 ∉ bytes "junk" by decide)
  have hbulk := @strncasecmp_eq_zero_iff' value _ (show 0 ∉ bytes "bulk" by decide)
  have hlist := @strncasecmp_eq_zero_iff' value _ (show 0 ∉ bytes "list" by decide)
  simp only [List.mem_cons, List.not_mem_nil, or_false, exists_eq_or_imp, exists_eq_left]
  exact or_congr hjunk (or_congr hbulk hlist)

theorem isBulk_longer {p t : Bytes} {i : ℕ} (ht : Blank t) (hne : skipspace (p ++ [lf]) i ≠ []) :
    isBulk (skipspace (p ++ [lf]) i) ↔ isBulk (skipspace (p ++ t ++ [lf]) i) := by
  rw [isBulk_iff, isBulk_iff]
  refine exists_congr fun w => and_congr_right fun hw => ?_
  have hspace : ∀ c ∈ w, isspace c = false := by
    simp only [List.mem_cons, List.not_mem_nil, or_false] at hw
    rcases hw with rfl | rfl | rfl
    all_goals exact spaceless_of_all (by decide)
  exact (value_prefix_iff hspace ht hne).symm

theorem startsNo_longer {p t : Bytes} {i : ℕ} (ht : Blank t) (hne : skipspace (p ++ [lf]) i ≠ []) :
    strncasecmp (skipspace (p ++ [lf]) i) (bytes "no") 2 = 0 ↔
      strncasecmp (skipspace (p ++ t ++ [lf]) i) (bytes "no") 2 = 0 := by
  have hno : 0 ∉ bytes "no" := by decide
  have hspace : ∀ c ∈ lower (bytes "no"), isspace c = false := spaceless_of_all (by decide)
  exact (strncasecmp_eq_zero_iff' hno).trans
    ((value_prefix_iff hspace ht hne).symm.trans (strncasecmp_eq_zero_iff' hno).symm)

/-- A folding that leaves some value in the first line, and no OOF or All behind
it, leaves the decision as it is. -/
theorem suppresses_longer {p t : Bytes} (hcolon : colon ∈ p) (ht : Blank t)
    (hshort : ¬ Stops (p ++ [lf])) (hlong : ¬ Stops (p ++ t ++ [lf]))
    (hasks : AsksForNone (p ++ [lf]) ↔ AsksForNone (p ++ t ++ [lf])) :
    Suppresses (p ++ [lf]) ↔ Suppresses (p ++ t ++ [lf]) := by
  obtain ⟨i, hi⟩ := Option.ne_none_iff_exists'.mp fun e => strchr_eq_none_iff.mp e hcolon
  obtain ⟨name, post, rfl, -, hname⟩ := strchr_eq_some_iff.mp hi
  have hline : ∀ u, name ++ colon :: post ++ u = name ++ colon :: (post ++ u) := by
    intro u
    rw [List.append_assoc, List.cons_append]
  have hsame : headerName (name ++ colon :: post ++ t ++ [lf]) =
      headerName (name ++ colon :: post ++ [lf]) := by
    rw [List.append_assoc _ t, hline, hline]
    exact headerName_colon
  unfold Stops at hshort hlong
  unfold AsksForNone at hasks
  unfold Suppresses
  rw [hsame] at hlong hasks ⊢
  cases hfield : headerName (name ++ colon :: post ++ [lf]) with
  | autoSubmitted =>
    simp only [hfield, true_and, reduceCtorEq, false_and, or_false] at hshort hlong ⊢
    exact and_congr (iff_of_true hshort hlong) (not_congr (startsNo_longer ht hshort))
  | precedence =>
    simp only [hfield, true_and, reduceCtorEq, false_and, false_or, or_false] at hshort hlong ⊢
    have hlen : 10 ≤ name.length := by
      have hprefix := precedence_iff.mp hfield
      have hlow : lower (colon :: (post ++ [lf])) = colon :: lower (post ++ [lf]) := rfl
      rw [hline, lower_append, hlow, prefix_append_cons (by decide)] at hprefix
      have hle := hprefix.length_le
      rwa [lower_length, lower_length] at hle
    obtain ⟨reached, hreached⟩ := precedenceValue_colon hname hlen
    have hvalue : ∀ u, precedenceValue (name ++ colon :: post ++ u) =
        if reached then some (skipspace (name ++ colon :: post ++ u) name.length) else none := by
      intro u
      rw [hline]
      exact hreached (post ++ u)
    rw [List.append_assoc _ t] at hlong ⊢
    rw [hvalue] at hshort hlong
    rw [hvalue, hvalue]
    cases reached with
    | false => simp
    | true =>
      simp only [if_true, Option.some_inj, Option.mem_some_iff, exists_eq_left'] at hshort hlong ⊢
      rw [← List.append_assoc _ t] at hlong ⊢
      exact and_congr (iff_of_true hshort hlong) (isBulk_longer ht hshort)
  | autoResponseSuppress =>
    simpa only [hfield, true_and, reduceCtorEq, false_and, false_or, or_false] using hasks
  | list => simp
  | _ => simp

theorem asksForNone_iff {line : Bytes} : AsksForNone line ↔
    headerName line = .autoResponseSuppress ∧ verdict line = .suppress := by
  refine and_congr_right fun hname => ?_
  rcases verdict_cases line with ⟨hs, -, -⟩ | ⟨-, hs, hv⟩ | ⟨-, hs, hv⟩
  · simp [Stops, hname] at hs
  · simpa [Suppresses, hname, hv] using hs
  · simpa [Suppresses, hname, hv] using hs

/-- The two foldings of a field decide alike exactly when they leave the same in
the first line. -/
theorem Refolding.alike_iff (f : Refolding) :
    f.Alike ↔ verdict f.left.first.read = verdict f.right.first.read := by
  constructor
  · rintro ⟨hstops, hasks⟩
    have hsuppresses : ¬ Stops f.left.first.read →
        (Suppresses f.left.first.read ↔ Suppresses f.right.first.read) := by
      intro hleft
      have hright := fun e => hleft (hstops.mpr e)
      rcases first_text_cases f.same with ⟨t, heq, ht⟩ | ⟨t, heq, ht⟩
      · simp only [Line.read, heq] at hleft hright hasks ⊢
        exact suppresses_longer f.left.hasColon ht hleft hright hasks
      · simp only [Line.read, heq] at hleft hright hasks ⊢
        exact (suppresses_longer f.right.hasColon ht hright hleft hasks.symm).symm
    rcases verdict_cases f.left.first.read with ⟨hs, -, hv⟩ | ⟨hs, hs', hv⟩ | ⟨hs, hs', hv⟩
    · rw [hv, verdict_eq_stop_iff.mpr (hstops.mp hs)]
    · have hright := (hsuppresses hs).mp hs'
      rcases verdict_cases f.right.first.read with ⟨-, h, -⟩ | ⟨-, -, hv'⟩ | ⟨-, h, -⟩
      · exact absurd hright h
      · rw [hv, hv']
      · exact absurd hright h
    · have hright := fun e => hs' ((hsuppresses hs).mpr e)
      rcases verdict_cases f.right.first.read with ⟨h, -, -⟩ | ⟨-, h, -⟩ | ⟨-, -, hv'⟩
      · exact absurd (hstops.mpr h) hs
      · exact absurd h hright
      · rw [hv, hv']
  · intro hverdict
    refine ⟨?_, ?_⟩
    · rw [← verdict_eq_stop_iff, ← verdict_eq_stop_iff, hverdict]
    · rw [asksForNone_iff, asksForNone_iff, f.headerName_first, hverdict]

/-- The fields decide alike, so the messages do. -/
theorem suppressed_lefts_iff {blocks : List Block} (h : ∀ f, .refolded f ∈ blocks → f.Alike) :
    Suppressed (reads (lefts blocks)) ↔ Suppressed (reads (rights blocks)) := by
  induction blocks with
  | nil => rfl
  | cons b blocks ih =>
    have ih' := ih fun f hf => h f (List.mem_cons_of_mem _ hf)
    cases b with
    | kept l =>
      have hleft : lefts (.kept l :: blocks) = l :: lefts blocks := rfl
      have hright : rights (.kept l :: blocks) = l :: rights blocks := rfl
      rw [hleft, hright, suppressed_cons, suppressed_cons]
      cases verdict l.read <;> simp [ih']
    | refolded f =>
      have hleft : lefts (.refolded f :: blocks) = f.left.lines ++ lefts blocks := rfl
      have hright : rights (.refolded f :: blocks) = f.right.lines ++ rights blocks := rfl
      rw [hleft, hright, suppressed_field, suppressed_field,
        f.alike_iff.mp (h f List.mem_cons_self)]
      cases verdict f.right.first.read <;> simp [ih']

theorem found_iff (name : Bytes) (lines : List Line) : Found name lines ↔
    lower (cstr name) <:+: haystack (recipientText .unknown (reads lines)) := by
  rw [Found, isSubstring_iff, cstr_eq_self (nul_notMem_recipientText _ _)]

theorem haystack_append (s t : Bytes) : haystack (s ++ t) = haystack s ++ haystack t := by
  simp only [haystack, lower_append, List.map_append]

/-- What the lines of a To or Cc field add to the recipient text. -/
def gathered (lines : List Line) : Bytes := lines.flatMap fun l => cstr l.read ++ bytes " "

theorem recipientText_cons (s : HeaderState) (l : Line) (lines : List Line) :
    recipientText s (reads (l :: lines)) =
      if verdict l.read = .stop then []
      else (if lineState s l.read = .recipient then cstr l.read ++ bytes " " else []) ++
        recipientText (lineState s l.read) (reads lines) := by
  simp only [reads, List.map_cons, recipientText, l.ends_iff, verdict_eq_stop_iff]

theorem recipientText_continuation {rest : List Line}
    (h : ∀ l ∈ rest, isspace (l.text.headD 0) = true) (s : HeaderState)
    (lines : List Line) : recipientText s (reads (rest ++ lines)) =
      (if s = .recipient then gathered rest else []) ++ recipientText s (reads lines) := by
  induction rest with
  | nil => simp [gathered]
  | cons l rest ih =>
    have hspace := h l List.mem_cons_self
    have hstate : lineState s l.read = s := by
      have hhead : isspace (l.read.headD 0) = true := by rwa [headD_read]
      unfold lineState
      rw [headerName_of_isspace hhead, if_pos hhead]
    rw [List.cons_append, recipientText_cons, verdict_continuation hspace, hstate,
      if_neg (by decide), ih fun k hk => h k (List.mem_cons_of_mem _ hk)]
    by_cases hs : s = .recipient <;> simp [hs, gathered]

theorem recipientText_field (f : Field) (s : HeaderState) (lines : List Line) :
    recipientText s (reads (f.lines ++ lines)) =
      if verdict f.first.read = .stop then []
      else (if lineState s f.first.read = .recipient then gathered f.lines else []) ++
        recipientText (lineState s f.first.read) (reads lines) := by
  rw [Field.lines, List.cons_append, recipientText_cons, recipientText_continuation f.continued]
  by_cases hs : lineState s f.first.read = .recipient <;> simp [hs, gathered]

/-- The first line of a field alone says whether its text is gathered. -/
theorem Field.lineState_eq_recipient_iff (f : Field) (s : HeaderState) :
    lineState s f.first.read = .recipient ↔ headerName f.first.read = .recipient := by
  have hspace : isspace (f.first.read.headD 0) = false := by
    rw [headD_read, f.notContinuation]
  unfold lineState
  rw [hspace]
  cases headerName f.first.read <;> simp

theorem notMem_lower {s : Bytes} {c : UInt8} (hc : ∀ b, tolower b = c → b = c) (h : c ∉ s) :
    c ∉ lower s := by
  intro hmem
  obtain ⟨b, hb, heq⟩ := List.mem_map.mp hmem
  exact h (hc b heq ▸ hb)

theorem Plain.notMem_lower {name : Bytes} (h : Plain name) :
    lf ∉ lower (cstr name) ∧ colon ∉ lower (cstr name) := by
  have hlf : ∀ b, tolower b = lf → b = lf := by
    apply forall_byte (P := fun b => tolower b = lf → b = lf)
    decide +kernel
  have hcolon : ∀ b, tolower b = colon → b = colon := by
    apply forall_byte (P := fun b => tolower b = colon → b = colon)
    decide +kernel
  exact ⟨Folding.notMem_lower hlf h.1, Folding.notMem_lower hcolon h.2⟩

theorem haystack_gathered_cons {l : Line} (hnul : 0 ∉ l.text) (rest : List Line) :
    haystack (gathered (l :: rest)) =
      haystack l.text ++ lf :: (32 :: haystack (gathered rest)) := by
  have hread : cstr l.read = l.text ++ [lf] := by
    rw [cstr_eq_self, Line.read]
    rw [Line.read, List.mem_append, not_or]
    exact ⟨hnul, by decide⟩
  have hend : haystack ([lf] ++ bytes " ") = [lf, 32] := by decide
  rw [gathered, List.flatMap_cons, hread, List.append_assoc, List.append_assoc,
    ← List.append_assoc [lf], haystack_append, haystack_append, hend]
  rfl

/-- A word without a line feed lies in one of the lines or in what follows them. -/
theorem infix_gathered {w : Bytes} (hlf : lf ∉ w) (x y : Bytes) {l : Line} {rest : List Line}
    (hnul : ∀ k ∈ l :: rest, 0 ∉ k.text) :
    w <:+: x ++ haystack (gathered (l :: rest)) ++ y ↔
      w <:+: x ++ haystack l.text ∨ (∃ k ∈ rest, w <:+: 32 :: haystack k.text) ∨
        w <:+: 32 :: y := by
  have hsplit : x ++ haystack (gathered (l :: rest)) ++ y =
      (x ++ haystack l.text) ++ lf :: ([32] ++ haystack (gathered rest) ++ y) := by
    rw [haystack_gathered_cons (hnul l List.mem_cons_self)]
    simp only [List.append_assoc, List.cons_append, List.nil_append]
  rw [hsplit, infix_append_cons hlf]
  refine or_congr_right ?_
  induction rest generalizing l x with
  | nil => simp [gathered, haystack, lower]
  | cons k rest ih =>
    have hrest : ∀ j ∈ k :: rest, 0 ∉ j.text := fun j hj => hnul j (List.mem_cons_of_mem _ hj)
    have hnext : [32] ++ haystack (gathered (k :: rest)) ++ y =
        ([32] ++ haystack k.text) ++ lf :: ([32] ++ haystack (gathered rest) ++ y) := by
      rw [haystack_gathered_cons (hrest k List.mem_cons_self)]
      simp only [List.append_assoc, List.cons_append, List.nil_append]
    rw [hnext, infix_append_cons hlf, ih [32] hrest hnext, List.singleton_append]
    simp only [List.mem_cons, exists_eq_or_imp, or_assoc]

theorem Field.nul_notMem {f : Field} (h : 0 ∉ f.unfold) : ∀ l ∈ f.lines, 0 ∉ l.text :=
  fun l hl e => h (List.mem_flatMap.mpr ⟨l, hl, e⟩)

theorem Field.holds_iff {f : Field} (h : 0 ∉ f.unfold) (name : Bytes) : f.Holds name ↔
    lower (cstr name) <:+: haystack f.first.text ∨
      (∃ l ∈ f.rest, lower (cstr name) <:+: 32 :: haystack l.text) ∨
        lower (cstr name) <:+: [32] := by
  have hpiece : ∀ p ∈ f.pieces, 0 ∉ p := by
    intro p hp
    simp only [Field.pieces, List.mem_append, List.mem_cons, List.mem_map, List.not_mem_nil,
      or_false] at hp
    rcases hp with (rfl | ⟨l, hl, rfl⟩) | rfl
    · exact f.nul_notMem h f.first List.mem_cons_self
    · rw [List.mem_cons, not_or]
      exact ⟨by decide, f.nul_notMem h l (List.mem_cons_of_mem _ hl)⟩
    · decide
  have hholds : f.Holds name ↔ ∃ p ∈ f.pieces, lower (cstr name) <:+: haystack p := by
    refine exists_congr fun p => and_congr_right fun hp => ?_
    rw [isSubstring_iff, cstr_eq_self (hpiece p hp)]
  have hblank : ∀ t, haystack (32 :: t) = 32 :: haystack t := fun t => rfl
  have hempty : haystack [] = [] := rfl
  rw [hholds]
  simp only [Field.pieces, List.cons_append, List.mem_cons, List.mem_append, List.mem_map,
    List.not_mem_nil, or_false, or_and_right, exists_or, exists_exists_and_eq_and,
    hblank, exists_eq_left, hempty]

/-- Whatever stands before and behind the field: a plain alias is found in the
name of the field, in one of its lines, or in what follows. -/
theorem infix_field {name : Bytes} (hname : Plain name) {f : Field} (hnul : 0 ∉ f.unfold)
    {pre post : Bytes} (hfirst : f.first.text = pre ++ colon :: post) (x y : Bytes) :
    lower (cstr name) <:+: x ++ haystack (gathered f.lines) ++ y ↔
      lower (cstr name) <:+: x ++ haystack pre ∨ f.Holds name ∨
        lower (cstr name) <:+: 32 :: y := by
  obtain ⟨hlf, hcolon⟩ := hname.notMem_lower
  have htext : haystack f.first.text = haystack pre ++ colon :: haystack post := by
    rw [hfirst, ← List.singleton_append, haystack_append, haystack_append]
    rfl
  have hpre : lower (cstr name) <:+: haystack pre → lower (cstr name) <:+: x ++ haystack pre :=
    fun h => h.trans (List.suffix_append _ _).isInfix
  have hlast : lower (cstr name) <:+: [32] → lower (cstr name) <:+: 32 :: y :=
    fun h => h.trans (List.prefix_append [32] y).isInfix
  rw [Field.lines, infix_gathered hlf x y (f.nul_notMem hnul), f.holds_iff hnul, htext,
    ← List.append_assoc, infix_append_cons hcolon, infix_append_cons hcolon]
  constructor
  · intro hcases
    rcases hcases with (h | h) | h | h
    · exact Or.inl h
    · exact Or.inr (Or.inl (Or.inl (Or.inr h)))
    · exact Or.inr (Or.inl (Or.inr (Or.inl h)))
    · exact Or.inr (Or.inr h)
  · intro hcases
    rcases hcases with h | ((h | h) | h | h) | h
    · exact Or.inl (Or.inl h)
    · exact Or.inl (Or.inl (hpre h))
    · exact Or.inl (Or.inr h)
    · exact Or.inr (Or.inl h)
    · exact Or.inr (Or.inr (hlast h))
    · exact Or.inr (Or.inr h)

theorem infix_recipientText {names : Set Bytes} {name : Bytes} (hmem : name ∈ names)
    (hname : Plain name) {blocks : List Block}
    (h : ∀ f, .refolded f ∈ blocks → f.NulFree ∧ f.Unseen names) (s : HeaderState) (x : Bytes) :
    lower (cstr name) <:+: x ++ haystack (recipientText s (reads (lefts blocks))) ↔
      lower (cstr name) <:+: x ++ haystack (recipientText s (reads (rights blocks))) := by
  induction blocks generalizing s x with
  | nil => rfl
  | cons b blocks ih =>
    have ih' := ih fun f hf => h f (List.mem_cons_of_mem _ hf)
    cases b with
    | kept l =>
      have hleft : lefts (.kept l :: blocks) = l :: lefts blocks := rfl
      have hright : rights (.kept l :: blocks) = l :: rights blocks := rfl
      rw [hleft, hright, recipientText_cons, recipientText_cons]
      by_cases hstop : verdict l.read = .stop
      · rw [if_pos hstop, if_pos hstop]
      · rw [if_neg hstop, if_neg hstop, haystack_append, haystack_append, ← List.append_assoc,
          ← List.append_assoc]
        exact ih' _ _
    | refolded f =>
      obtain ⟨hnul, halike, hwhole⟩ := h f List.mem_cons_self
      have hleft : lefts (.refolded f :: blocks) = f.left.lines ++ lefts blocks := rfl
      have hright : rights (.refolded f :: blocks) = f.right.lines ++ rights blocks := rfl
      rw [hleft, hright, recipientText_field, recipientText_field, f.alike_iff.mp halike,
        ← f.lineState_first s]
      by_cases hstop : verdict f.right.first.read = .stop
      · rw [if_pos hstop, if_pos hstop]
      · rw [if_neg hstop, if_neg hstop, haystack_append, haystack_append, ← List.append_assoc,
          ← List.append_assoc]
        by_cases hrcpt : lineState s f.left.first.read = .recipient
        · have hfield := (f.left.lineState_eq_recipient_iff s).mp hrcpt
          obtain ⟨pre, post, post', htext, htext', -⟩ := f.firsts
          rw [if_pos hrcpt, if_pos hrcpt, infix_field hname (hnul hfield) htext,
            infix_field hname (f.same ▸ hnul hfield) htext']
          exact or_congr_right (or_congr (hwhole hfield name hmem) (ih' _ [32]))
        · rw [if_neg hrcpt, if_neg hrcpt]
          exact ih' _ _

theorem same_of_unseen {fs : Set Refolding} {names : Set Bytes} (hnul : ∀ f ∈ fs, f.NulFree)
    (hnames : ∀ n ∈ names, Plain n) (h : ∀ f ∈ fs, f.Unseen names) : Same fs names := by
  intro stack stack' aliases blocks body haliases hblocks
  have hfield : ∀ f, .refolded f ∈ blocks → f.NulFree ∧ f.Unseen names :=
    fun f hf => ⟨hnul f (hblocks f hf), h f (hblocks f hf)⟩
  rw [outcome_eq_iff]
  refine ⟨suppressed_lefts_iff fun f hf => (hfield f hf).2.1, Or.inr ?_⟩
  refine exists_congr fun n => and_congr_right fun hn => ?_
  have hmem := haliases n hn
  have hinfix := infix_recipientText hmem (hnames n hmem) hfield .unknown []
  rwa [List.nil_append, List.nil_append, ← found_iff, ← found_iff] at hinfix

def listId : Line := ⟨bytes "List-Id: <staff.example.edu>", by decide, by decide, by decide⟩

/-- Where the first lines differ, a message of this field alone or of it and a
List-Id field is decided differently. -/
theorem Same.alike {fs : Set Refolding} {names : Set Bytes} (h : Same fs names) {f : Refolding}
    (hf : f ∈ fs) : f.Alike := by
  have hdecision : ∀ lines, (Suppressed (reads (f.left.lines ++ lines)) ↔
      Suppressed (reads (f.right.lines ++ lines))) := by
    intro lines
    have hlines : lefts (.refolded f :: lines.map .kept) = f.left.lines ++ lines ∧
        rights (.refolded f :: lines.map .kept) = f.right.lines ++ lines := by
      simp [lefts, rights, Block.left, Block.right, List.flatMap_map]
    have hsame := h [] [] [] (.refolded f :: lines.map .kept) none (by simp) (by simpa using hf)
    rw [outcome_eq_iff, hlines.1, hlines.2] at hsame
    exact hsame.1
  have halone := hdecision []
  have hlisted := hdecision [listId]
  have hnone : ¬ Suppressed (reads []) := fun e => e
  have hlist : Suppressed (reads [listId]) :=
    (suppressed_cons listId []).mpr (by
      rw [show verdict listId.read = .suppress by decide]
      trivial)
  rw [suppressed_field, suppressed_field] at halone hlisted
  rw [f.alike_iff]
  revert halone hlisted
  cases verdict f.left.first.read <;> cases verdict f.right.first.read <;> simp [hnone, hlist]

/-- In a message of one To or Cc field the search is made in the lines of the field. -/
theorem found_field {f : Field} (hfield : headerName f.first.read = .recipient)
    (hnul : 0 ∉ f.unfold) {name : Bytes} (hname : Plain name) :
    ¬ Suppressed (reads (f.lines ++ [])) ∧ (Found name (f.lines ++ []) ↔ f.Holds name) := by
  have hpass : verdict f.first.read = .pass := by
    rcases verdict_cases f.first.read with ⟨hs, -, -⟩ | ⟨-, hs, -⟩ | ⟨-, -, hv⟩
    · simp [Stops, hfield] at hs
    · simp [Suppresses, hfield] at hs
    · exact hv
  constructor
  · rw [suppressed_field, hpass]
    exact fun e => e
  · have hstop : verdict f.first.read ≠ .stop := by
      rw [hpass]
      decide
    have hinfix := infix_gathered hname.notMem_lower.1 [] [] (f.nul_notMem hnul)
    rw [List.nil_append, List.nil_append, List.append_nil] at hinfix
    rw [found_iff, recipientText_field, if_neg hstop,
      if_pos ((f.lineState_eq_recipient_iff _).mpr hfield), show reads [] = [] from rfl,
      recipientText, List.append_nil, f.holds_iff hnul]
    exact hinfix

theorem Same.whole {fs : Set Refolding} {names : Set Bytes} (h : Same fs names) {f : Refolding}
    (hf : f ∈ fs) (hnul : f.NulFree) (hfield : headerName f.left.first.read = .recipient)
    {name : Bytes} (hmem : name ∈ names) (hname : Plain name) : f.Whole name := by
  have hright : headerName f.right.first.read = .recipient := f.headerName_first ▸ hfield
  obtain ⟨hs, hfound⟩ := found_field hfield (hnul hfield) hname
  obtain ⟨-, hfound'⟩ := found_field hright (f.same ▸ hnul hfield) hname
  have hsame := h [] [] [name] [.refolded f] none (by simpa using hmem) (by simpa using hf)
  have hlines : lefts [.refolded f] = f.left.lines ++ [] ∧
      rights [.refolded f] = f.right.lines ++ [] := ⟨rfl, rfl⟩
  rw [outcome_eq_iff, hlines.1, hlines.2] at hsame
  have hiff := hsame.2.resolve_left hs
  simp only [List.mem_singleton, exists_eq_left] at hiff
  rwa [hfound, hfound'] at hiff

/-- No white space in the alias. -/
def Spaceless (name : Bytes) : Prop := ∀ c ∈ cstr name, isspace c = false

theorem haystack_isspace {c : UInt8} (h : isspace c = true) (t : Bytes) :
    haystack (c :: t) = c :: haystack t := by
  have hself : haystack [c] = [c] := by
    revert h
    apply forall_byte (P := fun c => isspace c = true → haystack [c] = [c])
    decide +kernel
  rw [← List.singleton_append, haystack_append, hself]
  rfl

/-- A word is in one of the lines when it is in the unfolded text. -/
theorem infix_unfold {w : Bytes} (hw : ∀ c, isspace c = true → c ∉ w) (hne : w ≠ [])
    {rest : List Line} (hrest : ∀ l ∈ rest, isspace (l.text.headD 0) = true) (text : Bytes) :
    w <:+: haystack (text ++ rest.flatMap Line.text) ↔
      w <:+: haystack text ∨ ∃ l ∈ rest, w <:+: 32 :: haystack l.text := by
  have hskip : ∀ {c : UInt8} {t : Bytes}, isspace c = true → (w <:+: c :: t ↔ w <:+: t) := by
    intro c t hc
    have hsplit := infix_append_cons (x := []) (y := t) (hw c hc)
    rwa [List.nil_append, List.infix_nil, or_iff_right hne] at hsplit
  induction rest generalizing text with
  | nil => simp
  | cons l rest ih =>
    obtain ⟨c, s, hs⟩ := List.exists_cons_of_ne_nil l.nonempty
    have hc : isspace c = true := by simpa [hs] using hrest l List.mem_cons_self
    have hline : w <:+: 32 :: haystack l.text ↔ w <:+: haystack s := by
      rw [hskip (by decide), hs, haystack_isspace hc, hskip hc]
    have hrest' : ∀ k ∈ rest, isspace (k.text.headD 0) = true :=
      fun k hk => hrest k (List.mem_cons_of_mem _ hk)
    have ih' : w <:+: haystack (s ++ rest.flatMap Line.text) ↔
        w <:+: haystack s ∨ ∃ k ∈ rest, w <:+: 32 :: haystack k.text := ih hrest' s
    rw [List.flatMap_cons, hs, List.cons_append, haystack_append, haystack_isspace hc,
      infix_append_cons (hw c hc), ih', ← hline]
    simp only [List.mem_cons, exists_eq_or_imp]

/-- No folding cuts an alias without white space. -/
theorem whole_of_spaceless {name : Bytes} (h : Spaceless name) {f : Refolding}
    (hnul : 0 ∉ f.left.unfold) : f.Whole name := by
  have hw : ∀ c, isspace c = true → c ∉ lower (cstr name) := by
    intro c hc hmem
    obtain ⟨b, hb, rfl⟩ := List.mem_map.mp hmem
    rw [isspace_tolower, h b hb] at hc
    contradiction
  have hholds : ∀ g : Field, 0 ∉ g.unfold →
      (g.Holds name ↔ lower (cstr name) <:+: haystack g.unfold) := by
    intro g hg
    rw [g.holds_iff hg]
    by_cases hne : lower (cstr name) = []
    · simp [hne]
    · have hlast : ¬ lower (cstr name) <:+: [32] := by
        intro hinfix
        obtain ⟨c, t, hct⟩ := List.exists_cons_of_ne_nil hne
        have hc : c = 32 := by simpa using hinfix.subset (hct ▸ List.mem_cons_self)
        exact hw 32 (by decide) (by rw [hct, hc]; exact List.mem_cons_self)
      rw [or_iff_left hlast]
      exact (infix_unfold hw hne g.continued g.first.text).symm
  unfold Refolding.Whole
  rw [hholds f.left hnul, hholds f.right (f.same ▸ hnul), f.same]

/-- The recipients on one line and on two. -/
def recipientField : Refolding where
  left :=
    ⟨⟨bytes "To: Alice <alice@example.edu>, Bob <bob@example.edu>", by decide, by decide,
      by decide⟩, [], by decide, by decide, by decide⟩
  right :=
    ⟨⟨bytes "To: Alice <alice@example.edu>,", by decide, by decide, by decide⟩,
      [⟨bytes " Bob <bob@example.edu>", by decide, by decide, by decide⟩], by decide, by decide,
      by decide⟩
  same := by decide
  noBlankLine := by decide

def notAutomatic : Refolding where
  left :=
    ⟨⟨bytes "Auto-Submitted: no (sent by hand)", by decide, by decide, by decide⟩, [],
      by decide, by decide, by decide⟩
  right :=
    ⟨⟨bytes "Auto-Submitted: no", by decide, by decide, by decide⟩,
      [⟨bytes " (sent by hand)", by decide, by decide, by decide⟩], by decide, by decide,
      by decide⟩
  same := by decide
  noBlankLine := by decide

/-- The second line of the folded field is the one that asks for no reply. -/
def suppressOof : Refolding where
  left :=
    ⟨⟨bytes "X-Auto-Response-Suppress: DR, OOF", by decide, by decide, by decide⟩, [],
      by decide, by decide, by decide⟩
  right :=
    ⟨⟨bytes "X-Auto-Response-Suppress: DR,", by decide, by decide, by decide⟩,
      [⟨bytes " OOF", by decide, by decide, by decide⟩], by decide, by decide, by decide⟩
  same := by decide
  noBlankLine := by decide

end Simvacation.Folding
