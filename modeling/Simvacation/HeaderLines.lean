import Simvacation.Readheaders

/-!
The header reader line by line. For reads that end in a line feed the bytes
left in the buffer do not matter, so the loop is a function of the lines. Its
decision is taken at the first line that suppresses the reply or ends the loop;
the two kinds of line are described here without the reader's state.
-/

namespace Simvacation.HeaderLines

open CString Yasl Vutil Readheaders

theorem headerTable_noNul : ∀ e ∈ headerTable, 0 ∉ e.1 := by decide

/-- No name of the table begins another one, so a line has at most one of them. -/
theorem headerTable_exclusive : ∀ e ∈ headerTable, ∀ e' ∈ headerTable,
    lower e.1 <+: lower e'.1 → e = e' := by decide

theorem lower_headerTable_noNul : ∀ e ∈ headerTable, 0 ∉ lower e.1 := by decide

theorem checkHeader_eq_zero_iff {line : Bytes} {e : Bytes × HeaderName} (he : e ∈ headerTable) :
    checkHeader line e.1 = 0 ↔ lower e.1 <+: lower line :=
  strncasecmp_eq_zero_iff (headerTable_noNul e he)

/-- The order of the tests does not matter. -/
theorem headerName_of_prefix {line : Bytes} {e : Bytes × HeaderName} (he : e ∈ headerTable)
    (h : lower e.1 <+: lower line) : headerName line = e.2 := by
  unfold headerName
  cases hfind : headerTable.find? fun e => checkHeader line e.1 = 0 with
  | none =>
    have hnone := List.find?_eq_none.mp hfind e he
    exact absurd ((checkHeader_eq_zero_iff he).mpr h) (by simpa using hnone)
  | some e' =>
    have he' := List.mem_of_find?_eq_some hfind
    have hprefix : lower e'.1 <+: lower line :=
      (checkHeader_eq_zero_iff he').mp (by simpa using List.find?_some hfind)
    rcases List.prefix_or_prefix_of_prefix h hprefix with hle | hle
    · rw [headerTable_exclusive e he e' he' hle]
    · rw [headerTable_exclusive e' he' e he hle]

theorem prefix_of_headerName {line : Bytes} {n : HeaderName} (h : headerName line = n)
    (hn : n ≠ .other) : ∃ e ∈ headerTable, e.2 = n ∧ lower e.1 <+: lower line := by
  unfold headerName at h
  cases hfind : headerTable.find? fun e => checkHeader line e.1 = 0 with
  | none =>
    rw [hfind] at h
    exact absurd h.symm hn
  | some e =>
    rw [hfind] at h
    have he := List.mem_of_find?_eq_some hfind
    exact ⟨e, he, h, (checkHeader_eq_zero_iff he).mp (by simpa using List.find?_some hfind)⟩

/-- The tests do not look behind a NUL. -/
theorem headerName_cstr (line : Bytes) : headerName (cstr line) = headerName line := by
  unfold headerName
  rw [← List.head?_filter, ← List.head?_filter]
  congr 2
  apply List.filter_congr
  intro e he
  rw [decide_eq_decide, checkHeader_eq_zero_iff he, checkHeader_eq_zero_iff he, lower_cstr,
    prefix_cstr_iff (lower_headerTable_noNul e he)]

/-- No header name begins with white space. -/
theorem headerName_of_isspace {line : Bytes} (h : isspace (line.headD 0) = true) :
    headerName line = .other := by
  by_contra hname
  obtain ⟨e, he, -, hprefix⟩ := prefix_of_headerName rfl hname
  have hhead : ∀ e ∈ headerTable, ∃ c ∈ (lower e.1).head?, isspace c = false := by decide
  obtain ⟨c, hc, hspace⟩ := hhead e he
  obtain ⟨name, heq⟩ := List.head?_eq_some_iff.mp hc
  cases line with
  | nil => exact absurd h (by decide)
  | cons b line =>
    rw [heq] at hprefix
    have hcb : c = tolower b := (List.cons_prefix_cons.mp hprefix).1
    rw [hcb, isspace_tolower] at hspace
    rw [List.headD_cons, hspace] at h
    contradiction

/-- What follows the colon of a Precedence field, when the name ends there. -/
def precedenceValue (line : Bytes) : Option Bytes :=
  let c := line.getD 10 0
  if c = colon || c = 32 || c = 9 then (strchr (cstr line) colon).map (skipspace line) else none

def isBulk (value : Bytes) : Prop :=
  strncasecmp value (bytes "junk") 4 = 0 ∨ strncasecmp value (bytes "bulk") 4 = 0 ∨
    strncasecmp value (bytes "list") 4 = 0

/-- An Auto-Submitted or Precedence field without a value: the loop ends here. -/
def Stops (line : Bytes) : Prop :=
  (headerName line = .autoSubmitted ∧ skipspace line 15 = []) ∨
    (headerName line = .precedence ∧ precedenceValue line = some [])

/-- The fields at which `readheaders` returns NULL. -/
def Suppresses (line : Bytes) : Prop :=
  (headerName line = .autoSubmitted ∧ skipspace line 15 ≠ [] ∧
      strncasecmp (skipspace line 15) (bytes "no") 2 ≠ 0) ∨
    headerName line = .list ∨
    (headerName line = .precedence ∧ ∃ v ∈ precedenceValue line, v ≠ [] ∧ isBulk v) ∨
    (headerName line = .autoResponseSuppress ∧
      (isSubstring (bytes "OOF") line false = true ∨ isSubstring (bytes "All") line false = true))

instance (line : Bytes) : Decidable (Stops line) := inferInstanceAs (Decidable (_ ∨ _))

theorem Stops.not_suppresses {line : Bytes} (h : Stops line) : ¬ Suppresses line := by
  rcases h with ⟨hname, hv⟩ | ⟨hname, hv⟩ <;> simp [Suppresses, hname, hv]

/-- The reader that a line leaves before the `switch`, when it neither stops nor suppresses. -/
def settle (line : Bytes) (r : Reader) : Reader :=
  match headerName line with
  | .capture k => { r with state := .append, stripfield := true, currentHdr := some k }
  | .recipient => { r with state := .recipient }
  | .other => if isspace (line.headD 0) then r else { r with state := .unknown }
  | _ => { r with state := .noreply }

/-- Everything the prefix chain can do with a line. -/
theorem dispatch_cases (line : Bytes) (r : Reader) :
    (Stops line ∧ dispatch line r = .stop) ∨ (Suppresses line ∧ dispatch line r = .suppress) ∨
      (¬ Stops line ∧ ¬ Suppresses line ∧ dispatch line r = .next (settle line r)) := by
  unfold dispatch settle
  simp only [headerName_cstr]
  cases hname : headerName line with
  | capture k => simp [Stops, Suppresses, hname]
  | autoSubmitted =>
    simp only [Stops, Suppresses, hname]
    by_cases hv : skipspace line 15 = []
    · simp [hv]
    · by_cases hno : strncasecmp (skipspace line 15) (bytes "no") 2 = 0
      · simp [hv, hno]
      · simp [hv, hno]
  | list => simp [Stops, Suppresses, hname]
  | precedence =>
    simp only [Stops, Suppresses, hname, precedenceValue]
    by_cases hc : (decide (line.getD 10 0 = colon) || decide (line.getD 10 0 = 32) ||
        decide (line.getD 10 0 = 9)) = true
    · simp only [hc, ite_true]
      cases hi : strchr (cstr line) colon with
      | none => simp
      | some i =>
        by_cases hv : skipspace line i = []
        · simp [hv]
        · by_cases hb : isBulk (skipspace line i)
          · simp [hv, hb, show _ ∨ _ ∨ _ from hb, or_assoc]
          · simp [hv, hb, show ¬ (_ ∨ _ ∨ _) from hb, or_assoc]
    · simp only [hc, ite_false, Bool.false_eq_true]
      simp
  | autoResponseSuppress =>
    simp only [Stops, Suppresses, hname]
    by_cases hs : isSubstring (bytes "OOF") line false = true ∨
        isSubstring (bytes "All") line false = true
    · simp [hs]
    · simp [hs]
  | recipient => simp [Stops, Suppresses, hname]
  | other =>
    refine Or.inr (Or.inr ⟨by simp [Stops, hname], by simp [Suppresses, hname], ?_⟩)
    by_cases hsp : isspace (line.headD 0) = true
    · rw [if_pos hsp, if_pos hsp]
    · rw [if_neg hsp, if_neg hsp]

theorem suppresses_iff_dispatch (line : Bytes) :
    Suppresses line ↔ dispatch line Reader.init = .suppress := by
  rcases dispatch_cases line Reader.init with ⟨hs, hd⟩ | ⟨hs, hd⟩ | ⟨-, hs, hd⟩
  · simp [hd, hs.not_suppresses]
  · simp [hd, hs]
  · simp [hd, hs]

instance (line : Bytes) : Decidable (Suppresses line) :=
  decidable_of_iff _ (suppresses_iff_dispatch line).symm

/-- A branch that one name leads to is taken exactly for that name. -/
theorem headerName_eq_iff {line : Bytes} {e : Bytes × HeaderName} (he : e ∈ headerTable)
    (hother : e.2 ≠ .other) (hunique : ∀ e' ∈ headerTable, e'.2 = e.2 → e' = e) :
    headerName line = e.2 ↔ lower e.1 <+: lower line := by
  constructor
  · intro h
    obtain ⟨e', he', hname, hprefix⟩ := prefix_of_headerName h hother
    rwa [hunique e' he' hname] at hprefix
  · exact headerName_of_prefix he

theorem autoSubmitted_iff {line : Bytes} :
    headerName line = .autoSubmitted ↔ lower (bytes "Auto-Submitted:") <+: lower line :=
  headerName_eq_iff (e := (bytes "Auto-Submitted:", .autoSubmitted))
    (by decide) (by decide) (by decide)

theorem list_iff {line : Bytes} :
    headerName line = .list ↔ lower (bytes "List-") <+: lower line :=
  headerName_eq_iff (e := (bytes "List-", .list)) (by decide) (by decide) (by decide)

theorem precedence_iff {line : Bytes} :
    headerName line = .precedence ↔ lower (bytes "Precedence") <+: lower line :=
  headerName_eq_iff (e := (bytes "Precedence", .precedence)) (by decide) (by decide) (by decide)

theorem autoResponseSuppress_iff {line : Bytes} : headerName line = .autoResponseSuppress ↔
    lower (bytes "X-Auto-Response-Suppress:") <+: lower line :=
  headerName_eq_iff (e := (bytes "X-Auto-Response-Suppress:", .autoResponseSuppress))
    (by decide) (by decide) (by decide)

/-- A read long enough that the test behind `Auto-Submitted:` stays inside it.
Every read that ends in a line feed is. -/
def Clean (line : Bytes) : Prop := headerName line = .autoSubmitted → 16 ≤ line.length

theorem clean_of_lf (text : Bytes) : Clean (text ++ [lf]) := by
  intro hname
  have hprefix := autoSubmitted_iff.mp hname
  simp only [lower, List.map_append, List.map_cons, List.map_nil] at hprefix
  rcases List.prefix_concat_iff.mp hprefix with heq | htext
  · have hlast := congrArg List.getLast? heq
    rw [List.getLast?_concat] at hlast
    exact absurd hlast (by decide)
  · have hlen := htext.length_le
    simp only [List.length_map] at hlen
    have hfield : (bytes "Auto-Submitted:").length = 15 := by decide
    rw [List.length_append, List.length_singleton]
    omega

theorem skipspace_fgetsStore {buf line : Bytes} {p : ℕ} (hp : p < line.length) :
    skipspace (fgetsStore buf line) p = skipspace line p := by
  rw [skipspace, skipspace, fgetsStore, List.drop_append_of_le_length (by omega), cstr_append_zero]

theorem strchr_cstr_lt {s : Bytes} {c : UInt8} {i : ℕ} (h : strchr (cstr s) c = some i) :
    i < s.length := by
  obtain ⟨pre, post, heq, rfl, -⟩ := strchr_eq_some_iff.mp h
  have hlen := (prefix_of_cstr s).length_le
  rw [heq, List.length_append, List.length_cons] at hlen
  omega

theorem getD_fgetsStore {buf line : Bytes} {i : ℕ} (h : i ≤ line.length) :
    (fgetsStore buf line).getD i 0 = line.getD i 0 := by
  rcases Nat.lt_or_eq_of_le h with hlt | rfl
  · simp [fgetsStore, List.getElem?_append_left hlt]
  · simp [fgetsStore]

theorem headD_fgetsStore (buf line : Bytes) :
    (fgetsStore buf line).headD 0 = line.headD 0 := by
  cases line <;> rfl

theorem headerName_fgetsStore (buf line : Bytes) :
    headerName (fgetsStore buf line) = headerName line := by
  rw [← headerName_cstr, cstr_fgetsStore, headerName_cstr]

theorem isSubstring_fgetsStore (n buf line : Bytes) (name : Bool) :
    isSubstring n (fgetsStore buf line) name = isSubstring n line name := by
  simp only [isSubstring, cstr_fgetsStore]

/-- What is left in the buffer behind a clean read has no influence. -/
theorem dispatch_fgetsStore {buf line : Bytes} (h : Clean line) (r : Reader) :
    dispatch (fgetsStore buf line) r = dispatch line r := by
  unfold dispatch
  simp only [cstr_fgetsStore, headerName_cstr, isSubstring_fgetsStore, headD_fgetsStore]
  cases hname : headerName line with
  | autoSubmitted => simp only [skipspace_fgetsStore (show 15 < line.length from h hname)]
  | precedence =>
    have hlen : 10 ≤ line.length := by
      have := (precedence_iff.mp hname).length_le
      rwa [lower, lower, List.length_map, List.length_map] at this
    simp only [getD_fgetsStore hlen]
    cases hi : strchr (cstr line) colon with
    | none => rfl
    | some i => simp only [skipspace_fgetsStore (strchr_cstr_lt hi)]
  | _ => rfl

theorem appendHeader_fgetsStore (buf line : Bytes) (str : Option Bytes) (stripfield : Bool) :
    appendHeader str (fgetsStore buf line) stripfield = appendHeader str line stripfield := by
  unfold appendHeader
  simp only [cstr_fgetsStore]
  cases hi : strchr (cstr line) colon with
  | none => rfl
  | some i => simp only [Option.map_some, skipspace_fgetsStore (strchr_cstr_lt hi)]

theorem storeLine_fgetsStore (buf line : Bytes) (r : Reader) :
    storeLine (fgetsStore buf line) r = storeLine line r := by
  unfold storeLine
  simp only [yaslcat, cstr_fgetsStore, appendHeader_fgetsStore]

/-- The reading loop as a function of the lines alone. -/
def lineLoop (r : Reader) : List Bytes → Option Reader
  | [] => some r
  | line :: lines =>
    if line.headD 0 = lf then some r
    else
      match dispatch line r with
      | .next r => lineLoop (storeLine line r) lines
      | .stop => some r
      | .suppress => none

theorem headerLoop_eq_lineLoop {reads : List Bytes} (h : ∀ line ∈ reads, Clean line)
    (buf : Bytes) (r : Reader) : headerLoop buf r reads = lineLoop r reads := by
  induction reads generalizing buf r with
  | nil => rfl
  | cons line reads ih =>
    have hline := h line List.mem_cons_self
    unfold headerLoop lineLoop
    simp only [headD_fgetsStore, dispatch_fgetsStore hline]
    split
    · rfl
    · cases dispatch line r with
      | stop => rfl
      | suppress => rfl
      | next r' =>
        simp only [storeLine_fgetsStore]
        exact ih (fun l hl => h l (List.mem_cons_of_mem _ hl)) _ _

/-- A read that is not clean holds no value in the field it begins. -/
theorem stops_of_not_clean {line : Bytes} (h : ¬ Clean line) :
    headerName line = .autoSubmitted ∧ Stops line := by
  obtain ⟨hname, hlen⟩ := Classical.not_imp.mp h
  refine ⟨hname, Or.inl ⟨hname, ?_⟩⟩
  rw [skipspace, List.drop_eq_nil_of_le (by omega)]
  rfl

/-- What a read does when it neither stops the loop nor suppresses the reply. -/
theorem eq_settle_of_next {buf : Bytes} {r r' : Reader} (h : dispatch buf r = .next r') :
    r' = settle buf r := by
  rcases dispatch_cases buf r with ⟨-, hd⟩ | ⟨-, hd⟩ | ⟨-, -, hd⟩
  · rw [hd] at h
    cases h
  · rw [hd] at h
    cases h
  · rw [hd] at h
    exact (Flow.next.inj h).symm

theorem passes_of_next {line : Bytes} {r r' : Reader} (h : dispatch line r = .next r') :
    ¬ Stops line ∧ ¬ Suppresses line := by
  rcases dispatch_cases line r with ⟨-, hd⟩ | ⟨-, hd⟩ | ⟨hstop, hs, -⟩
  · rw [hd] at h
    cases h
  · rw [hd] at h
    cases h
  · exact ⟨hstop, hs⟩

/-- Only the last read can look at what an earlier one left in the buffer, and
then it changes nothing that is kept. -/
theorem lineLoop_of_headerLoop {reads : List Bytes}
    (h : ∀ pre line post, reads = pre ++ line :: post → post ≠ [] → Clean line) {buf : Bytes}
    {r r' : Reader} (hloop : headerLoop buf r reads = some r') :
    ∃ r'', lineLoop r reads = some r'' ∧ r''.h = r'.h ∧ r''.rcptHdrs = r'.rcptHdrs := by
  induction reads generalizing buf r with
  | nil =>
    cases hloop
    exact ⟨_, rfl, rfl, rfl⟩
  | cons line reads ih =>
    have ih' := @ih fun pre l post heq => h (line :: pre) l post (by rw [heq]; rfl)
    unfold headerLoop at hloop
    unfold lineLoop
    simp only [headD_fgetsStore] at hloop
    by_cases hlf : line.headD 0 = lf
    · rw [if_pos hlf] at hloop ⊢
      cases hloop
      exact ⟨_, rfl, rfl, rfl⟩
    · rw [if_neg hlf] at hloop ⊢
      by_cases hclean : Clean line
      · rw [dispatch_fgetsStore hclean] at hloop
        cases hd : dispatch line r with
        | stop =>
          rw [hd] at hloop
          cases hloop
          exact ⟨_, rfl, rfl, rfl⟩
        | suppress =>
          rw [hd] at hloop
          cases hloop
        | next r1 =>
          rw [hd] at hloop
          simp only [storeLine_fgetsStore] at hloop
          exact ih' hloop
      · have hlast : reads = [] := by
          by_contra hne
          exact hclean (h [] line reads rfl hne)
        subst hlast
        obtain ⟨hname, hstops⟩ := stops_of_not_clean hclean
        rcases dispatch_cases line r with ⟨-, hd⟩ | ⟨hs, -⟩ | ⟨hs, -, -⟩
        · refine ⟨r, by rw [hd], ?_⟩
          cases hd' : dispatch (fgetsStore buf line) r with
          | stop =>
            rw [hd'] at hloop
            cases hloop
            exact ⟨rfl, rfl⟩
          | suppress =>
            rw [hd'] at hloop
            cases hloop
          | next r1 =>
            have hr1 : r1 = { r with state := .noreply } := by
              rw [eq_settle_of_next hd', settle, headerName_fgetsStore, hname]
            rw [hd', hr1] at hloop
            cases hloop
            exact ⟨rfl, rfl⟩
        · exact absurd hs hstops.not_suppresses
        · exact absurd hstops hs

/-- The loop stops reading at this line: the empty line, or a field without a value. -/
def Ends (line : Bytes) : Prop := line.headD 0 = lf ∨ Stops line

instance (line : Bytes) : Decidable (Ends line) := inferInstanceAs (Decidable (_ ∨ _))

/-- Some line suppresses the reply before any line ends the loop. -/
def Suppressed : List Bytes → Prop
  | [] => False
  | line :: lines => ¬ Ends line ∧ (Suppresses line ∨ Suppressed lines)

/-- The decision to return NULL is the decision of the first line that takes one. -/
theorem lineLoop_eq_none_iff (lines : List Bytes) (r : Reader) :
    lineLoop r lines = none ↔ Suppressed lines := by
  induction lines generalizing r with
  | nil => simp [lineLoop, Suppressed]
  | cons line lines ih =>
    unfold lineLoop Suppressed Ends
    by_cases hlf : line.headD 0 = lf
    · simp only [hlf, ite_true]
      simp
    · rw [if_neg hlf]
      rcases dispatch_cases line r with ⟨hs, hd⟩ | ⟨hs, hd⟩ | ⟨hstop, hs, hd⟩
      · simp [hd, hs]
      · have hstop : ¬ Stops line := fun e => e.not_suppresses hs
        simp only [hd, hlf, hs, hstop]
        simp
      · simp only [hd, hlf, hs, hstop, false_or, not_false_eq_true, true_and]
        exact ih _

/-- The same decision as a condition on the order of the lines: some line
suppresses, and any line that ends the loop has a suppressing line before it. -/
theorem suppressed_iff (lines : List Bytes) : Suppressed lines ↔
    (∃ l ∈ lines, Suppresses l) ∧ ∀ pre l post, lines = pre ++ l :: post →
      Ends l → ∃ k ∈ pre, Suppresses k := by
  induction lines with
  | nil => simp [Suppressed]
  | cons l lines ih =>
    unfold Suppressed
    constructor
    · intro hparts
      obtain ⟨hends, hs | hs⟩ := hparts
      · refine ⟨⟨l, List.mem_cons_self, hs⟩, ?_⟩
        intro pre k post heq hk
        cases pre with
        | nil => exact absurd ((List.cons.inj heq).1 ▸ hk) hends
        | cons p pre =>
          rw [← (List.cons.inj heq).1]
          exact ⟨l, List.mem_cons_self, hs⟩
      · obtain ⟨⟨k, hk, hks⟩, hall⟩ := ih.mp hs
        refine ⟨⟨k, List.mem_cons_of_mem _ hk, hks⟩, ?_⟩
        intro pre j post heq hj
        cases pre with
        | nil => exact absurd ((List.cons.inj heq).1 ▸ hj) hends
        | cons p pre =>
          obtain ⟨m, hm, hms⟩ := hall pre j post (List.cons.inj heq).2 hj
          exact ⟨m, List.mem_cons_of_mem _ hm, hms⟩
    · intro hparts
      obtain ⟨⟨k, hk, hks⟩, hall⟩ := hparts
      have hends : ¬ Ends l := by
        intro h
        obtain ⟨m, hm, -⟩ := hall [] l lines rfl h
        simp at hm
      refine ⟨hends, ?_⟩
      by_cases hl : Suppresses l
      · exact Or.inl hl
      · right
        apply ih.mpr
        have hk' : k ∈ lines := by
          rcases List.mem_cons.mp hk with rfl | hk
          · exact absurd hks hl
          · exact hk
        refine ⟨⟨k, hk', hks⟩, ?_⟩
        rintro pre j post rfl hj
        obtain ⟨m, hm, hms⟩ := hall (l :: pre) j post rfl hj
        rcases List.mem_cons.mp hm with rfl | hm
        · exact absurd hms hl
        · exact ⟨m, hm, hms⟩

/-- A suppressing line is effective unless the loop ends before it. -/
theorem suppressed_append_cons {lines rest : List Bytes} {l : Bytes} (hs : Suppresses l)
    (hends : ¬ Ends l) : Suppressed (lines ++ l :: rest) ↔
      ∀ pre k post, lines = pre ++ k :: post → Ends k → ∃ j ∈ pre, Suppresses j := by
  rw [suppressed_iff]
  constructor
  · rintro ⟨-, hall⟩ pre k post rfl hk
    exact hall pre k (post ++ l :: rest) (by simp) hk
  · intro hall
    refine ⟨⟨l, by simp, hs⟩, ?_⟩
    intro pre k post heq hk
    rcases List.append_eq_append_iff.mp heq with ⟨mid, rfl, hmid⟩ | ⟨mid, rfl, hmid⟩
    · cases mid with
      | nil =>
        have hkl : l = k := (List.cons.inj hmid).1
        exact absurd (hkl ▸ hk) hends
      | cons m mid =>
        rw [List.cons_append] at hmid
        have hml : l = m := (List.cons.inj hmid).1
        exact ⟨l, by simp [hml], hs⟩
    · cases mid with
      | nil =>
        have hkl : k = l := (List.cons.inj hmid).1
        exact absurd (hkl ▸ hk) hends
      | cons m mid =>
        rw [List.cons_append] at hmid
        have hkm : k = m := (List.cons.inj hmid).1
        obtain ⟨j, hj, hjs⟩ := hall pre k mid (by rw [hkm]) hk
        exact ⟨j, hj, hjs⟩

/-- Lines that decide nothing leave the decision to those behind them. -/
theorem suppressed_append_of_pass {pre : List Bytes}
    (h : ∀ k ∈ pre, ¬ Ends k ∧ ¬ Suppresses k) (post : List Bytes) :
    Suppressed (pre ++ post) ↔ Suppressed post := by
  induction pre with
  | nil => rfl
  | cons k pre ih =>
    obtain ⟨hends, hs⟩ := h k List.mem_cons_self
    rw [List.cons_append, Suppressed, and_iff_right hends, or_iff_right hs]
    exact ih fun j hj => h j (List.mem_cons_of_mem k hj)

/-- The state in which a line that decides nothing leaves the reader. -/
def lineState (s : HeaderState) (line : Bytes) : HeaderState :=
  match headerName line with
  | .capture _ => .append
  | .recipient => .recipient
  | .other => if isspace (line.headD 0) then s else .unknown
  | _ => .noreply

/-- The text of the To and Cc fields, each line followed by a blank. -/
def recipientText : HeaderState → List Bytes → Bytes
  | _, [] => []
  | s, line :: lines =>
    if Ends line then []
    else
      let s := lineState s line
      (if s = .recipient then cstr line ++ bytes " " else []) ++ recipientText s lines

theorem nul_notMem_recipientText (s : HeaderState) (lines : List Bytes) :
    0 ∉ recipientText s lines := by
  induction lines generalizing s with
  | nil => exact List.not_mem_nil
  | cons line lines ih =>
    unfold recipientText
    split
    · exact List.not_mem_nil
    · rw [List.mem_append, not_or]
      refine ⟨?_, ih _⟩
      split
      · rw [List.mem_append, not_or]
        exact ⟨nul_notMem_cstr line, by decide⟩
      · exact List.not_mem_nil

theorem settle_state (line : Bytes) (r : Reader) :
    (settle line r).state = lineState r.state line := by
  unfold settle lineState
  cases headerName line with
  | other =>
    by_cases hsp : isspace (line.headD 0) = true
    · simp only [hsp, ite_true]
    · simp only [hsp, ite_false, Bool.false_eq_true]
  | _ => rfl

/-- The prefix chain stores nothing. -/
theorem settle_keeps (line : Bytes) (r : Reader) :
    (settle line r).h = r.h ∧ (settle line r).rcptHdrs = r.rcptHdrs := by
  unfold settle
  cases headerName line with
  | other =>
    by_cases hsp : isspace (line.headD 0) = true
    · simp only [hsp, ite_true, and_self]
    · simp only [hsp, ite_false, Bool.false_eq_true, and_self]
  | _ => exact ⟨rfl, rfl⟩

theorem storeLine_state (line : Bytes) (r : Reader) : (storeLine line r).state = r.state := by
  unfold storeLine
  split <;> rfl

theorem storeLine_rcptHdrs (line : Bytes) (r : Reader) :
    (storeLine line r).rcptHdrs =
      r.rcptHdrs ++ if r.state = .recipient then cstr line ++ bytes " " else [] := by
  unfold storeLine
  cases hs : r.state with
  | recipient => simp [yaslcat, yaslcatlen, bytes]
  | append => cases r.currentHdr <;> simp
  | _ => simp

/-- The recipient text the loop accumulates is that of the lines it reads. -/
theorem lineLoop_rcptHdrs {lines : List Bytes} {r r' : Reader}
    (hloop : lineLoop r lines = some r') :
    r'.rcptHdrs = r.rcptHdrs ++ recipientText r.state lines := by
  induction lines generalizing r with
  | nil =>
    cases hloop
    simp [recipientText]
  | cons line lines ih =>
    unfold lineLoop at hloop
    unfold recipientText
    by_cases hlf : line.headD 0 = lf
    · rw [if_pos hlf] at hloop
      cases hloop
      rw [if_pos (show Ends line from Or.inl hlf), List.append_nil]
    · rw [if_neg hlf] at hloop
      rcases dispatch_cases line r with ⟨hs, hd⟩ | ⟨-, hd⟩ | ⟨hstop, -, hd⟩
      · rw [hd] at hloop
        cases hloop
        rw [if_pos (show Ends line from Or.inr hs), List.append_nil]
      · rw [hd] at hloop
        cases hloop
      · rw [hd] at hloop
        have ih' := ih hloop
        rw [storeLine_state, settle_state, storeLine_rcptHdrs, (settle_keeps line r).2,
          settle_state] at ih'
        rw [if_neg (show ¬ Ends line from not_or_intro hlf hstop), ih', List.append_assoc]

end Simvacation.HeaderLines
