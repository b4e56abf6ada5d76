import Simvacation.Messages

/-!
List and bulk mail. The fields that mark it are described by their text alone,
in any letter case; each of them is a line at which the reader suppresses the
reply. It is not reached when the loop ends earlier, which it does at an
Auto-Submitted or Precedence field without a value: this is exactly when list
or bulk mail is answered.
-/

namespace Simvacation.BulkMail

open CString Yasl Vutil Readheaders HeaderLines Messages

def isWsp (c : UInt8) : Bool := c = 32 || c = 9

/-- A Precedence field, with or without blanks around its colon, whose value
starts with one of the three words. -/
def BulkPrecedence (text : Bytes) : Prop :=
  ∃ name blank blank' value word, text = name ++ blank ++ colon :: (blank' ++ value) ∧
    lower name = bytes "precedence" ∧ (∀ c ∈ blank, isWsp c) ∧ (∀ c ∈ blank', isWsp c) ∧
    word ∈ [bytes "junk", bytes "bulk", bytes "list"] ∧ word <+: lower value

/-- An X-Auto-Response-Suppress field with OOF or All in its value. -/
def SuppressOof (text : Bytes) : Prop :=
  ∃ name pre item post, text = name ++ (pre ++ item ++ post) ∧
    lower name = bytes "x-auto-response-suppress:" ∧ lower item ∈ [bytes "oof", bytes "all"]

def BulkField (text : Bytes) : Prop :=
  bytes "list-" <+: lower text ∨ BulkPrecedence text ∨ SuppressOof text

theorem isSubstring_of_append {n : Bytes} (hn : 0 ∉ n) {pre item post : Bytes}
    (h : 0 ∉ pre ++ item ++ post) (hitem : lower item = lower n) :
    isSubstring n (pre ++ item ++ post) false = true := by
  simp only [isSubstring, cstr_eq_self hn, cstr_eq_self h, Bool.false_eq_true, ite_false]
  apply strstr_isSome_iff.mpr
  refine ⟨lower pre, lower post, ?_⟩
  simp only [yasltolower, lower_append, hitem]

theorem suppresses_of_suppressOof {text : Bytes} (hnul : 0 ∉ text) (h : SuppressOof text) :
    Suppresses (text ++ [lf]) := by
  obtain ⟨name, pre, item, post, rfl, hname, hitem⟩ := h
  have hline : name ++ (pre ++ item ++ post) ++ [lf] = (name ++ pre) ++ item ++ (post ++ [lf]) := by
    simp only [List.append_assoc]
  have hnul' : 0 ∉ (name ++ pre) ++ item ++ (post ++ [lf]) := by
    rw [← hline, List.mem_append, not_or]
    exact ⟨hnul, by decide⟩
  refine Or.inr (Or.inr (Or.inr ⟨?_, ?_⟩))
  · rw [autoResponseSuppress_iff, List.append_assoc, lower_append, hname]
    exact List.prefix_append _ _
  · rw [hline]
    rcases List.mem_cons.mp hitem with hoof | hall
    · exact Or.inl (isSubstring_of_append (by decide) hnul' (hoof.trans (by decide)))
    · exact Or.inr (isSubstring_of_append (by decide) hnul'
        ((List.mem_singleton.mp hall).trans (by decide)))

theorem isspace_of_isWsp {c : UInt8} (h : isWsp c = true) : isspace c = true := by
  simp only [isWsp, Bool.or_eq_true, decide_eq_true_eq] at h
  rcases h with rfl | rfl <;> decide

/-- The value of such a Precedence field is found behind its colon. -/
theorem precedenceValue_of_bulk {name blank blank' value : Bytes}
    (hname : lower name = bytes "precedence") (hblank : ∀ c ∈ blank, isWsp c)
    (hnul : 0 ∉ name ++ blank ++ colon :: (blank' ++ value)) :
    precedenceValue (name ++ blank ++ colon :: (blank' ++ value) ++ [lf]) =
      some ((blank' ++ value ++ [lf]).dropWhile isspace) := by
  have hlen : name.length = 10 := by
    have := congrArg List.length hname
    rwa [lower, List.length_map] at this
  have hcolon : colon ∉ name ++ blank := by
    rw [List.mem_append, not_or]
    constructor
    · intro h
      have hmem : tolower colon ∈ lower name := List.mem_map_of_mem h
      rw [hname] at hmem
      exact absurd hmem (by decide)
    · intro h
      exact absurd (hblank colon h) (by decide)
  have hline : name ++ blank ++ colon :: (blank' ++ value) ++ [lf] =
      (name ++ blank) ++ colon :: (blank' ++ value ++ [lf]) := by
    simp only [List.append_assoc, List.cons_append]
  have htail : 0 ∉ blank' ++ value ++ [lf] := by
    intro h
    rcases List.mem_append.mp h with h | h
    · exact hnul (List.mem_append_right _ (List.mem_cons_of_mem _ h))
    · exact absurd h (by decide)
  have hguard : (decide ((name ++ blank ++ colon :: (blank' ++ value) ++ [lf]).getD 10 0 = colon) ||
      decide ((name ++ blank ++ colon :: (blank' ++ value) ++ [lf]).getD 10 0 = 32) ||
      decide ((name ++ blank ++ colon :: (blank' ++ value) ++ [lf]).getD 10 0 = 9)) = true := by
    have hget : (name ++ blank ++ colon :: (blank' ++ value) ++ [lf]).getD 10 0 =
        (blank ++ colon :: (blank' ++ value) ++ [lf]).headD 0 := by
      simp only [List.append_assoc, List.getD_eq_getElem?_getD]
      rw [List.getElem?_append_right (by omega), hlen, Nat.sub_self]
      cases blank <;> rfl
    rw [hget]
    cases blank with
    | nil => simp
    | cons c blank =>
      have hc := hblank c List.mem_cons_self
      simp only [isWsp, Bool.or_eq_true, decide_eq_true_eq] at hc
      rcases hc with rfl | rfl <;> simp
  have hnul' : 0 ∉ (name ++ blank) ++ colon :: (blank' ++ value ++ [lf]) := by
    rw [← hline, List.mem_append, not_or]
    exact ⟨hnul, by decide⟩
  rw [precedenceValue, if_pos hguard, hline, cstr_eq_self hnul', strchr_append_cons hcolon,
    Option.map_some, skipspace,
    show (name ++ blank).length + 1 = (name ++ blank).length + 1 from rfl, ← List.drop_drop,
    List.drop_left]
  simp only [List.drop_one, List.tail_cons, cstr_eq_self htail]

/-- None of the words begins with white space, so nothing of the value is skipped. -/
theorem dropWhile_word {word value rest : Bytes}
    (hword : word ∈ [bytes "junk", bytes "bulk", bytes "list"]) (h : word <+: lower value) :
    (value ++ rest).dropWhile isspace = value ++ rest := by
  have hhead : ∃ c ∈ word.head?, isspace c = false := by
    revert hword
    simp only [List.mem_cons, List.not_mem_nil, or_false]
    intro hcases
    rcases hcases with rfl | rfl | rfl
    all_goals exact ⟨_, rfl, by decide⟩
  obtain ⟨c, hc, hspace⟩ := hhead
  obtain ⟨word', rfl⟩ := List.head?_eq_some_iff.mp hc
  cases value with
  | nil => simp [lower] at h
  | cons v value =>
    have hv : c = tolower v := (List.cons_prefix_cons.mp h).1
    have hv' : isspace v = false := by rw [← isspace_tolower, ← hv, hspace]
    rw [List.cons_append, List.dropWhile_cons_of_neg (by simp [hv'])]

theorem suppresses_of_bulkPrecedence {text : Bytes} (hnul : 0 ∉ text) (h : BulkPrecedence text) :
    Suppresses (text ++ [lf]) := by
  obtain ⟨name, blank, blank', value, word, rfl, hname, hblank, hblank', hword, hvalue⟩ := h
  have hfield : headerName (name ++ blank ++ colon :: (blank' ++ value) ++ [lf]) = .precedence := by
    rw [precedence_iff]
    simp only [List.append_assoc]
    rw [lower_append, hname]
    exact List.prefix_append _ _
  refine Or.inr (Or.inr (Or.inl ⟨hfield, _, precedenceValue_of_bulk hname hblank hnul, ?_⟩))
  rw [List.append_assoc, List.dropWhile_append_of_pos fun c hc => isspace_of_isWsp (hblank' c hc)]
  have hprefix : word <+: lower (value ++ [lf]) := by
    rw [lower_append]
    exact hvalue.trans (List.prefix_append _ _)
  rw [dropWhile_word hword hvalue]
  refine ⟨by simp, ?_⟩
  simp only [List.mem_cons, List.not_mem_nil, or_false] at hword
  rcases hword with rfl | rfl | rfl
  · exact Or.inl ((strncasecmp_eq_zero_iff' (show 0 ∉ bytes "junk" by decide)).mpr hprefix)
  · exact Or.inr (Or.inl ((strncasecmp_eq_zero_iff' (show 0 ∉ bytes "bulk" by decide)).mpr hprefix))
  · exact Or.inr (Or.inr ((strncasecmp_eq_zero_iff' (show 0 ∉ bytes "list" by decide)).mpr hprefix))

theorem suppresses_of_bulkField {text : Bytes} (hnul : 0 ∉ text) (h : BulkField text) :
    Suppresses (text ++ [lf]) := by
  rcases h with hlist | hprec | hoof
  · refine Or.inr (Or.inl (list_iff.mpr ?_))
    rw [lower_append]
    exact hlist.trans (List.prefix_append _ _)
  · exact suppresses_of_bulkPrecedence hnul hprec
  · exact suppresses_of_suppressOof hnul hoof

/-- An Auto-Submitted field without a value, and a list header. -/
def emptyAutoSubmitted : Line :=
  ⟨bytes "Auto-Submitted:", by decide, by decide, by decide⟩

def listId : Line :=
  ⟨bytes "List-Id: <staff.example.com>", by decide, by decide, by decide⟩

/-- Fields in front of the list header and behind it. -/
def listMail : List Line :=
  [⟨bytes "Received: from lists.example.com", by decide, by decide, by decide⟩,
    ⟨bytes "Auto-Submitted: No", by decide, by decide, by decide⟩,
    ⟨bytes "To: staff@example.com, bob@example.com", by decide, by decide, by decide⟩,
    listId, ⟨bytes "Subject: Minutes", by decide, by decide, by decide⟩]

end Simvacation.BulkMail
