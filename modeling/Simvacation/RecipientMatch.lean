import Simvacation.HeaderLines

/-!
The test that the message names its recipient. The text of the To and Cc fields
is normalized before the aliases are searched in it, the aliases are not: an
alias with a dot or an underscore is never found. What the test should decide
comes out only when another alias makes up for it.
-/

namespace Simvacation.RecipientMatch

open CString Yasl Vutil Readheaders HeaderLines

/-- A dot or an underscore. -/
def isSeparator (c : UInt8) : Bool := c = 46 || c = 95

/-- In lower case, every dot and underscore replaced by a space. -/
def normalize (s : Bytes) : Bytes := (lower s).map fun c => if isSeparator c then 32 else c

def Marked (name : Bytes) : Prop := ∃ c ∈ name, isSeparator c = true

/-- The text of the To and Cc fields of a message. -/
def recipients (stdin : Bytes) : Bytes := recipientText .unknown (fgetsReads MAXLINE stdin)

theorem mapchar_name : mapchar ((bytes "._").take 2) ((bytes "  ").take 2) =
    fun c => if isSeparator c then 32 else c := by
  funext c
  have hchars : (bytes "._").take 2 = [46, 95] := by decide
  have hblanks : (bytes "  ").take 2 = [32, 32] := by decide
  rw [hchars, hblanks]
  by_cases hdot : c = 46
  · simp [mapchar, isSeparator, hdot]
  · by_cases hbar : c = 95
    · simp [mapchar, isSeparator, hbar]
    · simp [mapchar, isSeparator, hdot, hbar]

theorem isSubstring_iff (n h : Bytes) :
    isSubstring n h true = true ↔ lower (cstr n) <:+: normalize (cstr h) := by
  simp only [isSubstring, ite_true, strstr_isSome_iff, yasltolower, yaslmapchars, normalize,
    mapchar_name]

theorem isSeparator_tolower (c : UInt8) : isSeparator (tolower c) = isSeparator c := by
  apply forall_byte (P := fun c => isSeparator (tolower c) = isSeparator c)
  decide +kernel

theorem normalize_of_not_marked {name : Bytes} (h : ¬ Marked name) :
    normalize name = lower name := by
  unfold normalize lower
  rw [List.map_map]
  apply List.map_congr_left
  intro c hc
  have hsep : isSeparator c = false := by
    by_contra hne
    exact h ⟨c, hc, eq_true_of_ne_false hne⟩
  simp [isSeparator_tolower, hsep]

theorem not_isSeparator_of_mem_normalize {s : Bytes} {c : UInt8} (h : c ∈ normalize s) :
    isSeparator c = false := by
  obtain ⟨d, -, rfl⟩ := List.mem_map.mp h
  by_cases hd : isSeparator d = true
  · rw [if_pos hd]
    decide
  · rw [if_neg hd]
    exact Bool.eq_false_iff.mpr hd

/-- An alias with a dot or an underscore is found in no text. -/
theorem not_infix_of_marked {name : Bytes} (h : Marked name) (text : Bytes) :
    ¬ lower name <:+: normalize text := by
  intro hinfix
  obtain ⟨c, hc, hsep⟩ := h
  have hmem : tolower c ∈ normalize text := hinfix.subset (List.mem_map_of_mem hc)
  have hnot := not_isSeparator_of_mem_normalize hmem
  rw [isSeparator_tolower, hsep] at hnot
  contradiction

/-- The aliases are searched in the text of the To and Cc fields. -/
theorem rcptMatch_iff {stack stdin : Bytes} {names : List Bytes} {h : Headers}
    (hread : readheaders stack names stdin = some h) : h.rcptMatch = true ↔
      ∃ a ∈ names, lower (cstr a) <:+: normalize (recipients stdin) := by
  obtain ⟨r, hloop, rfl⟩ := Option.map_eq_some_iff.mp hread
  have hclean : ∀ pre line post, fgetsReads MAXLINE stdin = pre ++ line :: post → post ≠ [] →
      Clean line := by
    intro pre line post heq hpost hname
    rcases fgetsReads_cases (by decide) heq with hlast | hlen | ⟨hnil, -, -⟩
    · obtain ⟨text, rfl⟩ := List.getLast?_eq_some_iff.mp hlast
      exact clean_of_lf text hname
    · rw [hlen]
      decide
    · exact absurd hnil hpost
  obtain ⟨r', hlines, -, hrcpt⟩ := lineLoop_of_headerLoop hclean hloop
  have htext : r.rcptHdrs = recipients stdin := by
    rw [← hrcpt, lineLoop_rcptHdrs hlines]
    rfl
  have hnul : cstr (recipients stdin) = recipients stdin :=
    cstr_eq_self (nul_notMem_recipientText _ _)
  simp only [List.any_eq_true, isSubstring_iff, htext, hnul]

end Simvacation.RecipientMatch
