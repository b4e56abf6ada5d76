import Simvacation.Vutil

/-!
System senders. What should count is the local part, the text before the last
`@`. The range that `check_from` keeps ends one before that `@`; when the `@`
comes first, this end is minus one, the last byte of the string, and nothing is
chopped off. Then the listed names are looked for at the end of the domain.
-/

namespace Simvacation.SystemSenders

open CString Yasl Vutil

/-- The text before the last `@`, or all of it. -/
def textBeforeAt (a : Bytes) : Bytes :=
  match strrchr a atSign with
  | some p => a.take p
  | none => a

def stripQuotes (a : Bytes) : Bytes := (a.dropWhile (· = quote)).rdropWhile (· = quote)

/-- The local part up to letter case and surrounding quotes. -/
def folded (a : Bytes) : Bytes := lower (stripQuotes (textBeforeAt a))

def ListedEnd (a : Bytes) : Prop := ∃ name ∈ ignore, name <:+ a

/-- The local part alone decides whether there is somebody to answer. -/
structure DecidedByLocalPart (sender : Bytes) : Prop where
  ignored : checkFrom sender = none ↔ ListedEnd (folded (canonFrom sender))
  kept : ¬ ListedEnd (folded (canonFrom sender)) → checkFrom sender = some (canonFrom sender)

/-- Nothing stands before the last `@`, and a listed name at the end of the domain. -/
def DomainListed (a : Bytes) : Prop :=
  ∃ domain, a = atSign :: domain ∧ atSign ∉ domain ∧
    ListedEnd (lower (domain.rdropWhile (· = quote)))

theorem endsWith_iff {a name : Bytes} : endsWith a name = true ↔ name <:+ a := by
  rw [endsWith, Bool.and_eq_true, decide_eq_true_eq, decide_eq_true_eq]
  constructor
  · intro hparts
    rw [← hparts.2]
    exact List.drop_suffix _ _
  · intro h
    exact ⟨h.length_le, (List.suffix_iff_eq_drop.mp h).symm⟩

theorem checkFrom_cases (sender : Bytes) :
    (ListedEnd (localPart (canonFrom sender)) ∧ checkFrom sender = none) ∨
      (¬ ListedEnd (localPart (canonFrom sender)) ∧
        checkFrom sender = some (canonFrom sender)) := by
  have hlisted : ignore.any (endsWith (localPart (canonFrom sender))) = true ↔
      ListedEnd (localPart (canonFrom sender)) := by
    simp only [List.any_eq_true, endsWith_iff, ListedEnd]
  by_cases h : ListedEnd (localPart (canonFrom sender))
  · exact Or.inl ⟨h, by rw [checkFrom, if_pos (hlisted.mpr h)]⟩
  · exact Or.inr ⟨h, by rw [checkFrom, if_neg fun e => h (hlisted.mp e)]⟩

theorem dropWhile_congr {p q : UInt8 → Bool} {s : Bytes} (h : ∀ c ∈ s, p c = q c) :
    s.dropWhile p = s.dropWhile q := by
  induction s with
  | nil => rfl
  | cons c s ih =>
    have ih' := ih fun d hd => h d (List.mem_cons_of_mem c hd)
    rw [List.dropWhile_cons, List.dropWhile_cons, h c List.mem_cons_self, ih']

/-- A C string has no NUL that trimming could take away. -/
theorem yasltrim_quote {a : Bytes} (hnul : 0 ∉ a) : yasltrim a [quote] = stripQuotes a := by
  have hsame : ∀ c ∈ a, (decide (c = 0) || [quote].contains c) = decide (c = quote) := by
    intro c hc
    have hne : c ≠ 0 := fun e => hnul (e ▸ hc)
    simp [hne]
  have hfront := dropWhile_congr hsame
  rw [yasltrim, stripQuotes, hfront, List.rdropWhile, List.rdropWhile]
  congr 1
  apply dropWhile_congr
  intro c hc
  exact hsame c ((List.dropWhile_suffix _).subset (List.mem_reverse.mp hc))

theorem not_listedEnd_nil : ¬ ListedEnd [] := by
  unfold ListedEnd
  decide

/-- No listed name holds an `@`. -/
theorem listedEnd_cons_at {a : Bytes} : ListedEnd (atSign :: a) ↔ ListedEnd a := by
  have hplain : ∀ name ∈ ignore, atSign ∉ name := by decide
  constructor
  · intro hlisted
    obtain ⟨name, hname, hend⟩ := hlisted
    rcases List.suffix_cons_iff.mp hend with heq | hend
    · exact absurd (heq ▸ List.mem_cons_self) (hplain name hname)
    · exact ⟨name, hname, hend⟩
  · intro hlisted
    obtain ⟨name, hname, hend⟩ := hlisted
    exact ⟨name, hname, hend.trans (List.suffix_cons _ _)⟩

/-- An `@` behind the first byte is where the domain is chopped off. -/
theorem localPart_eq_folded {a : Bytes} (hnul : 0 ∉ a) (hat : strrchr a atSign ≠ some 0) :
    localPart a = folded a := by
  unfold localPart folded textBeforeAt
  cases hp : strrchr a atSign with
  | none =>
    simp only [yasltrim_quote hnul]
    rfl
  | some p =>
    cases p with
    | zero => exact absurd hp hat
    | succ n =>
      have hcut : yaslrange a 0 (((n + 1 : ℕ) : ℤ) - 1) = a.take (n + 1) := by
        rw [← yaslrange_take a n, Nat.cast_add, Nat.cast_one, Int.add_sub_cancel]
      have hnul' : 0 ∉ a.take (n + 1) := fun e => hnul (List.mem_of_mem_take e)
      simp only [hcut, yasltrim_quote hnul']
      rfl

/-- A byte in front that is no quote stays, and so does none behind it but quotes. -/
theorem rdropWhile_cons_of_neg {p : UInt8 → Bool} {c : UInt8} (hc : ¬ p c) (s : Bytes) :
    (c :: s).rdropWhile p = c :: s.rdropWhile p := by
  rw [List.rdropWhile, List.rdropWhile, List.reverse_cons, List.dropWhile_append]
  cases hs : s.reverse.dropWhile p with
  | nil => simp [hc]
  | cons d t => simp

theorem strrchr_cons_at {domain : Bytes} (hat : atSign ∉ domain) :
    strrchr (atSign :: domain) atSign = some 0 := by
  rw [← List.nil_append (atSign :: domain), strrchr_append_cons hat]
  rfl

/-- An `@` in front leaves the whole string, of which the end is trimmed. -/
theorem localPart_cons_at {domain : Bytes} (hnul : 0 ∉ domain) (hat : atSign ∉ domain) :
    localPart (atSign :: domain) = atSign :: lower (domain.rdropWhile (· = quote)) := by
  have hall : yaslrange (atSign :: domain) 0 (((0 : ℕ) : ℤ) - 1) = atSign :: domain :=
    yaslrange_drop (atSign :: domain) 0
  have hnul' : 0 ∉ atSign :: domain := by
    rw [List.mem_cons, not_or]
    exact ⟨by decide, hnul⟩
  have hstrip : stripQuotes (atSign :: domain) = atSign :: domain.rdropWhile (· = quote) := by
    rw [stripQuotes, List.dropWhile_cons_of_neg (by decide), rdropWhile_cons_of_neg (by decide)]
  rw [localPart, strrchr_cons_at hat]
  simp only [hall]
  rw [yasltrim_quote hnul', hstrip]
  rfl

theorem folded_cons_at {domain : Bytes} (hat : atSign ∉ domain) :
    folded (atSign :: domain) = [] := by
  rw [folded, textBeforeAt, strrchr_cons_at hat]
  rfl

/-- The code's local part ends with a listed name when the true one does, or when
there is none and the domain does. -/
theorem listedEnd_localPart_iff {a : Bytes} (hnul : 0 ∉ a) :
    ListedEnd (localPart a) ↔ ListedEnd (folded a) ∨ DomainListed a := by
  by_cases hat : strrchr a atSign = some 0
  · obtain ⟨domain, rfl, hdomain⟩ : ∃ domain, a = atSign :: domain ∧ atSign ∉ domain := by
      obtain ⟨pre, domain, heq, hlen, hdomain⟩ := strrchr_eq_some_iff.mp hat
      rw [List.eq_nil_of_length_eq_zero hlen] at heq
      exact ⟨domain, heq, hdomain⟩
    have hnul' : 0 ∉ domain := fun e => hnul (List.mem_cons_of_mem _ e)
    rw [localPart_cons_at hnul' hdomain, folded_cons_at hdomain, listedEnd_cons_at]
    constructor
    · exact fun h => Or.inr ⟨domain, rfl, hdomain, h⟩
    · intro hcases
      rcases hcases with hnil | ⟨domain', heq, -, h⟩
      · exact absurd hnil not_listedEnd_nil
      · rwa [(List.cons.inj heq).2]
  · have hnot : ¬ DomainListed a := by
      intro hlisted
      obtain ⟨domain, rfl, hdomain, -⟩ := hlisted
      exact hat (strrchr_eq_some_iff.mpr ⟨[], domain, rfl, rfl, hdomain⟩)
    rw [localPart_eq_folded hnul hat, or_iff_left hnot]

theorem DomainListed.head {a : Bytes} (h : DomainListed a) : a.head? = some atSign := by
  obtain ⟨domain, rfl, -⟩ := h
  exact List.head?_cons

theorem DomainListed.not_folded {a : Bytes} (h : DomainListed a) : ¬ ListedEnd (folded a) := by
  obtain ⟨domain, rfl, hdomain, -⟩ := h
  rw [folded_cons_at hdomain]
  exact not_listedEnd_nil

/-- What decides in the code: the local part, or the domain of an empty one. -/
theorem checkFrom_eq_none_iff {sender : Bytes} (hnul : 0 ∉ sender) :
    checkFrom sender = none ↔
      ListedEnd (folded (canonFrom sender)) ∨ DomainListed (canonFrom sender) := by
  have hnul' : 0 ∉ canonFrom sender := notMem_canonFrom (by decide) (by decide) hnul
  rw [← listedEnd_localPart_iff hnul']
  rcases checkFrom_cases sender with ⟨h, heq⟩ | ⟨h, heq⟩
  · exact iff_of_true heq h
  · exact iff_of_false (by simp [heq]) h

theorem decidedByLocalPart_iff {sender : Bytes} (hnul : 0 ∉ sender) :
    DecidedByLocalPart sender ↔ ¬ DomainListed (canonFrom sender) := by
  have hnone := checkFrom_eq_none_iff hnul
  constructor
  · intro hdecided hdomain
    exact hdomain.not_folded (hdecided.ignored.mp (hnone.mpr (Or.inr hdomain)))
  · intro hdomain
    rw [or_iff_left hdomain] at hnone
    refine ⟨hnone, fun hkept => ?_⟩
    rcases checkFrom_cases sender with ⟨-, heq⟩ | ⟨-, heq⟩
    · exact absurd (hnone.mp heq) hkept
    · exact heq

/-- The local part of the canonical sender decides, and nothing else of it,
exactly when the canonical sender is no `@` with a listed domain; two untagged
senders whose local parts agree fare alike unless this holds of one alone. -/
theorem check_from_iff {sender : Bytes} (hnul : 0 ∉ sender) :
    (DecidedByLocalPart sender ↔ ¬ DomainListed (canonFrom sender)) ∧
      ∀ sender', 0 ∉ sender' → canonFrom sender = sender → canonFrom sender' = sender' →
        folded sender = folded sender' →
        ((checkFrom sender = none ↔ checkFrom sender' = none) ↔
          (DomainListed sender ↔ DomainListed sender')) := by
  refine ⟨decidedByLocalPart_iff hnul, ?_⟩
  intro sender' hnul' hplain hplain' hagree
  rw [checkFrom_eq_none_iff hnul, checkFrom_eq_none_iff hnul', hplain, hplain', hagree]
  by_cases hlisted : ListedEnd (folded sender')
  · have hdomain : ¬ DomainListed sender := fun h => h.not_folded (hagree ▸ hlisted)
    have hdomain' : ¬ DomainListed sender' := fun h => h.not_folded hlisted
    exact iff_of_true (iff_of_true (Or.inl hlisted) (Or.inl hlisted))
      (iff_of_false hdomain hdomain')
  · rw [or_iff_right hlisted, or_iff_right hlisted]

/-- A quoted local part with capitals, and the same without at another domain. -/
def quotedPostmaster : Bytes := bytes "\"PostMaster\"@example.com"

def plainPostmaster : Bytes := bytes "postmaster@example.org"

theorem postmaster_ignored : DecidedByLocalPart quotedPostmaster ∧
    (checkFrom quotedPostmaster = none ↔ checkFrom plainPostmaster = none) := by
  have hquoted : ¬ DomainListed quotedPostmaster := fun h => absurd h.head (by decide)
  have hplain : ¬ DomainListed plainPostmaster := fun h => absurd h.head (by decide)
  have hboth := @check_from_iff quotedPostmaster (by decide)
  refine ⟨hboth.1.mpr hquoted, ?_⟩
  exact (hboth.2 plainPostmaster (by decide) (by decide) (by decide) (by decide)).mpr
    (iff_of_false hquoted hplain)

/-- The empty local part is no listed name; its domain decides. -/
theorem domain_ignored : ¬ ∀ sender, 0 ∉ sender → DecidedByLocalPart sender := by
  intro h
  have hdecided := h (bytes "@foo-request") (by decide)
  have hlisted := hdecided.ignored.mp (by decide)
  have hempty : folded (canonFrom (bytes "@foo-request")) = [] := by decide
  rw [hempty] at hlisted
  exact not_listedEnd_nil hlisted

end Simvacation.SystemSenders
