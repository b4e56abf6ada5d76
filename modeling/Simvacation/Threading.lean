import Simvacation.ResponseHeaders

/-!
The threading fields of a response, by the rules of RFC 2822 that the source
quotes. Message-ID and References follow them whenever the parent message has a
Message-ID. Without one the null pointer or an empty text is printed behind the
other identifiers, and an In-Reply-To field is copied however many it holds.
-/

namespace Simvacation.Threading

open CString Yasl Vutil Readheaders SendMessage ResponseHeaders

/-- A field that is absent, or present without a value, contributes nothing. -/
def contents (v : Option Bytes) : Bytes := v.getD []

/-- Two texts with a blank between them, where there are two. -/
def joined (a b : Bytes) : Bytes :=
  if a = [] then b else if b = [] then a else a ++ bytes " " ++ b

def inReplyToField (h : Headers) : List Bytes :=
  if contents h.messageid = [] then [] else [bytes "In-Reply-To: " ++ contents h.messageid]

section

variable (single : Bytes → Prop) [DecidablePred single]

/-- The parent's References, otherwise its In-Reply-To if this is a single identifier. -/
def ancestors (h : Headers) : Bytes :=
  if contents h.references ≠ [] then contents h.references
  else if single (contents h.inreplyto) then contents h.inreplyto
  else []

def referencesField (h : Headers) : List Bytes :=
  if joined (ancestors single h) (contents h.messageid) = [] then []
  else [bytes "References: " ++ joined (ancestors single h) (contents h.messageid)]

/-- The response with the threading fields as they should be. -/
def threadedText (host : Host) (sender canonRcpt vmsg subject : Bytes) (h : Headers) : Bytes :=
  printLines ([messageIdLine host, bytes "From: " ++ cstr sender, bytes "To: " ++ cstr canonRcpt,
      subjectLine subject h] ++ inReplyToField h ++ referencesField single h ++ fixedLines) ++
    [lf] ++ cstr vmsg ++ [lf]

/-- Nothing is to be put in front of a missing Message-ID, and an In-Reply-To that
is needed is a single identifier. -/
structure Threadable (h : Headers) : Prop where
  of_references : contents h.references ≠ [] → contents h.messageid ≠ []
  of_inreplyto : contents h.references = [] → contents h.inreplyto ≠ [] →
    single (contents h.inreplyto) ∧ contents h.messageid ≠ []

theorem yasllen_pos_iff {v : Option Bytes} : yasllen v > 0 ↔ contents v ≠ [] :=
  List.length_pos_iff

theorem printStr_eq {v : Option Bytes} (hnul : ∀ s ∈ v, 0 ∉ s) (h : contents v ≠ []) :
    printStr v = contents v := by
  cases v with
  | none => exact absurd rfl h
  | some s => exact cstr_eq_self (hnul s rfl)

theorem inReplyToLines_eq {h : Headers} (hnul : ∀ s ∈ h.messageid, 0 ∉ s) :
    inReplyToLines h = inReplyToField h := by
  unfold inReplyToLines inReplyToField
  by_cases hid : contents h.messageid = []
  · rw [if_neg (not_not.mpr hid ∘ yasllen_pos_iff.mp), if_pos hid]
  · rw [if_pos (yasllen_pos_iff.mpr hid), if_neg hid, printStr_eq hnul hid]

/-- A line with two texts is longer than one with a shorter text. -/
theorem printLines_ne_of_length {a b value : Bytes} (h : value.length ≤ a.length + b.length) :
    printLines [bytes "References: " ++ a ++ bytes " " ++ b] ≠
      printLines (if value = [] then [] else [bytes "References: " ++ value]) := by
  intro heq
  have hlen := congrArg List.length heq
  by_cases hvalue : value = []
  · simp [hvalue, printLines] at hlen
  · simp [hvalue, printLines, bytes] at hlen
    omega

theorem joined_nil_right (a : Bytes) : joined a [] = a := by
  by_cases ha : a = [] <;> simp [joined, ha]

/-- The printed field is the one that is due exactly for these parents. -/
theorem referencesLines_iff {h : Headers} (hnul : ∀ k, ∀ v ∈ h.get k, 0 ∉ v) :
    printLines (referencesLines h) = printLines (referencesField single h) ↔
      Threadable single h := by
  have hid : ∀ v ∈ h.messageid, 0 ∉ v := hnul .messageid
  have hrefs : ∀ v ∈ h.references, 0 ∉ v := hnul .references
  have hreply : ∀ v ∈ h.inreplyto, 0 ∉ v := hnul .inreplyto
  unfold referencesLines referencesField
  simp only [yasllen_pos_iff]
  by_cases h1 : contents h.references = []
  · by_cases h2 : contents h.inreplyto = []
    · have hanc : ancestors single h = [] := by simp [ancestors, h1, h2]
      rw [if_neg (not_not.mpr h1), if_neg (not_not.mpr h2), hanc]
      refine iff_of_true ?_ ⟨fun e => absurd h1 e, fun _ e => absurd h2 e⟩
      by_cases h3 : contents h.messageid = []
      · simp [joined, h3]
      · simp [joined, h3, printStr_eq hid h3]
    · rw [if_neg (not_not.mpr h1), if_pos h2, printStr_eq hreply h2]
      by_cases h3 : contents h.messageid = []
      · rw [h3, joined_nil_right]
        refine iff_of_false (printLines_ne_of_length ?_) fun e => (e.of_inreplyto h1 h2).2 h3
        by_cases hs : single (contents h.inreplyto)
        · simp [ancestors, h1, hs]
        · simp [ancestors, h1, hs]
      · rw [printStr_eq hid h3]
        by_cases hs : single (contents h.inreplyto)
        · refine iff_of_true ?_ ⟨fun e => absurd h1 e, fun _ _ => ⟨hs, h3⟩⟩
          simp [ancestors, joined, h1, hs, h2, h3]
        · refine iff_of_false (printLines_ne_of_length ?_) fun e => hs (e.of_inreplyto h1 h2).1
          simp [ancestors, joined, h1, hs]
  · rw [if_pos h1, printStr_eq hrefs h1]
    have hanc : ancestors single h = contents h.references := by simp [ancestors, h1]
    rw [hanc]
    by_cases h3 : contents h.messageid = []
    · rw [h3, joined_nil_right]
      exact iff_of_false (printLines_ne_of_length (Nat.le_add_right _ _))
        fun e => e.of_references h1 h3
    · rw [printStr_eq hid h3]
      refine iff_of_true ?_ ⟨fun _ => h3, fun e => absurd e h1⟩
      simp [joined, h1, h3]

theorem responseText_eq_iff (host : Host) (sender canonRcpt vmsg subject : Bytes) {h : Headers}
    (hnul : ∀ k, ∀ v ∈ h.get k, 0 ∉ v) :
    responseText host sender canonRcpt vmsg subject h =
        threadedText single host sender canonRcpt vmsg subject h ↔
      Threadable single h := by
  have hreply : inReplyToLines h = inReplyToField h := inReplyToLines_eq (hnul .messageid)
  rw [← referencesLines_iff single hnul, responseText, threadedText, threadLines, hreply]
  simp only [printLines, List.flatMap_append, List.append_assoc, List.append_right_inj]
  exact List.append_left_inj _

/-- A response carries the threading fields that are due, and no others, if and only
if the parent has a Message-ID wherever something goes in front of it, and an
In-Reply-To that stands in for References is a single identifier. -/
theorem threading_iff {config : Config} {calls : PexecCalls} {host : Host}
    {sender rcpt canonRcpt vmsg subject text : Bytes} {h : Headers} {sending : Sending}
    (hnul : ∀ k, ∀ v ∈ h.get k, 0 ∉ v)
    (hsend : sendMessage config calls host sender rcpt canonRcpt vmsg subject h = some sending)
    (htext : text ∈ sending.printed) :
    text = threadedText single host sender canonRcpt vmsg subject h ↔ Threadable single h := by
  rw [sendMessage_printed hsend htext]
  exact responseText_eq_iff single host sender canonRcpt vmsg subject hnul

end

/-- The fields of a reply to a reply, and those of a parent without a Message-ID. -/
def replied : Headers := ⟨none, some (bytes "<2@b>"), some (bytes "<1@b>"), none, true⟩

def nameless : Headers := ⟨none, none, some (bytes "<1@b>"), none, true⟩

def mx : Host := ⟨bytes "mx", 1, 2⟩

/-- One opening bracket. -/
def oneIdentifier (v : Bytes) : Prop := v.count 60 = 1

instance : DecidablePred oneIdentifier := fun v => inferInstanceAs (Decidable (v.count 60 = 1))

theorem threading_replied :
    responseText mx (bytes "bob@umich.edu") (bytes "a@b") (bytes "Away.") (bytes "Out") replied =
        threadedText oneIdentifier mx (bytes "bob@umich.edu") (bytes "a@b") (bytes "Away.")
          (bytes "Out") replied ↔
      Threadable oneIdentifier replied := by
  have hnul : ∀ k, ∀ v ∈ replied.get k, 0 ∉ v := by
    intro k
    cases k <;> decide
  have hprinted : (sendMessage umichConfig allCalls mx (bytes "bob@umich.edu") (bytes "a@b")
      (bytes "a@b") (bytes "Away.") (bytes "Out") replied).bind Sending.printed =
      some (responseText mx (bytes "bob@umich.edu") (bytes "a@b") (bytes "Away.") (bytes "Out")
        replied) := by
    decide +kernel
  obtain ⟨sending, hsend, htext⟩ := Option.bind_eq_some_iff.mp hprinted
  exact threading_iff oneIdentifier hnul hsend htext

/-- References of a parent without a Message-ID are followed by a null pointer. -/
theorem threading_nameless : ¬ ∀ (config : Config) (calls : PexecCalls) (host : Host)
    (stack stdin sender rcpt canonRcpt vmsg subject text : Bytes)
    (names : List Bytes) (h : Headers) (sending : Sending),
    readheaders stack names stdin = some h →
      sendMessage config calls host sender rcpt canonRcpt vmsg subject h = some sending →
      text ∈ sending.printed →
      text = threadedText oneIdentifier host sender canonRcpt vmsg subject h := by
  intro hall
  have hread : readheaders [] [bytes "bob"] (bytes "To: bob\nReferences: <1@b>\n\n") =
      some nameless := by
    decide +kernel
  have hprinted : (sendMessage umichConfig allCalls mx (bytes "bob@umich.edu") (bytes "a@b")
      (bytes "a@b") (bytes "Away.") (bytes "Out") nameless).bind Sending.printed =
      some (responseText mx (bytes "bob@umich.edu") (bytes "a@b") (bytes "Away.") (bytes "Out")
        nameless) := by
    decide +kernel
  obtain ⟨sending, hsend, htext⟩ := Option.bind_eq_some_iff.mp hprinted
  have hsame := hall _ _ _ _ _ _ _ _ _ _ _ _ _ _ hread hsend htext
  have hthreadable := (responseText_eq_iff oneIdentifier mx _ _ _ _
    (nul_notMem_readheaders hread)).mp hsame
  exact hthreadable.of_references (by decide) rfl

end Simvacation.Threading
