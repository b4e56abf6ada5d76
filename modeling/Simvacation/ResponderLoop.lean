import Simvacation.ResponseHeaders
import Simvacation.Messages

/-!
A response that is fed to another responder. Its header lines may be longer
than the buffer, so the reader sees them in pieces; the Auto-Submitted line is
reached unless an earlier piece ends the loop. A line whose length fills its
last read leaves a piece of its line feed alone, which reads as the empty line.
-/

namespace Simvacation.ResponderLoop

open CString Yasl Vutil Readheaders HeaderLines SendMessage ResponseHeaders

/-- The reads in which a line reaches the header reader. -/
def pieces (line : Bytes) : List Bytes := fgetsReads MAXLINE (line ++ [lf])

theorem fgetsReads_printLines {lines : List Bytes} (h : ∀ line ∈ lines, lf ∉ line) (rest : Bytes) :
    fgetsReads MAXLINE (printLines lines ++ rest) =
      lines.flatMap pieces ++ fgetsReads MAXLINE rest := by
  induction lines with
  | nil => rfl
  | cons line lines ih =>
    have hsplit : printLines (line :: lines) ++ rest =
        line ++ lf :: (printLines lines ++ rest) := by
      simp [printLines]
    rw [hsplit, fgetsReads_append (by decide) (h line List.mem_cons_self),
      ih fun l hl => h l (List.mem_cons_of_mem _ hl), List.flatMap_cons, List.append_assoc]
    rfl

/-- A text that ends in a line feed is read independently of the buffer. -/
theorem clean_fgetsReads {s : Bytes} (h : s.getLast? = some lf) :
    ∀ line ∈ fgetsReads MAXLINE s, Clean line := by
  intro line hline
  rcases fgetsReads_of_lf (by decide) (Or.inr h) line hline with hlast | hlen
  · obtain ⟨text, rfl⟩ := List.getLast?_eq_some_iff.mp hlast
    exact clean_of_lf text
  · intro
    rw [hlen]
    decide

theorem readheaders_eq_none_iff_reads {stack s : Bytes} (names : List Bytes)
    (h : s.getLast? = some lf) :
    readheaders stack names s = none ↔ Suppressed (fgetsReads MAXLINE s) := by
  rw [readheaders, Option.map_eq_none_iff, headerLoop_eq_lineLoop (clean_fgetsReads h),
    lineLoop_eq_none_iff]

def autoReplied : Bytes := bytes "Auto-Submitted: auto-replied"

theorem suppresses_autoReplied : Suppresses (autoReplied ++ [lf]) :=
  Or.inl ⟨by decide, by decide, by decide⟩

theorem not_ends_autoReplied : ¬ Ends (autoReplied ++ [lf]) := by decide

section

variable {config : Config} {calls : PexecCalls} {host : Host}
  {rcpt sender canon vmsg subject : Bytes} {name : Option Bytes} {h : Headers}

/-- The reads of a response: its lines in pieces, and the Auto-Submitted line whole. -/
theorem fgetsReads_responseText {sender canonRcpt : Bytes}
    (hlines : ∀ line ∈ threadLines host sender canonRcpt subject h, lf ∉ line) :
    ∃ rest, fgetsReads MAXLINE (responseText host sender canonRcpt vmsg subject h) =
      (threadLines host sender canonRcpt subject h).flatMap pieces ++
        (autoReplied ++ [lf]) :: rest := by
  have htext : responseText host sender canonRcpt vmsg subject h =
      printLines (threadLines host sender canonRcpt subject h) ++
        (autoReplied ++ lf :: (printLines fixedLines.tail ++ [lf] ++ cstr vmsg ++ [lf])) := by
    simp [responseText, printLines, fixedLines, autoReplied]
  refine ⟨fgetsReads MAXLINE (printLines fixedLines.tail ++ [lf] ++ cstr vmsg ++ [lf]), ?_⟩
  have hauto : lf ∉ autoReplied := by decide
  rw [htext, fgetsReads_printLines hlines, fgetsReads_line hauto (by decide)]

/-- A response is suppressed by the next responder exactly when every piece of
its lines at which the loop would end has a suppressing piece before it. -/
theorem response_suppressed_iff {stack stdin : Bytes} {names : List Bytes} {sending : Sending}
    {text : Bytes} (hread : readheaders stack names stdin = some h)
    (hvalues : SingleLineValues config host rcpt sender subject name)
    (hcheck : checkFrom sender = some canon)
    (hsend : sendMessage config calls host (prettySender config rcpt name) sender canon vmsg
      subject h = some sending) (htext : text ∈ sending.printed)
    (stack' : Bytes) (names' : List Bytes) :
    readheaders stack' names' text = none ↔
      ∀ pre piece post,
        (threadLines host (prettySender config rcpt name) canon subject h).flatMap pieces =
          pre ++ piece :: post → Ends piece → ∃ k ∈ pre, Suppresses k := by
  have hlines := lf_notMem_threadLines hvalues (singleLines_readheaders hread) hcheck
  obtain ⟨rest, hrest⟩ := @fgetsReads_responseText host vmsg subject h _ _ hlines
  have hlast : text.getLast? = some lf := by
    rw [sendMessage_printed hsend htext, responseText, List.getLast?_concat]
  rw [readheaders_eq_none_iff_reads names' hlast, sendMessage_printed hsend htext, hrest]
  exact suppressed_append_cons suppresses_autoReplied not_ends_autoReplied

theorem pieces_of_short {line : Bytes} (hlf : lf ∉ line) (hlen : line.length ≤ 998) :
    pieces line = [line ++ [lf]] := by
  have hshort : line.length + 1 < MAXLINE := by
    simp only [MAXLINE]
    omega
  exact fgetsReads_line hlf hshort

theorem head_threadLines {sender canonRcpt : Bytes} :
    ∀ line ∈ threadLines host sender canonRcpt subject h,
      ∃ c s, line = c :: s ∧ c ∈ bytes "MFTSIR" := by
  intro line hline
  simp only [threadLines, List.mem_append, List.mem_cons, List.not_mem_nil, or_false] at hline
  rcases hline with ((rfl | rfl | rfl | rfl) | hline) | hline
  · exact ⟨77, _, rfl, by decide⟩
  · exact ⟨70, _, rfl, by decide⟩
  · exact ⟨84, _, rfl, by decide⟩
  · exact ⟨83, _, rfl, by decide⟩
  · unfold inReplyToLines at hline
    split at hline
    · rw [List.mem_singleton.mp hline]
      exact ⟨73, _, rfl, by decide⟩
    · exact absurd hline List.not_mem_nil
  · unfold referencesLines at hline
    repeat' split at hline
    · rw [List.mem_singleton.mp hline]
      exact ⟨82, _, rfl, by decide⟩
    · rw [List.mem_singleton.mp hline]
      exact ⟨82, _, rfl, by decide⟩
    · rw [List.mem_singleton.mp hline]
      exact ⟨82, _, rfl, by decide⟩
    · exact absurd hline List.not_mem_nil

/-- A line with one of these first letters does not end the loop. -/
theorem not_ends_of_head {c : UInt8} {s : Bytes} (hc : c ∈ bytes "MFTSIR") :
    ¬ Ends (c :: s) := by
  have hletters : ∀ c ∈ bytes "MFTSIR", tolower c ≠ 97 ∧ tolower c ≠ 112 ∧ c ≠ lf := by
    decide +kernel
  obtain ⟨hauto, hprec, hlf⟩ := hletters c hc
  intro hcases
  rcases hcases with h | ⟨h, -⟩ | ⟨h, -⟩
  · exact hlf h
  · exact hauto (List.cons_prefix_cons.mp (autoSubmitted_iff.mp h)).1.symm
  · exact hprec (List.cons_prefix_cons.mp (precedence_iff.mp h)).1.symm

theorem not_ends_threadLines {sender canonRcpt : Bytes} :
    ∀ line ∈ threadLines host sender canonRcpt subject h, ¬ Ends (line ++ [lf]) := by
  intro line hline
  obtain ⟨c, s, rfl, hc⟩ := head_threadLines line hline
  exact not_ends_of_head hc

/-- Responses within the line limit are never answered. -/
theorem response_suppressed_of_short {stack stdin : Bytes} {names : List Bytes} {sending : Sending}
    {text : Bytes} (hread : readheaders stack names stdin = some h)
    (hvalues : SingleLineValues config host rcpt sender subject name)
    (hcheck : checkFrom sender = some canon)
    (hsend : sendMessage config calls host (prettySender config rcpt name) sender canon vmsg
      subject h = some sending) (htext : text ∈ sending.printed)
    (hshort : ∀ line ∈ threadLines host (prettySender config rcpt name) canon subject h,
      line.length ≤ 998) (stack' : Bytes) (names' : List Bytes) :
    readheaders stack' names' text = none := by
  have hlines := lf_notMem_threadLines hvalues (singleLines_readheaders hread) hcheck
  obtain ⟨rest, hrest⟩ := @fgetsReads_responseText host vmsg subject h _ _ hlines
  have hlast : text.getLast? = some lf := by
    rw [sendMessage_printed hsend htext, responseText, List.getLast?_concat]
  rw [readheaders_eq_none_iff_reads names' hlast, sendMessage_printed hsend htext, hrest]
  apply (suppressed_append_cons suppresses_autoReplied not_ends_autoReplied).mpr
  intro pre piece post heq hends
  have hpiece : piece ∈ (threadLines host (prettySender config rcpt name) canon subject h).flatMap
      pieces := by
    rw [heq]
    simp
  obtain ⟨line, hline, hmem⟩ := List.mem_flatMap.mp hpiece
  rw [pieces_of_short (hlines line hline) (hshort line hline), List.mem_singleton] at hmem
  exact absurd (hmem ▸ hends) (not_ends_threadLines line hline)

end

def longSubject : Bytes := List.replicate 978 120

/-- A subject for which the Subject line of the response takes 999 bytes. -/
def longMessage : Bytes := bytes "To: bob\nSubject: " ++ longSubject ++ bytes "\n\n"

def longHeaders : Headers := ⟨some longSubject, none, none, none, true⟩

theorem readheaders_longMessage :
    readheaders [] [bytes "bob"] longMessage = some longHeaders := by decide +kernel

theorem singleLineValues_bob : SingleLineValues umichConfig ⟨bytes "mx", 1, 2⟩ (bytes "bob")
    (bytes "a@b") (bytes "Auto:") none :=
  ⟨by decide, by decide, by decide, by decide, by decide, by decide⟩

/-- The line feed of the long Subject line is read alone, as if the header section ended there. -/
theorem long_response_answered : ¬ ∀ (stack stdin : Bytes) (names : List Bytes) (config : Config)
    (calls : PexecCalls) (host : Host) (rcpt sender canon vmsg subject : Bytes)
    (name : Option Bytes) (h : Headers) (sending : Sending) (text : Bytes),
    readheaders stack names stdin = some h → h.rcptMatch = true →
    SingleLineValues config host rcpt sender subject name → checkFrom sender = some canon →
    sendMessage config calls host (prettySender config rcpt name) sender canon vmsg subject h =
      some sending → text ∈ sending.printed →
    ∀ (stack' : Bytes) (names' : List Bytes), readheaders stack' names' text = none := by
  intro hall
  have hnull := hall [] longMessage [bytes "bob"] umichConfig allCalls ⟨bytes "mx", 1, 2⟩
    (bytes "bob") (bytes "a@b") (bytes "a@b") (bytes "Away.") (bytes "Auto:") none longHeaders _ _
    readheaders_longMessage rfl singleLineValues_bob (by decide +kernel)
    (sendMessage_bob _ longHeaders) rfl [] []
  exact absurd hnull (by decide +kernel)

/-- A message in a thread, with fields that are captured and one that is not. -/
def threadMessage : Bytes := bytes "Received: from mx.b\nTo: Bob <bob@umich.edu>\nSubject: Lunch\n"
  ++ bytes "Message-ID: <2@b>\nReferences: <0@b>\n <1@b>\n\nAt noon?\n"

def threadHeaders : Headers :=
  ⟨some (bytes "Lunch"), some (bytes "<2@b>"), some (bytes "<0@b> <1@b>"), none, true⟩

/-- The response to it is read and suppressed. -/
theorem short_response_suppressed : readheaders (bytes "no") [bytes "a", bytes "a@b"]
    (responseText ⟨bytes "mx", 1, 2⟩ (bytes "bob@umich.edu") (bytes "a@b") (bytes "Away.")
      (bytes "Auto:") threadHeaders) = none := by
  have hread : readheaders [] [bytes "bob"] threadMessage = some threadHeaders := by
    decide +kernel
  apply (response_suppressed_iff hread singleLineValues_bob (by decide +kernel)
    (sendMessage_bob _ _) rfl (bytes "no") [bytes "a", bytes "a@b"]).mpr
  intro pre piece post heq hends
  have hpiece : ∀ k ∈ (threadLines ⟨bytes "mx", 1, 2⟩ (prettySender umichConfig (bytes "bob") none)
      (bytes "a@b") (bytes "Auto:") threadHeaders).flatMap pieces, ¬ Ends k := by decide +kernel
  rw [heq] at hpiece
  exact absurd hends (hpiece piece (by simp))

end Simvacation.ResponderLoop
