import Simvacation.SendMessage

/-!
The header section of a response. A read holds a line feed at its end at most,
and `append_header` trims it, so the captured fields are single lines whatever
the message is; the other values are single lines by assumption. The printed
text is then read back line by line up to the first empty line.
-/

namespace Simvacation.ResponseHeaders

open CString Numerals Yasl Vutil Readheaders SendMessage

theorem get_set (h : Headers) (k j : Capture) (v : Option Bytes) :
    (h.set k v).get j = if j = k then v else h.get j := by
  cases k <;> cases j <;> rfl

theorem dispatch_h {buf : Bytes} {r r' : Reader} (h : dispatch buf r = .next r') :
    r'.h = r.h := by
  unfold dispatch at h
  simp only at h
  repeat' split at h
  all_goals first
    | contradiction
    | (cases h; rfl)

/-- Trimming takes away a line feed at the end. -/
theorem lf_notMem_yasltrim {s : Bytes} (h : lf ∉ s.dropLast) : lf ∉ yasltrim s [lf] := by
  intro hmem
  have hne : yasltrim s [lf] ≠ [] := List.ne_nil_of_mem hmem
  have hlast := List.rdropWhile_last_not _ _ hne
  rw [← List.dropLast_append_getLast hne, List.mem_append, List.mem_singleton] at hmem
  rcases hmem with hinit | heq
  · have hinfix : yasltrim s [lf] <:+: s :=
      (List.rdropWhile_prefix _ _).isInfix.trans (List.dropWhile_suffix _).isInfix
    exact h (mem_dropLast_of_part hinfix hinit)
  · apply hlast
    have hget : (yasltrim s [lf]).getLast hne = lf := heq.symm
    unfold yasltrim at hget
    rw [hget]
    decide

/-- What stands behind the colon is part of the string in the buffer. -/
theorem skipspace_infix {buf : Bytes} {i : ℕ} (h : strchr (cstr buf) colon = some i) :
    skipspace buf i <:+: cstr buf := by
  obtain ⟨pre, post, heq, rfl, -⟩ := strchr_eq_some_iff.mp h
  have hlen : pre.length + 1 ≤ (cstr buf).length := by
    rw [heq, List.length_append, List.length_cons]
    omega
  rw [skipspace, cstr_drop hlen]
  exact (List.dropWhile_suffix _).isInfix.trans (List.drop_suffix _ _).isInfix

theorem lf_notMem_appendHeader {str : Option Bytes} {buf v : Bytes} {stripfield : Bool}
    (hstr : ∀ s ∈ str, lf ∉ s) (hbuf : lf ∉ (cstr buf).dropLast)
    (hv : v ∈ appendHeader str buf stripfield) : lf ∉ v := by
  unfold appendHeader at hv
  obtain ⟨value, hvalue, rfl⟩ := Option.map_eq_some_iff.mp hv
  have hinfix : value <:+: cstr buf := by
    cases stripfield with
    | false =>
      cases hvalue
      exact List.infix_rfl
    | true =>
      obtain ⟨i, hi, rfl⟩ := Option.map_eq_some_iff.mp hvalue
      exact skipspace_infix hi
  have hprefix : cstr value <:+: cstr buf := (prefix_of_cstr value).isInfix.trans hinfix
  have hstr' : lf ∉ str.getD [] := by
    cases str with
    | none => exact List.not_mem_nil
    | some s => exact hstr s rfl
  apply lf_notMem_yasltrim
  unfold yaslcat
  by_cases hne : cstr value = []
  · rw [hne, List.append_nil]
    exact fun h => hstr' (List.mem_of_mem_dropLast h)
  · rw [List.dropLast_append_of_ne_nil hne, List.mem_append, not_or]
    exact ⟨hstr', fun h => hbuf (mem_dropLast_of_part hprefix h)⟩

/-- What holds of the captured values, and stays true when a line is appended to one
of them, holds of them at the end of the loop. -/
theorem values_headerLoop {P : Bytes → Prop} {reads : List Bytes}
    (happend : ∀ line ∈ reads, ∀ buf str stripfield, (∀ s ∈ str, P s) →
      ∀ v ∈ appendHeader str (fgetsStore buf line) stripfield, P v)
    {buf : Bytes} {r r' : Reader} (h : ∀ k, ∀ v ∈ r.h.get k, P v)
    (hloop : headerLoop buf r reads = some r') : ∀ k, ∀ v ∈ r'.h.get k, P v := by
  induction reads generalizing buf r with
  | nil =>
    cases hloop
    exact h
  | cons line reads ih =>
    have ih' := @ih (fun l hl => happend l (List.mem_cons_of_mem _ hl)) (fgetsStore buf line)
    have hstore : ∀ r : Reader, (∀ k, ∀ v ∈ r.h.get k, P v) →
        ∀ k, ∀ v ∈ (storeLine (fgetsStore buf line) r).h.get k, P v := by
      intro r hr
      unfold storeLine
      split
      · exact hr
      · intro j v hv
        rw [get_set] at hv
        split at hv
        · exact happend line List.mem_cons_self buf _ _ (hr _) v hv
        · exact hr j v hv
      · exact hr
    unfold headerLoop at hloop
    simp only at hloop
    split at hloop
    · cases hloop
      exact h
    · cases hd : dispatch (fgetsStore buf line) r with
      | stop =>
        rw [hd] at hloop
        cases hloop
        exact h
      | suppress =>
        rw [hd] at hloop
        cases hloop
      | next r'' =>
        rw [hd] at hloop
        have hnext : ∀ k, ∀ v ∈ r''.h.get k, P v := by rwa [dispatch_h hd]
        exact ih' (hstore r'' hnext) hloop

theorem values_readheaders {P : Bytes → Prop} {stack stdin : Bytes} {names : List Bytes}
    {h : Headers} (happend : ∀ line ∈ fgetsReads MAXLINE stdin, ∀ buf str stripfield,
      (∀ s ∈ str, P s) → ∀ v ∈ appendHeader str (fgetsStore buf line) stripfield, P v)
    (hread : readheaders stack names stdin = some h) : ∀ k, ∀ v ∈ h.get k, P v := by
  obtain ⟨r, hloop, rfl⟩ := Option.map_eq_some_iff.mp hread
  have hinit : ∀ k, ∀ v ∈ Reader.init.h.get k, P v := by
    intro k v hv
    cases k <;> cases hv
  have hr := values_headerLoop happend hinit hloop
  intro k v hv
  cases k with
  | messageid => exact hr .messageid v hv
  | references => exact hr .references v hv
  | inreplyto => exact hr .inreplyto v hv
  | subject => exact hr .subject v hv

/-- No captured field contains a line feed. -/
def SingleLines (h : Headers) : Prop := ∀ k, ∀ v ∈ h.get k, lf ∉ v

/-- Whatever the message is, each captured field is a single line. -/
theorem singleLines_readheaders {stack stdin : Bytes} {names : List Bytes} {h : Headers}
    (hread : readheaders stack names stdin = some h) : SingleLines h := by
  refine values_readheaders ?_ hread
  intro line hline buf str stripfield hstr v hv
  have hbuf : lf ∉ (cstr (fgetsStore buf line)).dropLast := by
    rw [cstr_fgetsStore]
    intro hmem
    exact lf_notMem_dropLast_fgetsLoop _ _ _ line hline
      (mem_dropLast_of_part (prefix_of_cstr line).isInfix hmem)
  exact lf_notMem_appendHeader hstr hbuf hv

/-- Only C strings are appended, and trimming takes nothing else in. -/
theorem nul_notMem_appendHeader {str : Option Bytes} {buf v : Bytes} {stripfield : Bool}
    (hstr : ∀ s ∈ str, 0 ∉ s) (hv : v ∈ appendHeader str buf stripfield) : 0 ∉ v := by
  unfold appendHeader at hv
  obtain ⟨value, -, rfl⟩ := Option.map_eq_some_iff.mp hv
  have hold : 0 ∉ str.getD [] := by
    cases str with
    | none => exact List.not_mem_nil
    | some s => exact hstr s rfl
  intro hmem
  have htrim := (List.rdropWhile_prefix _ _).subset hmem
  have hcat := (List.dropWhile_suffix _).subset htrim
  rcases List.mem_append.mp hcat with h | h
  · exact hold h
  · exact nul_notMem_cstr value h

theorem nul_notMem_readheaders {stack stdin : Bytes} {names : List Bytes} {h : Headers}
    (hread : readheaders stack names stdin = some h) : ∀ k, ∀ v ∈ h.get k, 0 ∉ v :=
  values_readheaders (fun _ _ _ _ _ hstr _ hv => nul_notMem_appendHeader hstr hv) hread

theorem lf_notMem_checkFrom {sender canon : Bytes} (h : lf ∉ sender)
    (hcheck : checkFrom sender = some canon) : lf ∉ canon := by
  unfold checkFrom at hcheck
  simp only at hcheck
  split at hcheck
  · cases hcheck
  · cases hcheck
    exact notMem_canonFrom (by decide) (by decide) h

theorem lf_notMem_cstr {s : Bytes} (h : lf ∉ s) : lf ∉ cstr s :=
  fun e => h ((prefix_of_cstr s).subset e)

theorem lf_notMem_printStr {s : Option Bytes} (h : ∀ t ∈ s, lf ∉ t) : lf ∉ printStr s := by
  cases s with
  | none => decide
  | some t => exact lf_notMem_cstr (h t rfl)

theorem lf_notMem_prettySender {config : Config} {rcpt : Bytes} {name : Option Bytes}
    (hdomain : ∀ d ∈ config (bytes "core.domain"), lf ∉ d) (hrcpt : lf ∉ rcpt)
    (hname : ∀ n ∈ name, lf ∉ n) : lf ∉ prettySender config rcpt name := by
  have hd := lf_notMem_printStr hdomain
  have hr := lf_notMem_cstr hrcpt
  have haddress : lf ∉ cstr rcpt ++ bytes "@" ++ printStr (config (bytes "core.domain")) := by
    simp only [List.mem_append, not_or]
    exact ⟨⟨hr, by decide⟩, hd⟩
  unfold prettySender
  simp only
  split
  · next n =>
    have hn := lf_notMem_cstr (hname n rfl)
    split
    · simp only [List.mem_append, not_or]
      exact ⟨⟨⟨⟨⟨⟨by decide, hn⟩, by decide⟩, hr⟩, by decide⟩, hd⟩, by decide⟩
    · exact haddress
  · exact haddress

/-- The lines of a text up to its first empty line, and what follows that line. -/
def headerSection (current : Bytes) : Bytes → List Bytes × Bytes
  | [] => (if current = [] then [] else [current], [])
  | c :: s =>
    if c ≠ lf then headerSection (current ++ [c]) s
    else if current = [] then ([], s)
    else (current :: (headerSection [] s).1, (headerSection [] s).2)

theorem headerSection_line {line current rest : Bytes} (hlf : lf ∉ line)
    (hne : current ++ line ≠ []) : headerSection current (line ++ lf :: rest) =
      ((current ++ line) :: (headerSection [] rest).1, (headerSection [] rest).2) := by
  induction line generalizing current with
  | nil =>
    rw [List.append_nil] at hne
    simp [headerSection, hne]
  | cons c line ih =>
    have hc : c ≠ lf := fun e => hlf (by simp [e])
    have hline : lf ∉ line := fun e => hlf (by simp [e])
    rw [List.cons_append, headerSection, if_pos hc,
      @ih (current ++ [c]) hline (by simp), List.append_assoc]
    rfl

/-- Printed lines are read back as they are. -/
theorem headerSection_printLines {lines : List Bytes} (h : ∀ line ∈ lines, lf ∉ line ∧ line ≠ [])
    (body : Bytes) : headerSection [] (printLines lines ++ [lf] ++ body) = (lines, body) := by
  induction lines with
  | nil => simp [printLines, headerSection]
  | cons line lines ih =>
    obtain ⟨hlf, hne⟩ := h line List.mem_cons_self
    have hsplit : printLines (line :: lines) ++ [lf] ++ body =
        line ++ lf :: (printLines lines ++ [lf] ++ body) := by
      simp [printLines]
    rw [hsplit, headerSection_line hlf (by simpa using hne),
      ih fun l hl => h l (List.mem_cons_of_mem _ hl)]
    rfl

/-- The name in front of the colon. -/
def fieldName (line : Bytes) : Bytes := line.takeWhile (· ≠ colon)

/-- A response is printed only as `responseText`. -/
theorem sendMessage_printed {config : Config} {calls : PexecCalls} {host : Host}
    {sender rcpt canonRcpt vmsg subject text : Bytes} {h : Headers} {sending : Sending}
    (hsend : sendMessage config calls host sender rcpt canonRcpt vmsg subject h = some sending)
    (htext : text ∈ sending.printed) :
    text = responseText host sender canonRcpt vmsg subject h := by
  unfold sendMessage at hsend
  simp only at hsend
  repeat' split at hsend
  all_goals cases hsend
  all_goals cases htext
  rfl

/-- The values in a response that do not come from the message are single lines. -/
structure SingleLineValues (config : Config) (host : Host) (rcpt sender subject : Bytes)
    (name : Option Bytes) : Prop where
  domain : ∀ d ∈ config (bytes "core.domain"), lf ∉ d
  hostname : lf ∉ host.hostname
  rcpt : lf ∉ rcpt
  sender : lf ∉ sender
  subject : lf ∉ subject
  name : ∀ n ∈ name, lf ∉ n

section

variable {config : Config} {calls : PexecCalls} {host : Host}
  {rcpt sender canon vmsg subject : Bytes} {name : Option Bytes} {h : Headers}

theorem lf_notMem_messageIdLine (hhost : lf ∉ host.hostname) : lf ∉ messageIdLine host := by
  have hhex : ∀ n, lf ∉ printHex n := fun n => notMem_printHex (by decide)
  simp only [messageIdLine, List.mem_append, not_or]
  exact ⟨⟨⟨⟨⟨⟨by decide, hhex _⟩, by decide⟩, hhex _⟩, by decide⟩, lf_notMem_cstr hhost⟩, by decide⟩

theorem lf_notMem_subjectLine (hsubject : lf ∉ subject) (hh : SingleLines h) :
    lf ∉ subjectLine subject h := by
  have hprint : lf ∉ printStr h.subject := lf_notMem_printStr (hh .subject)
  unfold subjectLine
  rw [List.mem_append, List.mem_append, not_or, not_or]
  refine ⟨⟨by decide, lf_notMem_cstr hsubject⟩, ?_⟩
  repeat' split
  · simp only [List.mem_append, not_or]
    exact ⟨⟨by decide, hprint⟩, by decide⟩
  · simp only [List.mem_append, not_or]
    exact ⟨⟨by decide, hprint⟩, by decide⟩
  · exact List.not_mem_nil

theorem lf_notMem_inReplyToLines (hh : SingleLines h) : ∀ line ∈ inReplyToLines h, lf ∉ line := by
  have hprint : lf ∉ printStr h.messageid := lf_notMem_printStr (hh .messageid)
  intro line hline
  unfold inReplyToLines at hline
  split at hline
  · rw [List.mem_singleton.mp hline, List.mem_append, not_or]
    exact ⟨by decide, hprint⟩
  · exact absurd hline List.not_mem_nil

theorem lf_notMem_referencesLines (hh : SingleLines h) :
    ∀ line ∈ referencesLines h, lf ∉ line := by
  have hid : lf ∉ printStr h.messageid := lf_notMem_printStr (hh .messageid)
  have hrefs : lf ∉ printStr h.references := lf_notMem_printStr (hh .references)
  have hreply : lf ∉ printStr h.inreplyto := lf_notMem_printStr (hh .inreplyto)
  intro line hline
  unfold referencesLines at hline
  repeat' split at hline
  · simp only [List.mem_singleton.mp hline, List.mem_append, not_or]
    exact ⟨⟨⟨by decide, hrefs⟩, by decide⟩, hid⟩
  · simp only [List.mem_singleton.mp hline, List.mem_append, not_or]
    exact ⟨⟨⟨by decide, hreply⟩, by decide⟩, hid⟩
  · simp only [List.mem_singleton.mp hline, List.mem_append, not_or]
    exact ⟨by decide, hid⟩
  · exact absurd hline List.not_mem_nil

/-- Every line printed in front of the Auto-Submitted line is a single line. -/
theorem lf_notMem_threadLines (hvalues : SingleLineValues config host rcpt sender subject name)
    (hh : SingleLines h) (hcheck : checkFrom sender = some canon) :
    ∀ line ∈ threadLines host (prettySender config rcpt name) canon subject h, lf ∉ line := by
  have hfrom := lf_notMem_prettySender hvalues.domain hvalues.rcpt hvalues.name
  have hto := lf_notMem_checkFrom hvalues.sender hcheck
  intro line hline
  simp only [threadLines, List.mem_append, List.mem_cons, List.not_mem_nil, or_false] at hline
  rcases hline with ((rfl | rfl | rfl | rfl) | hline) | hline
  · exact lf_notMem_messageIdLine hvalues.hostname
  · rw [List.mem_append, not_or]
    exact ⟨by decide, lf_notMem_cstr hfrom⟩
  · rw [List.mem_append, not_or]
    exact ⟨by decide, lf_notMem_cstr hto⟩
  · exact lf_notMem_subjectLine hvalues.subject hh
  · exact lf_notMem_inReplyToLines hh line hline
  · exact lf_notMem_referencesLines hh line hline

theorem fieldName_inReplyToLines (h : Headers) : (inReplyToLines h).map fieldName = [] ∨
    (inReplyToLines h).map fieldName = [bytes "In-Reply-To"] := by
  unfold inReplyToLines
  split
  · exact Or.inr rfl
  · exact Or.inl rfl

theorem fieldName_referencesLines (h : Headers) : (referencesLines h).map fieldName = [] ∨
    (referencesLines h).map fieldName = [bytes "References"] := by
  unfold referencesLines
  repeat' split
  · exact Or.inr rfl
  · exact Or.inr rfl
  · exact Or.inr rfl
  · exact Or.inl rfl

theorem fieldName_lines (sender canonRcpt : Bytes) :
    (threadLines host sender canonRcpt subject h ++ fixedLines).map fieldName =
      [bytes "Message-ID", bytes "From", bytes "To", bytes "Subject"] ++
        (inReplyToLines h).map fieldName ++ (referencesLines h).map fieldName ++
        [bytes "Auto-Submitted", bytes "MIME-Version", bytes "Content-Type"] := by
  simp only [threadLines, List.map_append, List.append_assoc]
  rfl

theorem lines_ne_nil (sender canonRcpt : Bytes) :
    [] ∉ threadLines host sender canonRcpt subject h ++ fixedLines := by
  intro hmem
  have hname : ([] : Bytes) ∈
      (threadLines host sender canonRcpt subject h ++ fixedLines).map fieldName :=
    List.mem_map.mpr ⟨[], hmem, rfl⟩
  rw [fieldName_lines] at hname
  rcases fieldName_inReplyToLines h with hr | hr <;>
    rcases fieldName_referencesLines h with hs | hs <;>
      rw [hr, hs] at hname <;> exact absurd hname (by decide)

/-- The header section of a response holds the lines that are printed for it,
each once and in order, and nothing else of the message it answers. -/
theorem response_header_section {stack stdin : Bytes} {names : List Bytes} {sending : Sending}
    {text : Bytes} (hread : readheaders stack names stdin = some h)
    (hvalues : SingleLineValues config host rcpt sender subject name)
    (hcheck : checkFrom sender = some canon)
    (hsend : sendMessage config calls host (prettySender config rcpt name) sender canon vmsg
      subject h = some sending) (htext : text ∈ sending.printed) :
    ∃ lines inReplyTo references,
      headerSection [] text = (lines, cstr vmsg ++ [lf]) ∧
      lines.map fieldName =
        [bytes "Message-ID", bytes "From", bytes "To", bytes "Subject"] ++ inReplyTo ++
          references ++ [bytes "Auto-Submitted", bytes "MIME-Version", bytes "Content-Type"] ∧
      (inReplyTo = [] ∨ inReplyTo = [bytes "In-Reply-To"]) ∧
      (references = [] ∨ references = [bytes "References"]) := by
  have hthread := lf_notMem_threadLines hvalues (singleLines_readheaders hread) hcheck
  have hfixed : ∀ line ∈ fixedLines, lf ∉ line := by decide
  refine ⟨threadLines host (prettySender config rcpt name) canon subject h ++ fixedLines,
    (inReplyToLines h).map fieldName, (referencesLines h).map fieldName, ?_,
    fieldName_lines _ _, fieldName_inReplyToLines h, fieldName_referencesLines h⟩
  rw [sendMessage_printed hsend htext, responseText, List.append_assoc _ (cstr vmsg)]
  apply headerSection_printLines
  intro line hline
  constructor
  · rcases List.mem_append.mp hline with hl | hl
    · exact hthread line hl
    · exact hfixed line hl
  · rintro rfl
    exact lines_ne_nil _ _ hline

end

def umichConfig : Config := fun path =>
  if path = bytes "core.sendmail" then some (bytes "/usr/sbin/simsendmail -f \"\" $R")
  else if path = bytes "core.domain" then some (bytes "umich.edu")
  else none

/-- The response of bob to a@b, whatever the message was. -/
theorem sendMessage_bob (subject : Bytes) (h : Headers) :
    sendMessage umichConfig allCalls ⟨bytes "mx", 1, 2⟩
      (prettySender umichConfig (bytes "bob") none) (bytes "a@b") (bytes "a@b") (bytes "Away.")
      subject h =
    some ⟨.ok, some ⟨bytes "/usr/sbin/simsendmail", [bytes "simsendmail", bytes "-f", [],
      bytes "a@b"]⟩, some (responseText ⟨bytes "mx", 1, 2⟩ (bytes "bob@umich.edu") (bytes "a@b")
      (bytes "Away.") subject h)⟩ := by
  have hsender : prettySender umichConfig (bytes "bob") none = bytes "bob@umich.edu" := by decide
  have hconfig : umichConfig (bytes "core.sendmail") =
      some (bytes "/usr/sbin/simsendmail -f \"\" $R") := by decide
  have hsplit : (yaslsplitargs (cstr (bytes "/usr/sbin/simsendmail -f \"\" $R"))).getD [] =
      [bytes "/usr/sbin/simsendmail", bytes "-f", [], bytes "$R"] := by decide +kernel
  rw [hsender, sendMessage, hconfig]
  simp only [hsplit]
  rfl

/-- A folded subject and a message identifier come back as one line each. -/
theorem response_header_section_folded : ∃ lines inReplyTo references,
    headerSection [] (responseText ⟨bytes "mx", 1, 2⟩ (bytes "bob@umich.edu") (bytes "a@b")
      (bytes "Away.") (bytes "Out")
      ⟨some (bytes "big lunch"), some (bytes "<1@b>"), none, none, true⟩) =
      (lines, bytes "Away." ++ [lf]) ∧
    lines.map fieldName =
      [bytes "Message-ID", bytes "From", bytes "To", bytes "Subject"] ++ inReplyTo ++
        references ++ [bytes "Auto-Submitted", bytes "MIME-Version", bytes "Content-Type"] ∧
    (inReplyTo = [] ∨ inReplyTo = [bytes "In-Reply-To"]) ∧
    (references = [] ∨ references = [bytes "References"]) := by
  have hread : readheaders [] [bytes "bob"]
      (bytes "To: bob\nSubject: big\n lunch\nMessage-ID: <1@b>\n\n") =
      some ⟨some (bytes "big lunch"), some (bytes "<1@b>"), none, none, true⟩ := by
    decide +kernel
  exact response_header_section hread
    ⟨by decide, by decide, by decide, by decide, by decide, by decide⟩ (by decide +kernel)
    (sendMessage_bob _ _) rfl

end Simvacation.ResponseHeaders
