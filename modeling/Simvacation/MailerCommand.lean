import Simvacation.CommandWords
import Simvacation.SendMessage

/-!
The command that `send_message` starts. A line of words names a program and its
arguments, with the envelope sender for every placeholder. The code uses the
first word without asking whether there is one, and the sender as the program
where the first word is the placeholder.
-/

namespace Simvacation.MailerCommand

open CString Yasl Vutil Readheaders SendMessage CommandWords

/-- What stands behind the last slash. -/
def baseName (s : Bytes) : Bytes := s.rtakeWhile (· ≠ slash)

/-- The words as C strings, the sender in place of each placeholder. -/
def arguments (words : List Bytes) (rcpt : Bytes) : List Bytes :=
  words.map fun word => if word = placeholder then cstr rcpt else cstr word

/-- The first word is the program, and argument 0 is its base name. -/
def command (words : List Bytes) (rcpt : Bytes) : Command where
  binary := cstr (words.headD [])
  argv := (arguments words rcpt).modifyHead baseName

/-- A line that asks for a command leads to it, whatever else the response is made of and
wherever the system calls fail. Any other line fails for now and starts nothing. -/
structure Obeyed (sendmail rcpt : Bytes) : Prop where
  runs : ∀ words, Line (cstr sendmail) words → words ≠ [] →
    ∀ (config : Config) (calls : PexecCalls) (host : Host) (sender canonRcpt vmsg subject : Bytes)
      (h : Headers), config (bytes "core.sendmail") = some sendmail →
        ∃ s, sendMessage config calls host sender rcpt canonRcpt vmsg subject h = some s ∧
          s.mailer = if calls.child then some (command words rcpt) else none
  refuses : (∀ words, Line (cstr sendmail) words → words = []) →
    ∀ (config : Config) (calls : PexecCalls) (host : Host) (sender canonRcpt vmsg subject : Bytes)
      (h : Headers), config (bytes "core.sendmail") = some sendmail →
        sendMessage config calls host sender rcpt canonRcpt vmsg subject h =
          some ⟨.tempfail, none, none⟩

theorem baseName_of_slash {s : Bytes} {p : ℕ} (h : strrchr s slash = some p) :
    baseName s = s.drop (p + 1) := by
  obtain ⟨pre, post, rfl, rfl, hpost⟩ := strrchr_eq_some_iff.mp h
  have hdrop : (pre ++ slash :: post).drop (pre.length + 1) = post := by simp
  have hall : ∀ c ∈ post.reverse, decide (c ≠ slash) = true := by
    intro c hc
    exact decide_eq_true fun heq => hpost (heq ▸ List.mem_reverse.mp hc)
  rw [hdrop, baseName, List.rtakeWhile, List.reverse_append, List.reverse_cons, List.append_assoc,
    List.takeWhile_append_of_pos hall]
  simp

theorem baseName_of_no_slash {s : Bytes} (h : slash ∉ s) : baseName s = s := by
  rw [baseName, List.rtakeWhile_eq_self_iff]
  intro c hc
  exact decide_eq_true fun heq => h (heq ▸ hc)

/-- The cut in place reaches every argument at the address of argument 0. -/
theorem pexecv_child (calls : PexecCalls) (mem : ℕ → Bytes) (arg0 : ℕ) (args : List ℕ) :
    ∃ result, pexecv calls mem (arg0 :: args) = some (result, if calls.child then
      some ⟨cstr (mem arg0), (arg0 :: args).map fun arg =>
        if arg = arg0 then baseName (cstr (mem arg0)) else cstr (mem arg)⟩ else none) := by
  unfold pexecv
  cases hslash : strrchr (cstr (mem arg0)) slash with
  | none =>
    have hcut : (arg0 :: args).map (fun arg => cstr (mem arg)) = (arg0 :: args).map fun arg =>
        if arg = arg0 then baseName (cstr (mem arg0)) else cstr (mem arg) := by
      apply List.map_congr_left
      intro arg _
      rw [baseName_of_no_slash (strrchr_eq_none_iff.mp hslash)]
      split
      · next heq => rw [heq]
      · rfl
    rw [← hcut]
    simp only [hslash]
    exact ⟨_, exec_eq calls _⟩
  | some p =>
    have hcut : (arg0 :: args).map (fun arg => cstr (Function.update mem arg0
        (yaslrange (mem arg0) ((p : ℤ) + 1) (-1)) arg)) = (arg0 :: args).map fun arg =>
        if arg = arg0 then baseName (cstr (mem arg0)) else cstr (mem arg) := by
      apply List.map_congr_left
      intro arg _
      obtain ⟨pre, post, hparts, rfl, -⟩ := strrchr_eq_some_iff.mp hslash
      have hle : pre.length + 1 ≤ (cstr (mem arg0)).length := by
        rw [hparts, List.length_append, List.length_cons]
        omega
      have hdrop := yaslrange_drop (mem arg0) (pre.length + 1)
      rw [Nat.cast_add, Nat.cast_one] at hdrop
      rw [baseName_of_slash hslash, ← cstr_drop hle]
      split
      · next heq => rw [heq, Function.update_self, hdrop]
      · next hne => rw [Function.update_of_ne hne]
    rw [← hcut]
    simp only [hslash]
    exact ⟨_, exec_eq calls _⟩

section

variable {sendmail rcpt word : Bytes} {words : List Bytes}

/-- The addresses of the words behind the first one. -/
theorem splitArgs_cons (word : Bytes) (words : List Bytes) : splitArgs (word :: words) =
    (if word = placeholder then words.length + 1 else 0) :: (words.zipIdx 1).map fun p =>
      if p.1 = placeholder then words.length + 1 else p.2 := by
  rw [splitArgs, List.zipIdx_cons, List.map_cons, List.length_cons]

theorem splitMemory_of_mem (word rcpt : Bytes) {token : Bytes} {i : ℕ}
    (h : (token, i) ∈ words.zipIdx 1) :
    splitMemory (word :: words) rcpt i = token ∧ 0 < i ∧ i < words.length + 1 := by
  obtain ⟨hlow, hhigh, htoken⟩ := List.mem_zipIdx h
  refine ⟨?_, by omega, by omega⟩
  obtain ⟨j, rfl⟩ : ∃ j, i = j + 1 := ⟨i - 1, by omega⟩
  have hj : j < words.length := by omega
  simp only [Nat.add_sub_cancel] at htoken
  rw [splitMemory, List.cons_append, List.getD_cons_succ, List.getD_eq_getElem?_getD,
    List.getElem?_append_left hj, List.getElem?_eq_getElem hj, htoken]
  rfl

theorem splitMemory_last : splitMemory (word :: words) rcpt (words.length + 1) = rcpt := by
  rw [splitMemory, List.cons_append, List.getD_cons_succ, List.getD_eq_getElem?_getD,
    List.getElem?_append_right (Nat.le_refl _), Nat.sub_self]
  rfl

/-- The command that the code runs, argument 0 by its address. -/
def started (words : List Bytes) (rcpt : Bytes) : Command :=
  let mem := splitMemory words rcpt
  let arg0 := (splitArgs words).headD 0
  ⟨cstr (mem arg0), (splitArgs words).map fun arg =>
    if arg = arg0 then baseName (cstr (mem arg0)) else cstr (mem arg)⟩

theorem sendMessage_started {config : Config} (calls : PexecCalls) (host : Host)
    (sender rcpt canonRcpt vmsg subject : Bytes) (h : Headers)
    (hconfig : config (bytes "core.sendmail") = some sendmail)
    (hsplit : yaslsplitargs (cstr sendmail) = some (word :: words)) :
    ∃ s, sendMessage config calls host sender rcpt canonRcpt vmsg subject h = some s ∧
      s.mailer = if calls.child then some (started (word :: words) rcpt) else none := by
  obtain ⟨result, hpexecv⟩ := pexecv_child calls (splitMemory (word :: words) rcpt)
    (if word = placeholder then words.length + 1 else 0)
    ((words.zipIdx 1).map fun p : Bytes × ℕ =>
      if p.1 = placeholder then words.length + 1 else p.2)
  rw [← splitArgs_cons] at hpexecv
  unfold sendMessage
  simp only [hconfig, hsplit, Option.getD_some, hpexecv]
  cases result <;> exact ⟨_, rfl, rfl⟩

theorem started_binary : (started (word :: words) rcpt).binary =
    if word = placeholder then cstr rcpt else cstr word := by
  simp only [started, splitArgs_cons, List.headD_cons]
  split
  · rw [splitMemory_last]
  · rfl

/-- The cut does not reach the arguments behind argument 0 if that is a word of its own, or if
there is nothing to cut. -/
theorem started_argv_tail (word rcpt : Bytes) (words : List Bytes) {arg0 : ℕ}
    (harg0 : arg0 = 0 ∨ arg0 = words.length + 1 ∧ baseName (cstr rcpt) = cstr rcpt) :
    ((words.zipIdx 1).map fun p =>
      if p.1 = placeholder then words.length + 1 else p.2).map (fun arg => if arg = arg0 then
        baseName (cstr (splitMemory (word :: words) rcpt arg0))
        else cstr (splitMemory (word :: words) rcpt arg)) = arguments words rcpt := by
  have hfst : arguments words rcpt = (words.zipIdx 1).map ((fun token =>
      if token = placeholder then cstr rcpt else cstr token) ∘ Prod.fst) := by
    rw [← List.map_map, List.zipIdx_map_fst, arguments]
  rw [List.map_map, hfst]
  apply List.map_congr_left
  rintro ⟨token, i⟩ hmem
  obtain ⟨htoken, hpos, hlast⟩ := splitMemory_of_mem word rcpt hmem
  simp only [Function.comp_apply]
  by_cases hplace : token = placeholder
  · rw [if_pos hplace, if_pos hplace]
    rcases harg0 with rfl | ⟨rfl, hbase⟩
    · rw [if_neg (Nat.succ_ne_zero _), splitMemory_last]
    · rw [if_pos rfl, splitMemory_last, hbase]
  · have hother : i ≠ arg0 := by omega
    rw [if_neg hplace, if_neg hplace, if_neg hother, htoken]

theorem started_of_word (hword : word ≠ placeholder) :
    started (word :: words) rcpt = command (word :: words) rcpt := by
  have hfirst : splitMemory (word :: words) rcpt 0 = word := rfl
  have htail := started_argv_tail word rcpt words (Or.inl rfl)
  simp only [started, command, splitArgs_cons, if_neg hword, List.headD_cons, List.map_cons,
    ite_true]
  rw [htail, hfirst]
  simp only [arguments, List.map_cons, List.modifyHead_cons, if_neg hword]

/-- The program is the sender, and every placeholder loses its directory with argument 0. -/
theorem started_of_placeholder (hrcpt : cstr rcpt = placeholder) :
    started (placeholder :: words) rcpt = command (placeholder :: words) rcpt := by
  have hbase : baseName (cstr rcpt) = cstr rcpt := by
    rw [hrcpt]
    exact baseName_of_no_slash (by decide)
  have hself : cstr placeholder = placeholder := rfl
  have htail := started_argv_tail placeholder rcpt words (Or.inr ⟨rfl, hbase⟩)
  simp only [started, command, splitArgs_cons, ite_true, List.headD_cons, List.map_cons]
  rw [htail, splitMemory_last, hself]
  simp only [arguments, List.map_cons, List.modifyHead_cons, ite_true]
  rw [hrcpt]

theorem started_eq_command_iff : started (word :: words) rcpt = command (word :: words) rcpt ↔
    word ≠ placeholder ∨ cstr rcpt = placeholder := by
  constructor
  · intro heq
    by_cases hword : word = placeholder
    · right
      have hbinary := congrArg Command.binary heq
      rw [started_binary, if_pos hword, hword] at hbinary
      exact hbinary
    · exact Or.inl hword
  · rintro (hword | hrcpt)
    · exact started_of_word hword
    · by_cases hword : word = placeholder
      · subst hword
        exact started_of_placeholder hrcpt
      · exact started_of_word hword

/-- Nothing is refused: the code goes on with a null argument 0. -/
theorem not_obeyed_of_no_words (hnone : ∀ words, Line (cstr sendmail) words → words = []) :
    ¬ Obeyed sendmail rcpt := by
  intro hobeyed
  let config : Config := fun _ => some sendmail
  have hrefused := hobeyed.refuses hnone config allCalls ⟨[], 0, 0⟩ [] [] [] []
    ⟨none, none, none, none, false⟩ rfl
  have hargs : sendmailArgs config = [] := by
    cases hsplit : yaslsplitargs (cstr sendmail) with
    | none => simp [sendmailArgs, config, hsplit]
    | some words =>
      have hwords := hnone words (yaslsplitargs_eq_some_iff.mp hsplit)
      simp [sendmailArgs, config, hsplit, hwords]
  rw [sendMessage_of_no_args hargs] at hrefused
  cases hrefused

theorem started_of_obeyed (hobeyed : Obeyed sendmail rcpt)
    (hline : Line (cstr sendmail) (word :: words)) :
    started (word :: words) rcpt = command (word :: words) rcpt := by
  let config : Config := fun _ => some sendmail
  have hconfig : config (bytes "core.sendmail") = some sendmail := rfl
  obtain ⟨s, hs, hmailer⟩ := hobeyed.runs (word :: words) hline (List.cons_ne_nil _ _) config
    allCalls ⟨[], 0, 0⟩ [] [] [] [] ⟨none, none, none, none, false⟩ hconfig
  obtain ⟨s', hs', hmailer'⟩ := sendMessage_started allCalls ⟨[], 0, 0⟩ [] rcpt [] [] []
    ⟨none, none, none, none, false⟩ hconfig (yaslsplitargs_eq_some_iff.mpr hline)
  rw [hs] at hs'
  cases hs'
  rw [hmailer] at hmailer'
  exact (Option.some.inj hmailer').symm

/-- A command is started as it is asked for if and only if there is one and its program is
not the placeholder, unless that is what the sender is called. -/
theorem obeyed_iff (sendmail rcpt : Bytes) : Obeyed sendmail rcpt ↔
    ∃ word words, Line (cstr sendmail) (word :: words) ∧
      (word ≠ placeholder ∨ cstr rcpt = placeholder) := by
  constructor
  · intro hobeyed
    by_cases hline : ∃ word words, Line (cstr sendmail) (word :: words)
    · obtain ⟨word, words, hline⟩ := hline
      exact ⟨word, words, hline, started_eq_command_iff.mp (started_of_obeyed hobeyed hline)⟩
    · refine absurd hobeyed (not_obeyed_of_no_words fun words hwords => ?_)
      cases words with
      | nil => rfl
      | cons word words => exact absurd ⟨word, words, hwords⟩ hline
  · rintro ⟨word, words, hline, hcond⟩
    have hsplit := yaslsplitargs_eq_some_iff.mpr hline
    refine ⟨?_, ?_⟩
    · intro words' hwords' _ config calls host sender canonRcpt vmsg subject h hconfig
      have hsame := yaslsplitargs_eq_some_iff.mpr hwords'
      rw [hsplit] at hsame
      cases hsame
      rw [← started_eq_command_iff.mpr hcond]
      exact sendMessage_started calls host sender rcpt canonRcpt vmsg subject h hconfig hsplit
    · intro hnone
      exact absurd (hnone _ hline) (List.cons_ne_nil _ _)

end

/-- A quote that is not closed. -/
theorem unbalanced_not_obeyed :
    ¬ Obeyed (bytes "/usr/sbin/sendmail -f \"$R") (bytes "alice@example.com") := by
  apply not_obeyed_of_no_words
  intro words hwords
  have hnull : yaslsplitargs (cstr (bytes "/usr/sbin/sendmail -f \"$R")) = none := by
    decide +kernel
  rw [yaslsplitargs_eq_some_iff.mpr hwords] at hnull
  cases hnull

end Simvacation.MailerCommand
