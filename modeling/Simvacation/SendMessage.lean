import Simvacation.Numerals
import Simvacation.Readheaders
import Mathlib.Logic.Function.Basic

/-!
Writing the response: `pexecv` of `vutil.c`, `pretty_sender` and `send_message`
of `simvacation.c`. The system calls of `pexecv` are given by whether each of
them succeeds. What is printed goes to the mailer once its standard input is
connected. `none` as a result is a null pointer that the code goes on to use.
-/

namespace Simvacation.SendMessage

open CString Numerals Yasl Vutil Readheaders

/-- The codes of `sysexits.h` the program ends with. -/
inductive ExitCode where
  | ok
  | usage
  | tempfail
  deriving DecidableEq, Repr

/-- Which of the system calls of `pexecv` succeed, in the parent and in the child. -/
structure PexecCalls where
  pipe : Bool
  fork : Bool
  parentCloseRead : Bool
  parentDup2 : Bool
  parentCloseWrite : Bool
  childCloseWrite : Bool
  childDup2 : Bool
  childCloseRead : Bool
  execv : Bool
  deriving DecidableEq, Repr

def allCalls : PexecCalls := ⟨true, true, true, true, true, true, true, true, true⟩

/-- The calls of the parent. -/
def PexecCalls.parent (calls : PexecCalls) : Bool :=
  calls.pipe && calls.fork && calls.parentCloseRead && calls.parentDup2 && calls.parentCloseWrite

/-- The calls without which the child does not come to run the program. -/
def PexecCalls.child (calls : PexecCalls) : Bool :=
  calls.pipe && calls.fork && calls.childCloseWrite && calls.childDup2 && calls.childCloseRead &&
    calls.execv

/-- The program a process runs and its argument vector. -/
structure Command where
  binary : Bytes
  argv : List Bytes
  deriving DecidableEq, Repr

def slash : UInt8 := 47

/-- `argv` holds addresses of strings in `mem`; its first string is cut in
place. The result is the parent's, with what the child comes to run. -/
def pexecv (calls : PexecCalls) (mem : ℕ → Bytes) :
    List ℕ → Option (VacResult × Option Command)
  | [] => none
  | arg0 :: args =>
    let binary := mem arg0
    let mem := match strrchr (cstr binary) slash with
      | some p => Function.update mem arg0 (yaslrange binary ((p : ℤ) + 1) (-1))
      | none => mem
    if !calls.pipe then some (.tempfail, none)
    else if !calls.fork then some (.tempfail, none)
    else
      let child :=
        if calls.childCloseWrite && calls.childDup2 && calls.childCloseRead && calls.execv then
          some ⟨cstr binary, (arg0 :: args).map fun arg => cstr (mem arg)⟩
        else none
      if calls.parentCloseRead && calls.parentDup2 && calls.parentCloseWrite then
        some (.ok, child)
      else some (.tempfail, child)

/-- The argument of a `%s`. -/
def printStr : Option Bytes → Bytes
  | none => bytes "(null)"
  | some s => cstr s

def prettySender (config : Config) (sender : Bytes) (senderName : Option Bytes) : Bytes :=
  let domain := config (bytes "core.domain")
  match senderName with
  | some name =>
    if strcasecmp (cstr name) (cstr sender) ≠ 0 then
      bytes "\"" ++ cstr name ++ bytes "\" <" ++ cstr sender ++ bytes "@" ++ printStr domain ++
        bytes ">"
    else cstr sender ++ bytes "@" ++ printStr domain
  | none => cstr sender ++ bytes "@" ++ printStr domain

/-- What `gethostname`, `time` and `getpid` return. -/
structure Host where
  hostname : Bytes
  time : ℕ
  pid : ℕ
  deriving DecidableEq, Repr

def yasllen (s : Option Bytes) : ℕ := (s.getD []).length

def messageIdLine (host : Host) : Bytes :=
  bytes "Message-ID: <" ++ printHex host.time ++ bytes "_" ++ printHex host.pid ++ bytes "@" ++
    cstr host.hostname ++ bytes ">"

def subjectLine (subject : Bytes) (h : Headers) : Bytes :=
  bytes "Subject: " ++ cstr subject ++
    if yasllen h.subject > 0 then
      if checkHeader (printStr h.subject) (bytes "Re:") ≠ 0 then
        bytes " (Re: " ++ printStr h.subject ++ bytes ")"
      else bytes " (" ++ printStr h.subject ++ bytes ")"
    else []

def inReplyToLines (h : Headers) : List Bytes :=
  if yasllen h.messageid > 0 then [bytes "In-Reply-To: " ++ printStr h.messageid] else []

def referencesLines (h : Headers) : List Bytes :=
  if yasllen h.references > 0 then
    [bytes "References: " ++ printStr h.references ++ bytes " " ++ printStr h.messageid]
  else if yasllen h.inreplyto > 0 then
    [bytes "References: " ++ printStr h.inreplyto ++ bytes " " ++ printStr h.messageid]
  else if yasllen h.messageid > 0 then [bytes "References: " ++ printStr h.messageid]
  else []

/-- The header lines in the order they are printed, up to Auto-Submitted. -/
def threadLines (host : Host) (sender canonRcpt subject : Bytes) (h : Headers) : List Bytes :=
  [messageIdLine host, bytes "From: " ++ cstr sender, bytes "To: " ++ cstr canonRcpt,
    subjectLine subject h] ++ inReplyToLines h ++ referencesLines h

def fixedLines : List Bytes :=
  [bytes "Auto-Submitted: auto-replied", bytes "MIME-Version: 1.0",
    bytes "Content-Type: text/plain; charset=UTF-8"]

def printLines (lines : List Bytes) : Bytes := lines.flatMap (· ++ [lf])

def responseText (host : Host) (sender canonRcpt vmsg subject : Bytes) (h : Headers) : Bytes :=
  printLines (threadLines host sender canonRcpt subject h ++ fixedLines) ++ [lf] ++ cstr vmsg ++
    [lf]

/-- The placeholder of the sendmail command for the envelope sender. -/
def placeholder : Bytes := bytes "$R"

/-- Every placeholder becomes the address of the sender, which stands behind the tokens. -/
def splitArgs (tokens : List Bytes) : List ℕ :=
  tokens.zipIdx.map fun (token, i) => if token = placeholder then tokens.length else i

def splitMemory (tokens : List Bytes) (rcpt : Bytes) (i : ℕ) : Bytes := (tokens ++ [rcpt]).getD i []

structure Sending where
  retval : ExitCode
  mailer : Option Command
  printed : Option Bytes
  deriving DecidableEq, Repr

/-- A mailer that runs, and the message it was given. -/
def Sending.response (s : Sending) : Option (Command × Bytes) :=
  match s.mailer, s.printed with
  | some mailer, some printed => some (mailer, printed)
  | _, _ => none

/-- Nothing is printed unless `pexecv` succeeds. -/
def sendMessage (config : Config) (calls : PexecCalls) (host : Host)
    (sender rcpt canonRcpt vmsg subject : Bytes) (h : Headers) : Option Sending :=
  match config (bytes "core.sendmail") with
  | none => none
  | some sendmail =>
    -- a null vector has length zero, so its first entry becomes the terminating null
    let split := (yaslsplitargs (cstr sendmail)).getD []
    match pexecv calls (splitMemory split rcpt) (splitArgs split) with
    | none => none
    | some (.ok, child) =>
      some ⟨.ok, child, some (responseText host sender canonRcpt vmsg subject h)⟩
    | some (_, child) => some ⟨.tempfail, child, none⟩

/-- How the calls come out, whatever the child is to run. -/
theorem exec_eq (calls : PexecCalls) (started : Command) :
    (if !calls.pipe then some (VacResult.tempfail, none)
      else if !calls.fork then some (.tempfail, none)
      else if calls.parentCloseRead && calls.parentDup2 && calls.parentCloseWrite then
        some (.ok, if calls.childCloseWrite && calls.childDup2 && calls.childCloseRead &&
          calls.execv then some started else none)
      else some (.tempfail, if calls.childCloseWrite && calls.childDup2 && calls.childCloseRead &&
        calls.execv then some started else none)) =
      some (if calls.parent then .ok else .tempfail,
        if calls.child then some started else none) := by
  unfold PexecCalls.parent PexecCalls.child
  by_cases hpipe : calls.pipe = true
  · by_cases hfork : calls.fork = true
    · simp only [hpipe, hfork, Bool.not_true, Bool.false_eq_true, ite_false, Bool.true_and]
      split <;> rfl
    · simp [hpipe, hfork]
  · simp [hpipe]

theorem pexecv_cons (calls : PexecCalls) (mem : ℕ → Bytes) (arg0 : ℕ) (args : List ℕ) :
    ∃ result child, pexecv calls mem (arg0 :: args) = some (result, child) ∧
      (result = if calls.parent then .ok else .tempfail) ∧ child.isSome = calls.child := by
  refine ⟨_, _, exec_eq calls _, rfl, ?_⟩
  cases calls.child <;> rfl

/-- The words of the sendmail command. -/
def sendmailArgs (config : Config) : List Bytes :=
  match config (bytes "core.sendmail") with
  | none => []
  | some sendmail => (yaslsplitargs (cstr sendmail)).getD []

section

variable {config : Config} {calls : PexecCalls} {host : Host}
  {sender rcpt canonRcpt vmsg subject : Bytes} {h : Headers}

theorem sendMessage_of_no_args (hargs : sendmailArgs config = []) :
    sendMessage config calls host sender rcpt canonRcpt vmsg subject h = none := by
  unfold sendmailArgs at hargs
  unfold sendMessage
  cases hsend : config (bytes "core.sendmail") with
  | none => rfl
  | some sendmail =>
    rw [hsend] at hargs
    simp only [hargs]
    rfl

/-- What a command that names a program leads to. -/
theorem sendMessage_of_args (hargs : sendmailArgs config ≠ []) :
    ∃ s, sendMessage config calls host sender rcpt canonRcpt vmsg subject h = some s ∧
      (s.retval = if calls.parent then .ok else .tempfail) ∧
      s.printed.isSome = calls.parent ∧ s.mailer.isSome = calls.child := by
  unfold sendmailArgs at hargs
  unfold sendMessage
  cases hsend : config (bytes "core.sendmail") with
  | none =>
    rw [hsend] at hargs
    exact absurd rfl hargs
  | some sendmail =>
    rw [hsend] at hargs
    obtain ⟨token, tokens, hsplit⟩ := List.exists_cons_of_ne_nil hargs
    simp only [hsplit]
    obtain ⟨arg0, args, hvector⟩ : ∃ arg0 args, splitArgs (token :: tokens) = arg0 :: args :=
      ⟨_, _, rfl⟩
    obtain ⟨result, child, hpexecv, hresult, hchild⟩ :=
      pexecv_cons calls (splitMemory (token :: tokens) rcpt) arg0 args
    rw [hvector, hpexecv]
    by_cases hparent : calls.parent = true
    · rw [if_pos hparent] at hresult
      subst hresult
      exact ⟨_, rfl, (if_pos hparent).symm, hparent.symm, hchild⟩
    · rw [if_neg hparent] at hresult
      subst hresult
      refine ⟨_, rfl, (if_neg hparent).symm, ?_, hchild⟩
      exact (Bool.eq_false_iff.mpr hparent).symm

end

end Simvacation.SendMessage
