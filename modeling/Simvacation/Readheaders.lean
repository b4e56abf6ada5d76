import Simvacation.Vutil

/-!
The header reader of `simvacation.c`. It sees what `fgets` stores in a buffer of
`MAXLINE` bytes, one read after another, and keeps the bytes of earlier reads
behind the NUL of the current one, so each test takes the whole buffer. The
chain of prefix tests is a table in the order of the source; what follows a
test is one branch of `dispatch`, and the `switch` on the state is `storeLine`.
-/

namespace Simvacation.Readheaders

open CString Yasl Vutil

def MAXLINE : ℕ := 1000

inductive HeaderState where
  | unknown
  | recipient
  | append
  | noreply
  deriving DecidableEq, Repr

/-- The captured fields `current_hdr` can point to. -/
inductive Capture where
  | messageid
  | references
  | inreplyto
  | subject
  deriving DecidableEq, Repr

structure Headers where
  subject : Option Bytes
  messageid : Option Bytes
  references : Option Bytes
  inreplyto : Option Bytes
  rcptMatch : Bool
  deriving DecidableEq, Repr

def Headers.get (h : Headers) : Capture → Option Bytes
  | .messageid => h.messageid
  | .references => h.references
  | .inreplyto => h.inreplyto
  | .subject => h.subject

def Headers.set (h : Headers) (k : Capture) (v : Option Bytes) : Headers :=
  match k with
  | .messageid => { h with messageid := v }
  | .references => { h with references := v }
  | .inreplyto => { h with inreplyto := v }
  | .subject => { h with subject := v }

/-- The local variables of the reading loop. -/
structure Reader where
  h : Headers
  state : HeaderState
  stripfield : Bool
  currentHdr : Option Capture
  rcptHdrs : Bytes
  deriving DecidableEq, Repr

def Reader.init : Reader where
  h := ⟨none, none, none, none, false⟩
  state := .unknown
  stripfield := false
  currentHdr := none
  rcptHdrs := []

def checkHeader (line field : Bytes) : ℤ := strncasecmp field line field.length

/-- The branches of the prefix chain. -/
inductive HeaderName where
  | capture (k : Capture)
  | autoSubmitted
  | list
  | precedence
  | autoResponseSuppress
  | recipient
  | other
  deriving DecidableEq, Repr

def headerTable : List (Bytes × HeaderName) :=
  [(bytes "Message-ID:", .capture .messageid),
    (bytes "References:", .capture .references),
    (bytes "In-Reply-To:", .capture .inreplyto),
    (bytes "Auto-Submitted:", .autoSubmitted),
    (bytes "List-", .list),
    (bytes "Precedence", .precedence),
    (bytes "X-Auto-Response-Suppress:", .autoResponseSuppress),
    (bytes "Cc:", .recipient),
    (bytes "To:", .recipient),
    (bytes "Subject:", .capture .subject)]

def headerName (line : Bytes) : HeaderName :=
  match headerTable.find? fun e => checkHeader line e.1 = 0 with
  | some e => e.2
  | none => .other

def colon : UInt8 := 58

/-- The string left after `while (*++p && isspace(*p));` from offset `p`. -/
def skipspace (buf : Bytes) (p : ℕ) : Bytes := (cstr (buf.drop (p + 1))).dropWhile isspace

inductive Flow where
  | next (r : Reader)
  | stop
  | suppress
  deriving DecidableEq, Repr

/-- `stop` leaves the reading loop, `suppress` returns NULL. -/
def dispatch (buf : Bytes) (r : Reader) : Flow :=
  let line := cstr buf
  match headerName line with
  | .capture k => .next { r with state := .append, stripfield := true, currentHdr := some k }
  | .autoSubmitted =>
    -- 15 is the offset behind the colon, and the loop increments before it reads
    let p := skipspace buf 15
    if p = [] then .stop
    else if strncasecmp p (bytes "no") 2 ≠ 0 then .suppress
    else .next { r with state := .noreply }
  | .list => .suppress
  | .precedence =>
    let c := buf.getD 10 0
    if c = colon || c = 32 || c = 9 then
      match strchr line colon with
      | some i =>
        let p := skipspace buf i
        if p = [] then .stop
        else if strncasecmp p (bytes "junk") 4 = 0 || strncasecmp p (bytes "bulk") 4 = 0 ||
            strncasecmp p (bytes "list") 4 = 0 then .suppress
        else .next { r with state := .noreply }
      | none => .next { r with state := .noreply }
    else .next { r with state := .noreply }
  | .autoResponseSuppress =>
    if isSubstring (bytes "OOF") buf false || isSubstring (bytes "All") buf false then .suppress
    else .next { r with state := .noreply }
  | .recipient => .next { r with state := .recipient }
  | .other => if isspace (buf.headD 0) then .next r else .next { r with state := .unknown }

/-- `none` when the value is a null pointer: a header line without its colon. -/
def appendHeader (str : Option Bytes) (value : Bytes) (stripfield : Bool) : Option Bytes :=
  let value :=
    if stripfield then (strchr (cstr value) colon).map (skipspace value) else some (cstr value)
  value.map fun v => yasltrim (yaslcat (str.getD []) v) [lf]

def storeLine (buf : Bytes) (r : Reader) : Reader :=
  match r.state, r.currentHdr with
  | .recipient, _ =>
    { r with rcptHdrs := yaslcatlen (yaslcat r.rcptHdrs buf) (bytes " ") 1 }
  | .append, some k =>
    { r with
      h := r.h.set k (appendHeader (r.h.get k) buf r.stripfield)
      stripfield := false }
  | _, _ => r

/-- The loop over the reads; `none` is the early `return NULL`. -/
def headerLoop (buf : Bytes) (r : Reader) : List Bytes → Option Reader
  | [] => some r
  | line :: reads =>
    let buf := fgetsStore buf line
    if buf.headD 0 = lf then some r
    else
      match dispatch buf r with
      | .next r => headerLoop buf (storeLine buf r) reads
      | .stop => some r
      | .suppress => none

/-- `stack` is what the uninitialised buffer holds; `names` are the aliases. -/
def readheaders (stack : Bytes) (names : List Bytes) (stdin : Bytes) : Option Headers :=
  (headerLoop stack Reader.init (fgetsReads MAXLINE stdin)).map fun r =>
    { r.h with rcptMatch := names.any fun n => isSubstring n r.rcptHdrs true }

end Simvacation.Readheaders
