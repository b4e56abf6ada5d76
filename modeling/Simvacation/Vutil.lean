import Simvacation.Yasl

/-!
Sender addresses and substring tests (`vutil.c`). `canonFrom` undoes the sender
rewriting of forwarders in three stages, run once each in a fixed order: SRS,
then BATV, then the Barracuda form of BATV. Offsets replace the pointers of the
source. `checkFrom` gives `none` for the addresses that are never answered.
-/

namespace Simvacation.Vutil

open CString Yasl

/-- The string options of the merged configuration, by path. -/
abbrev Config := Bytes → Option Bytes

inductive VacResult where
  | ok
  | tempfail
  | permfail
  deriving DecidableEq, Repr

def isSubstring (n h : Bytes) (name : Bool) : Bool :=
  let needle := yasltolower (cstr n)
  let haystack := yasltolower (cstr h)
  let haystack := if name then yaslmapchars haystack (bytes "._") (bytes "  ") 2 else haystack
  (strstr haystack needle).isSome

def quote : UInt8 := 34
def equals : UInt8 := 61
def atSign : UInt8 := 64

/-- The separators that may follow `SRS0` and `SRS1`. -/
def srsSeparators : List UInt8 := bytes "=-+"

/-- The test that guards the SRS branch, at offset 0 or after an opening quote. -/
def isSrs (a : Bytes) : Bool :=
  let p := if a.head? = some quote then a.drop 1 else a
  strncasecmp p (bytes "SRS") 3 = 0 && a.length > 13 &&
    (p.getD 3 0 = 48 || p.getD 3 0 = 49) && srsSeparators.contains (p.getD 4 0)

/-- Cuts the marker, and for `SRS1` also the outer hash and the first forwarder. -/
def skipMarker (a : Bytes) : Bytes :=
  if a.getD 3 0 = 49 then
    let a := yaslrange a 5 (-1)
    match (strstr a (bytes "==")).orElse fun _ =>
        (strstr a (bytes "=-")).orElse fun _ => strstr a (bytes "=+") with
    | some p => yaslrange a (p + 2) (-1)
    | none => a
  else yaslrange a 5 (-1)

/-- Skip the hash and timestamp. -/
def skipHash (a : Bytes) : Bytes :=
  match strchr a equals with
  | none => a
  | some p =>
    match strchr (a.drop (p + 1)) equals with
    | none => a
    | some q => yaslrange a ((p + 1 + q : ℕ) + 1) (-1)

/-- `a` is now domain.tld=localpart@forwarder.tld or the address is borked. -/
def srsAddress (buf a : Bytes) : Bytes :=
  match strchr a equals with
  | none => buf
  | some sep =>
    match strrchr (a.drop sep) atSign with
    | none => buf
    | some p =>
      yaslcatlen (yaslcat (yaslcatlen buf (a.drop (sep + 1)) (p - 1)) (bytes "@")) a sep

def canonSrs (sender : Bytes) : Bytes :=
  if isSrs sender then
    let quoted : Bool := sender.head? = some quote
    let a := if quoted then yaslrange sender 1 (-1) else sender
    let buf := if quoted then [quote] else []
    let buf := srsAddress buf (skipHash (skipMarker a))
    if buf.length > 1 then buf else sender
  else sender

def canonBatv (a : Bytes) : Bytes :=
  if strncasecmp a (bytes "prvs=") 5 = 0 then
    match strchr (a.drop 5) equals with
    | some p => yaslrange a ((5 + p : ℕ) + 1) (-1)
    | none => a
  else a

def canonBarracuda (a : Bytes) : Bytes :=
  if strncasecmp a (bytes "btv1==") 6 = 0 then
    match strstr (a.drop 6) (bytes "==") with
    | some p => yaslrange a ((6 + p : ℕ) + 2) (-1)
    | none => a
  else a

def canonFrom (sender : Bytes) : Bytes := canonBarracuda (canonBatv (canonSrs sender))

def ignore : List Bytes :=
  [bytes "-errors", bytes "-request", bytes "postmaster", bytes "mailer-daemon",
    bytes "mailer", bytes "-relay", bytes "<>"]

/-- Matches the end of the string. -/
def endsWith (a name : Bytes) : Bool :=
  a.length ≥ name.length && a.drop (a.length - name.length) = name

/-- The local part as `check_from` computes it: the domain chopped off, quotes
trimmed, in lower case. -/
def localPart (cfrom : Bytes) : Bytes :=
  let a := match strrchr cfrom atSign with
    | some p => yaslrange cfrom 0 ((p : ℤ) - 1)
    | none => cfrom
  yasltolower (yasltrim a [quote])

def checkFrom (sender : Bytes) : Option Bytes :=
  let cfrom := canonFrom sender
  if ignore.any (endsWith (localPart cfrom)) then none else some cfrom

theorem notMem_srsAddress {buf a : Bytes} {c : UInt8} (hat : c ≠ atSign) (hbuf : c ∉ buf)
    (ha : c ∉ a) : c ∉ srsAddress buf a := by
  have hsign : c ∉ cstr (bytes "@") := by
    rw [show cstr (bytes "@") = [atSign] by decide, List.mem_singleton]
    exact hat
  unfold srsAddress
  split
  · exact hbuf
  · split
    · exact hbuf
    · simp only [yaslcatlen, yaslcat, List.mem_append, not_or]
      exact ⟨⟨⟨hbuf, fun e => ha (List.mem_of_mem_drop (List.mem_of_mem_take e))⟩, hsign⟩,
        fun e => ha (List.mem_of_mem_take e)⟩

theorem notMem_skipMarker {a : Bytes} {c : UInt8} (h : c ∉ a) : c ∉ skipMarker a := by
  unfold skipMarker
  simp only
  split
  · split
    · exact notMem_yaslrange (notMem_yaslrange h _ _) _ _
    · exact notMem_yaslrange h _ _
  · exact notMem_yaslrange h _ _

theorem notMem_skipHash {a : Bytes} {c : UInt8} (h : c ∉ a) : c ∉ skipHash a := by
  unfold skipHash
  split
  · exact h
  · split
    · exact h
    · exact notMem_yaslrange h _ _

theorem notMem_canonSrs {sender : Bytes} {c : UInt8} (hat : c ≠ atSign) (hquote : c ≠ quote)
    (h : c ∉ sender) : c ∉ canonSrs sender := by
  have haddress : ∀ buf a : Bytes, c ∉ buf → c ∉ a →
      c ∉ srsAddress buf (skipHash (skipMarker a)) :=
    fun buf a hbuf ha => notMem_srsAddress hat hbuf (notMem_skipHash (notMem_skipMarker ha))
  have hopen : c ∉ [quote] := by
    rw [List.mem_singleton]
    exact hquote
  unfold canonSrs
  simp only
  repeat' split
  · exact haddress _ _ hopen (notMem_yaslrange h _ _)
  · exact h
  · exact haddress _ _ List.not_mem_nil h
  · exact h
  · exact h

/-- Undoing the rewriting of a sender brings in no byte but quotes and `@`. -/
theorem notMem_canonFrom {sender : Bytes} {c : UInt8} (hat : c ≠ atSign) (hquote : c ≠ quote)
    (h : c ∉ sender) : c ∉ canonFrom sender := by
  have hsrs : c ∉ canonSrs sender := notMem_canonSrs hat hquote h
  have hbatv : c ∉ canonBatv (canonSrs sender) := by
    unfold canonBatv
    split
    · split
      · exact notMem_yaslrange hsrs _ _
      · exact hsrs
    · exact hsrs
  unfold canonFrom canonBarracuda
  split
  · split
    · exact notMem_yaslrange hbatv _ _
    · exact hbatv
  · exact hbatv

end Simvacation.Vutil
