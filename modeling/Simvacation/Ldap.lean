import Simvacation.CTime
import Simvacation.Vlu

/-!
The directory backend (`vlu_ldap.c`). What the LDAP library returns is given by
`LdapCalls`: the answer to each search, the clock, and whether each call of `init`
succeeds. A handle keeps the entry that the last successful search found and
what the searches chose for the response.
-/

namespace Simvacation.Ldap

open CString Yasl Vutil Vlu CTime

structure Entry where
  /-- the values of an attribute, none if it is absent -/
  values : Bytes → List Bytes
  /-- the first value of the distinguished name -/
  rdn : Bytes

/-- The error codes that are told apart. -/
inductive LdapError where
  | serverDown
  | timeout
  | busy
  | unavailable
  | other
  | localError
  | unlisted
  deriving DecidableEq, Repr

inductive Answer where
  | failed (rc : LdapError)
  | success (result : List Entry)

/-- The library and the clock. -/
structure LdapCalls where
  calloc : Bool
  ldapInitialize : Bool
  ldapSetOption : Bool
  ldapSaslBind : Bool
  /-- search base, filter and attributes -/
  search : Bytes → Bytes → List Bytes → Answer
  /-- the seconds of `clock_gettime`, unless it fails -/
  clock : Option ℤ

/-- What a handle takes from the configuration. -/
structure LdapNames where
  searchBase : Bytes
  groupSearchBase : Bytes
  attrVacation : Bytes
  attrAutoreplyStart : Bytes
  attrAutoreplyEnd : Bytes
  attrVacationMsg : Bytes
  attrGroupMsg : Bytes
  attrName : Bytes
  deriving DecidableEq, Repr

/-- The attributes that are asked for. -/
def LdapNames.attrs (names : LdapNames) : List Bytes :=
  [bytes "cn", names.attrVacation, names.attrVacationMsg, names.attrName, names.attrGroupMsg,
    names.attrAutoreplyStart, names.attrAutoreplyEnd]

/-- `struct vlu_ldap`. -/
structure VluLdap extends LdapNames where
  result : Option Entry
  defaultMsg : Bytes
  subjectPrefix : Option Bytes
  interval : ℤ
  attrMsg : Option Bytes

/-- `ldap_get_values_len`, the empty list for NULL. -/
def VluLdap.values (vlu : VluLdap) (attr : Bytes) : List Bytes :=
  match vlu.result with
  | some entry => entry.values attr
  | none => []

def ldapNames (config : VacConfig) : Option LdapNames := do
  let searchBase ← config.strings (bytes "ldap.search_base")
  let groupSearchBase ← config.strings (bytes "ldap.group_search_base")
  let attrVacation ← config.strings (bytes "ldap.attributes.vacation")
  let attrAutoreplyStart ← config.strings (bytes "ldap.attributes.autoreply_start")
  let attrAutoreplyEnd ← config.strings (bytes "ldap.attributes.autoreply_end")
  let attrVacationMsg ← config.strings (bytes "ldap.attributes.vacation_message")
  let attrGroupMsg ← config.strings (bytes "ldap.attributes.group_message")
  let attrName ← config.strings (bytes "ldap.attributes.name")
  pure ⟨searchBase, groupSearchBase, attrVacation, attrAutoreplyStart, attrAutoreplyEnd,
    attrVacationMsg, attrGroupMsg, attrName⟩

def ldapVluInit (calls : LdapCalls) (config : VacConfig) (calloc : Bool) : Option VluLdap :=
  if !calloc then none
  else if !calls.calloc then none
  else
    match ldapNames config with
    | none => none
    | some names =>
      if (config.strings (bytes "ldap.uri")).isNone then none
      else if !calls.ldapInitialize then none
      else if !calls.ldapSetOption then none
      else if !calls.ldapSaslBind then none
      else
        some { names with
          result := none
          defaultMsg := yaslauto (config.strings (bytes "core.default_message"))
          subjectPrefix := none
          interval := 0
          attrMsg := none }

/-- The formats are tried on one `struct tm`. -/
def ldapVluTime (bvTime : Bytes) : ℤ :=
  let buf := cstr bvTime
  match strptime [.Y, .m, .d, .H, .M, .S] buf Tm.zero with
  | (some _, tm) => mktime tm
  | (none, tm) =>
    match strptime [.Y, .m, .d, .H, .M] buf tm with
    | (some _, tm) => mktime tm
    | (none, tm) =>
      match strptime [.Y, .m, .d, .H] buf tm with
      | (some _, tm) => mktime tm
      | (none, _) => 0

/-- Whether the first value of an attribute is a time before `now`. -/
def isPast (now : ℤ) (values : List Bytes) : Bool :=
  match values with
  | [] => false
  | bvTime :: _ =>
    let time := ldapVluTime bvTime
    time > 0 && now > time

/-- Whether the first value of an attribute is TRUE. -/
def statusTrue (values : List Bytes) : Bool :=
  match values with
  | [] => false
  | bvStatus :: _ => bvStatus.length = 4 && strncasecmp bvStatus (bytes "TRUE") 4 = 0

def ldapVluOnvacation (calls : LdapCalls) (vlu : VluLdap) : Bool :=
  match calls.clock with
  | none => false
  | some now =>
    let started :=
      statusTrue (vlu.values vlu.attrVacation) || isPast now (vlu.values vlu.attrAutoreplyStart)
    started && !isPast now (vlu.values vlu.attrAutoreplyEnd)

def LdapError.result : LdapError → VacResult
  | .serverDown => .tempfail
  | .timeout => .tempfail
  | .busy => .tempfail
  | .unavailable => .tempfail
  | .other => .tempfail
  | .localError => .tempfail
  | .unlisted => .permfail

/-- A handle keeps what it found before if there is not exactly one entry. -/
def ldapVluSearchCommon (calls : LdapCalls) (vlu : VluLdap) (filter searchBase : Bytes) :
    VacResult × VluLdap :=
  match calls.search searchBase filter vlu.attrs with
  | .failed rc => (rc.result, vlu)
  | .success [entry] => (.ok, { vlu with result := some entry })
  | .success _ => (.permfail, vlu)

/-- The size of the buffer that `ldap_vlu_search` prints its filter to. -/
def filterSize : ℕ := 64

/-- `uid=%s`, in front of the NUL. -/
def searchFilter (rcpt : Bytes) : Bytes := bytes "uid=" ++ cstr rcpt

def groupSearchFilter (rcpt : Bytes) : Bytes :=
  yaslmapchars (bytes "cn=" ++ rcpt) (bytes "._") (bytes "  ") 2

/-- What the function does with a filter that fits its buffer. -/
def ldapVluSearch (calls : LdapCalls) (config : VacConfig) (vlu : VluLdap) (rcpt : Bytes) :
    VacResult × VluLdap :=
  match ldapVluSearchCommon calls vlu (searchFilter rcpt) vlu.searchBase with
  | (.ok, vlu) =>
    if ldapVluOnvacation calls vlu then
      (.ok, { vlu with
        attrMsg := some vlu.attrVacationMsg
        subjectPrefix := some (yaslauto (config.strings (bytes "core.subject_prefix")))
        interval := config.seconds (bytes "core.interval") })
    else (.permfail, vlu)
  | failed => failed

def ldapVluGroupSearch (calls : LdapCalls) (config : VacConfig) (vlu : VluLdap) (rcpt : Bytes) :
    VacResult × VluLdap :=
  match ldapVluSearchCommon calls vlu (cstr (groupSearchFilter rcpt)) vlu.groupSearchBase with
  | (.ok, vlu) =>
    if ldapVluOnvacation calls vlu then
      (.ok, { vlu with
        attrMsg := some vlu.attrGroupMsg
        defaultMsg := yaslauto (config.strings (bytes "core.default_group_message"))
        subjectPrefix := some (yaslauto (config.strings (bytes "core.group_subject_prefix")))
        interval := config.seconds (bytes "core.group_interval") })
    else (.permfail, vlu)
  | failed => failed

def ldapVluAliases (vlu : VluLdap) (rcpt : Bytes) : List Bytes := rcpt :: vlu.values (bytes "cn")

def ldapVluMessage (vlu : VluLdap) : Bytes :=
  match vlu.attrMsg.elim [] vlu.values with
  | [] => vlu.defaultMsg
  | rawmsg => yaslmapchars rawmsg.flatten (bytes "$") [lf] 1

def ldapVluDisplayName (vlu : VluLdap) : Option Bytes :=
  match vlu.values vlu.attrName with
  | [] => vlu.result.map Entry.rdn
  | name :: _ => some name

/-- The functions on a handle. The null handle is none of this backend. -/
def onLdap (f : VluLdap → VacResult × VluLdap) : VLU VluLdap → VacResult × VLU VluLdap
  | .null => (.tempfail, .null)
  | .ldap vlu => ((f vlu).1, .ldap (f vlu).2)

/-- A filter that does not fit its buffer overruns the stack. -/
def ldapVlu (calls : LdapCalls) : VluBackend VluLdap where
  init config calloc := (ldapVluInit calls config calloc).map VLU.ldap
  search config vlu rcpt :=
    if filterSize ≤ (searchFilter rcpt).length then none
    else some (onLdap (fun vlu => ldapVluSearch calls config vlu rcpt) vlu)
  groupSearch config vlu rcpt := onLdap (fun vlu => ldapVluGroupSearch calls config vlu rcpt) vlu
  message _
    | .null, _ => none
    | .ldap vlu, _ => some (ldapVluMessage vlu)
  subjectPrefix _
    | .null, _ => []
    | .ldap vlu, _ => vlu.subjectPrefix.getD []
  interval _
    | .null, _ => 0
    | .ldap vlu, _ => vlu.interval
  aliases _
    | .null, rcpt => [rcpt]
    | .ldap vlu, rcpt => ldapVluAliases vlu rcpt
  displayName _
    | .null, _ => none
    | .ldap vlu, _ => ldapVluDisplayName vlu

/-- Whether an entry replies does not depend on what was found before. -/
theorem ldapVluOnvacation_congr (calls : LdapCalls) {vlu vlu' : VluLdap}
    (hnames : vlu.toLdapNames = vlu'.toLdapNames) (hresult : vlu.result = vlu'.result) :
    ldapVluOnvacation calls vlu = ldapVluOnvacation calls vlu' := by
  have hvalues : vlu.values = vlu'.values := by
    funext attr
    rw [VluLdap.values, VluLdap.values, hresult]
  rw [ldapVluOnvacation, ldapVluOnvacation, hvalues, hnames]

/-- How a search comes out, whatever the handle has found before. -/
def outcome (calls : LdapCalls) (names : LdapNames) (filter searchBase : Bytes) : VacResult :=
  match calls.search searchBase filter names.attrs with
  | .failed rc => rc.result
  | .success [entry] =>
    if ldapVluOnvacation calls ⟨names, some entry, [], none, 0, none⟩ then .ok else .permfail
  | .success _ => .permfail

theorem ldapVluSearchCommon_cases (calls : LdapCalls) (vlu : VluLdap) (filter searchBase : Bytes) :
    (∃ entry, ldapVluSearchCommon calls vlu filter searchBase =
        (.ok, { vlu with result := some entry }) ∧
      outcome calls vlu.toLdapNames filter searchBase =
        if ldapVluOnvacation calls { vlu with result := some entry } then .ok else .permfail) ∨
    ∃ r, r ≠ .ok ∧ ldapVluSearchCommon calls vlu filter searchBase = (r, vlu) ∧
      outcome calls vlu.toLdapNames filter searchBase = r := by
  unfold ldapVluSearchCommon outcome
  rcases calls.search searchBase filter vlu.attrs with rc | entries
  · refine Or.inr ⟨rc.result, ?_, rfl, rfl⟩
    cases rc <;> decide
  · rcases entries with _ | ⟨entry, _ | ⟨entry', entries⟩⟩
    · exact Or.inr ⟨.permfail, by decide, rfl, rfl⟩
    · have hsame : ldapVluOnvacation calls { vlu with result := some entry } =
          ldapVluOnvacation calls ⟨vlu.toLdapNames, some entry, [], none, 0, none⟩ :=
        ldapVluOnvacation_congr calls rfl rfl
      exact Or.inl ⟨entry, rfl, by rw [hsame]⟩
    · exact Or.inr ⟨.permfail, by decide, rfl, rfl⟩

/-- What either search does with what it looked up; `fill` sets the fields for a response. -/
def conclude (calls : LdapCalls) (fill : VluLdap → VluLdap) :
    VacResult × VluLdap → VacResult × VluLdap
  | (.ok, vlu) => if ldapVluOnvacation calls vlu then (.ok, fill vlu) else (.permfail, vlu)
  | failed => failed

theorem conclude_outcome (calls : LdapCalls) (vlu : VluLdap) (filter searchBase : Bytes)
    {fill : VluLdap → VluLdap} (hfill : ∀ vlu, (fill vlu).toLdapNames = vlu.toLdapNames) :
    (conclude calls fill (ldapVluSearchCommon calls vlu filter searchBase)).1 =
        outcome calls vlu.toLdapNames filter searchBase ∧
      (conclude calls fill (ldapVluSearchCommon calls vlu filter searchBase)).2.toLdapNames =
        vlu.toLdapNames := by
  obtain ⟨entry, hcommon, hout⟩ | ⟨r, hr, hcommon, hout⟩ :=
    ldapVluSearchCommon_cases calls vlu filter searchBase
  · rw [hcommon, hout, conclude]
    cases ldapVluOnvacation calls { vlu with result := some entry } with
    | true => exact ⟨rfl, hfill _⟩
    | false => exact ⟨rfl, rfl⟩
  · rw [hcommon, hout]
    cases r with
    | ok => exact absurd rfl hr
    | tempfail => exact ⟨rfl, rfl⟩
    | permfail => exact ⟨rfl, rfl⟩

theorem ldapVluSearch_outcome (calls : LdapCalls) (config : VacConfig) (vlu : VluLdap)
    (rcpt : Bytes) : (ldapVluSearch calls config vlu rcpt).1 =
        outcome calls vlu.toLdapNames (searchFilter rcpt) vlu.searchBase ∧
      (ldapVluSearch calls config vlu rcpt).2.toLdapNames = vlu.toLdapNames :=
  conclude_outcome calls vlu _ _ fun _ => rfl

theorem ldapVluGroupSearch_outcome (calls : LdapCalls) (config : VacConfig) (vlu : VluLdap)
    (rcpt : Bytes) : (ldapVluGroupSearch calls config vlu rcpt).1 =
        outcome calls vlu.toLdapNames (cstr (groupSearchFilter rcpt)) vlu.groupSearchBase ∧
      (ldapVluGroupSearch calls config vlu rcpt).2.toLdapNames = vlu.toLdapNames :=
  conclude_outcome calls vlu _ _ fun _ => rfl

end Simvacation.Ldap
