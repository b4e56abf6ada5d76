import Simvacation.CleanUp

/-!
A lookup handle over a sequence of calls. What a call leaves in the handle is
compared with what it would leave in a handle that has served nobody. The entry
is found in the directory of the call itself, which may change between calls.
-/

namespace Simvacation.Ldap

open CString Yasl Vutil Vlu CleanUp

/-- The two searches. -/
inductive Kind where
  | user
  | group
  deriving DecidableEq, Repr

namespace Kind

def searchBase (names : LdapNames) : Kind → Bytes
  | .user => names.searchBase
  | .group => names.groupSearchBase

def filter (rcpt : Bytes) : Kind → Bytes
  | .user => searchFilter rcpt
  | .group => cstr (groupSearchFilter rcpt)

def attrMsg (names : LdapNames) : Kind → Bytes
  | .user => names.attrVacationMsg
  | .group => names.attrGroupMsg

def defaultMsg (config : VacConfig) : Kind → Bytes
  | .user => yaslauto (config.strings (bytes "core.default_message"))
  | .group => yaslauto (config.strings (bytes "core.default_group_message"))

def subjectPrefix (config : VacConfig) : Kind → Bytes
  | .user => yaslauto (config.strings (bytes "core.subject_prefix"))
  | .group => yaslauto (config.strings (bytes "core.group_subject_prefix"))

def interval (config : VacConfig) : Kind → ℤ
  | .user => config.seconds (bytes "core.interval")
  | .group => config.seconds (bytes "core.group_interval")

end Kind

/-- A call of `ldap_vlu_search` or of `ldap_vlu_group_search`. -/
structure Request where
  kind : Kind
  calls : LdapCalls
  rcpt : Bytes

def serve (config : VacConfig) (vlu : VluLdap) (request : Request) : VacResult × VluLdap :=
  match request.kind with
  | .user => ldapVluSearch request.calls config vlu request.rcpt
  | .group => ldapVluGroupSearch request.calls config vlu request.rcpt

/-- The handle after a sequence of calls, however they come out. -/
def after (config : VacConfig) (vlu : VluLdap) (requests : List Request) : VluLdap :=
  requests.foldl (fun vlu request => (serve config vlu request).2) vlu

namespace Request

/-- The directory has this one entry for the request, and the entry replies. -/
structure Finds (names : LdapNames) (request : Request) (entry : Entry) : Prop where
  alone : request.calls.search (request.kind.searchBase names) (request.kind.filter request.rcpt)
    names.attrs = .success [entry]
  replies : ldapVluOnvacation request.calls ⟨names, some entry, [], none, 0, none⟩

def Answers (names : LdapNames) (request : Request) : Prop := ∃ entry, request.Finds names entry

/-- All that a handle keeps, taken from one request and the entry it found. -/
def answer (config : VacConfig) (names : LdapNames) (request : Request) (entry : Entry) :
    VluLdap where
  toLdapNames := names
  result := some entry
  defaultMsg := request.kind.defaultMsg config
  subjectPrefix := some (request.kind.subjectPrefix config)
  interval := request.kind.interval config
  attrMsg := some (request.kind.attrMsg names)

end Request

/-- The handle holds what belongs to this request, and nothing else. -/
def Belongs (config : VacConfig) (names : LdapNames) (request : Request) (vlu : VluLdap) : Prop :=
  ∃ entry, request.Finds names entry ∧ vlu = request.answer config names entry

/-- What the functions on such a handle give. -/
theorem Belongs.response {config : VacConfig} {names : LdapNames} {request : Request}
    {vlu : VluLdap} (h : Belongs config names request vlu) :
    ∃ entry, request.Finds names entry ∧
      (∀ rcpt, ldapVluAliases vlu rcpt = rcpt :: entry.values (bytes "cn")) ∧
      ldapVluMessage vlu = (match entry.values (request.kind.attrMsg names) with
        | [] => request.kind.defaultMsg config
        | rawmsg => yaslmapchars rawmsg.flatten (bytes "$") [lf] 1) ∧
      ldapVluDisplayName vlu = (entry.values names.attrName).head?.or (some entry.rdn) ∧
      vlu.subjectPrefix = some (request.kind.subjectPrefix config) ∧
      vlu.interval = request.kind.interval config := by
  obtain ⟨entry, hfinds, rfl⟩ := h
  refine ⟨entry, hfinds, fun _ => rfl, rfl, ?_, rfl, rfl⟩
  unfold ldapVluDisplayName VluLdap.values Request.answer
  dsimp only
  cases entry.values names.attrName <;> rfl

/-- The default message after a call that answers: a user search leaves it alone. -/
def kept (config : VacConfig) (vlu : VluLdap) : Kind → Bytes
  | .user => vlu.defaultMsg
  | .group => Kind.group.defaultMsg config

/-- The fields that a search sets for the response. -/
def fill (config : VacConfig) (kind : Kind) (vlu : VluLdap) : VluLdap :=
  { vlu with
    attrMsg := some (kind.attrMsg vlu.toLdapNames)
    defaultMsg := kept config vlu kind
    subjectPrefix := some (kind.subjectPrefix config)
    interval := kind.interval config }

theorem serve_eq (config : VacConfig) (vlu : VluLdap) (request : Request) :
    serve config vlu request = conclude request.calls (fill config request.kind)
      (ldapVluSearchCommon request.calls vlu (request.kind.filter request.rcpt)
        (request.kind.searchBase vlu.toLdapNames)) := by
  obtain ⟨kind, calls, rcpt⟩ := request
  cases kind <;> rfl

/-- A call that answers leaves its own answer, but for the default message of a user search. A
call that does not may leave an entry behind, and nothing else. -/
theorem serve_cases (config : VacConfig) (vlu : VluLdap) (request : Request) :
    (∃ entry, request.Finds vlu.toLdapNames entry ∧ serve config vlu request =
      (.ok, { request.answer config vlu.toLdapNames entry with
        defaultMsg := kept config vlu request.kind })) ∨
    ¬ request.Answers vlu.toLdapNames ∧ ∃ r result, r ≠ .ok ∧
      serve config vlu request = (r, { vlu with result := result }) := by
  have hsilent : (∀ entry, request.calls.search (request.kind.searchBase vlu.toLdapNames)
      (request.kind.filter request.rcpt) vlu.attrs ≠ .success [entry]) →
      ¬ request.Answers vlu.toLdapNames := by
    rintro hne ⟨entry, halone, -⟩
    exact hne entry halone
  rw [serve_eq, ldapVluSearchCommon]
  rcases hsearch : request.calls.search (request.kind.searchBase vlu.toLdapNames)
    (request.kind.filter request.rcpt) vlu.attrs with rc | _ | ⟨entry, _ | ⟨entry', entries⟩⟩
  · refine Or.inr ⟨hsilent ?_, rc.result, vlu.result, by cases rc <;> decide, ?_⟩
    · simp [hsearch]
    · cases rc <;> rfl
  · refine Or.inr ⟨hsilent ?_, .permfail, vlu.result, by decide, rfl⟩
    simp [hsearch]
  · -- the test reads the entry and the clock, not what earlier calls left
    have hsame : ldapVluOnvacation request.calls { vlu with result := some entry } =
        ldapVluOnvacation request.calls ⟨vlu.toLdapNames, some entry, [], none, 0, none⟩ :=
      ldapVluOnvacation_congr request.calls rfl rfl
    dsimp only [conclude]
    rw [hsame]
    by_cases hreplies :
      ldapVluOnvacation request.calls ⟨vlu.toLdapNames, some entry, [], none, 0, none⟩
    · rw [if_pos hreplies]
      exact Or.inl ⟨entry, ⟨hsearch, hreplies⟩, rfl⟩
    · rw [if_neg hreplies]
      refine Or.inr ⟨?_, .permfail, some entry, by decide, rfl⟩
      rintro ⟨entry', halone, hreplies'⟩
      rw [hsearch] at halone
      cases halone
      exact hreplies hreplies'
  · refine Or.inr ⟨hsilent ?_, .permfail, vlu.result, by decide, rfl⟩
    simp [hsearch]

/-- Whether a call answers does not depend on the calls before it. -/
theorem serve_ok_iff (config : VacConfig) (vlu : VluLdap) (request : Request) :
    (serve config vlu request).1 = .ok ↔ request.Answers vlu.toLdapNames := by
  obtain ⟨entry, hfinds, hserve⟩ | ⟨hsilent, r, result, hr, hserve⟩ :=
    serve_cases config vlu request
  · rw [hserve]
    exact ⟨fun _ => ⟨entry, hfinds⟩, fun _ => rfl⟩
  · rw [hserve]
    exact ⟨fun h => absurd h hr, fun h => absurd h hsilent⟩

theorem serve_names (config : VacConfig) (vlu : VluLdap) (request : Request) :
    (serve config vlu request).2.toLdapNames = vlu.toLdapNames := by
  obtain ⟨entry, -, hserve⟩ | ⟨-, r, result, -, hserve⟩ := serve_cases config vlu request <;>
    rw [hserve]
  rfl

theorem serve_defaultMsg (config : VacConfig) (vlu : VluLdap) {request : Request}
    (h : ¬ (request.kind = .group ∧ request.Answers vlu.toLdapNames)) :
    (serve config vlu request).2.defaultMsg = vlu.defaultMsg := by
  obtain ⟨entry, hfinds, hserve⟩ | ⟨-, r, result, -, hserve⟩ := serve_cases config vlu request
  · rw [hserve]
    cases hkind : request.kind with
    | user => rfl
    | group => exact absurd ⟨hkind, entry, hfinds⟩ h
  · rw [hserve]

theorem serve_group (config : VacConfig) (vlu : VluLdap) {request : Request}
    (hkind : request.kind = .group) (h : request.Answers vlu.toLdapNames) :
    (serve config vlu request).2.defaultMsg = Kind.group.defaultMsg config := by
  obtain ⟨entry, -, hserve⟩ | ⟨hsilent, -⟩ := serve_cases config vlu request
  · rw [hserve, hkind]
    rfl
  · exact absurd h hsilent

/-- Exactly the default message can belong to another call. -/
theorem serve_belongs_iff (config : VacConfig) (vlu : VluLdap) {request : Request}
    (h : request.Answers vlu.toLdapNames) :
    Belongs config vlu.toLdapNames request (serve config vlu request).2 ↔
      kept config vlu request.kind = request.kind.defaultMsg config := by
  obtain ⟨entry, hfinds, hserve⟩ | ⟨hsilent, -⟩ := serve_cases config vlu request
  · rw [hserve]
    constructor
    · rintro ⟨entry', -, heq⟩
      exact congrArg VluLdap.defaultMsg heq
    · intro hkept
      refine ⟨entry, hfinds, ?_⟩
      rw [hkept]
      rfl
  · exact absurd h hsilent

theorem after_names (config : VacConfig) (vlu : VluLdap) (requests : List Request) :
    (after config vlu requests).toLdapNames = vlu.toLdapNames := by
  induction requests generalizing vlu with
  | nil => rfl
  | cons request requests ih => exact (ih _).trans (serve_names config vlu request)

/-- Without a group that answers the handle keeps the default message of `init`. -/
theorem after_defaultMsg (config : VacConfig) (vlu : VluLdap) (requests : List Request)
    (h : ∀ r ∈ requests, ¬ (r.kind = .group ∧ r.Answers vlu.toLdapNames)) :
    (after config vlu requests).defaultMsg = vlu.defaultMsg := by
  induction requests generalizing vlu with
  | nil => rfl
  | cons request requests ih =>
    have hrest : ∀ r ∈ requests,
        ¬ (r.kind = .group ∧ r.Answers (serve config vlu request).2.toLdapNames) := by
      intro r hr
      rw [serve_names]
      exact h r (List.mem_cons_of_mem _ hr)
    exact (ih _ hrest).trans (serve_defaultMsg config vlu (h request List.mem_cons_self))

theorem after_stays (config : VacConfig) (vlu : VluLdap) (requests : List Request)
    (h : vlu.defaultMsg = Kind.group.defaultMsg config) :
    (after config vlu requests).defaultMsg = Kind.group.defaultMsg config := by
  induction requests generalizing vlu with
  | nil => exact h
  | cons request requests ih =>
    refine ih _ ?_
    by_cases hgroup : request.kind = .group ∧ request.Answers vlu.toLdapNames
    · exact serve_group config vlu hgroup.1 hgroup.2
    · exact (serve_defaultMsg config vlu hgroup).trans h

/-- After a group that answered it is that of groups, whatever was searched since. -/
theorem after_group (config : VacConfig) (vlu : VluLdap) {requests : List Request}
    {request : Request} (hmem : request ∈ requests) (hkind : request.kind = .group)
    (h : request.Answers vlu.toLdapNames) :
    (after config vlu requests).defaultMsg = Kind.group.defaultMsg config := by
  induction requests generalizing vlu with
  | nil => exact absurd hmem List.not_mem_nil
  | cons first requests ih =>
    rcases List.mem_cons.mp hmem with rfl | hlater
    · exact after_stays config _ requests (serve_group config vlu hkind h)
    · exact ih _ hlater (by rwa [serve_names])

/-- A user who answers after a group did. -/
structure Overtaken (names : LdapNames) (earlier later : Request) : Prop where
  group : earlier.kind = .group
  groupAnswers : earlier.Answers names
  user : later.kind = .user
  userAnswers : later.Answers names

/-- After every call that succeeds the handle holds what belongs to this call. -/
def Consistent (config : VacConfig) (vlu : VluLdap) (requests : List Request) : Prop :=
  ∀ earlier request later, requests = earlier ++ request :: later →
    (serve config (after config vlu earlier) request).1 = .ok →
      Belongs config vlu.toLdapNames request (serve config (after config vlu earlier) request).2

theorem defaultMsg_of_init {calls : LdapCalls} {config : VacConfig} {calloc : Bool}
    {vlu : VluLdap} (h : ldapVluInit calls config calloc = some vlu) :
    vlu.defaultMsg = Kind.user.defaultMsg config := by
  unfold ldapVluInit at h
  grind [Kind.defaultMsg]

/-- One call after others: only a user search that comes after a group can go wrong. -/
theorem after_belongs_iff {config : VacConfig} {vlu : VluLdap}
    (hdefault : vlu.defaultMsg = Kind.user.defaultMsg config) (earlier : List Request)
    {request : Request} (h : request.Answers vlu.toLdapNames) :
    Belongs config vlu.toLdapNames request (serve config (after config vlu earlier) request).2 ↔
      Kind.user.defaultMsg config = Kind.group.defaultMsg config ∨
        ∀ r ∈ earlier, ¬ Overtaken vlu.toLdapNames r request := by
  have hnames := after_names config vlu earlier
  have hiff := serve_belongs_iff config (after config vlu earlier) (hnames.symm ▸ h)
  rw [hnames] at hiff
  rw [hiff]
  cases hkind : request.kind with
  | group =>
    refine ⟨fun _ => Or.inr fun r _ hr => ?_, fun _ => rfl⟩
    exact Kind.noConfusion (hkind.symm.trans hr.user)
  | user =>
    change (after config vlu earlier).defaultMsg = Kind.user.defaultMsg config ↔ _
    by_cases hgroup : ∃ r ∈ earlier, r.kind = .group ∧ r.Answers vlu.toLdapNames
    · -- the group's message is still there, right only if it is that of users as well
      obtain ⟨r, hmem, hr, hanswers⟩ := hgroup
      rw [after_group config vlu hmem hr hanswers]
      constructor
      · exact fun heq => Or.inl heq.symm
      · rintro (heq | hnone)
        · exact heq.symm
        · exact absurd ⟨hr, hanswers, hkind, h⟩ (hnone r hmem)
    · rw [after_defaultMsg config vlu earlier fun r hmem hr => hgroup ⟨r, hmem, hr⟩, hdefault]
      exact ⟨fun _ => Or.inr fun r hmem hr => hgroup ⟨r, hmem, hr.group, hr.groupAnswers⟩,
        fun _ => rfl⟩

/-- The calls before a place against the calls after it. -/
theorem pairwise_iff_splits {α : Type*} (R : α → α → Prop) (l : List α) :
    l.Pairwise R ↔ ∀ pre x post, l = pre ++ x :: post → ∀ y ∈ pre, R y x := by
  constructor
  · rintro h pre x post rfl y hy
    exact (List.pairwise_append.mp h).2.2 y hy x List.mem_cons_self
  · intro h
    rw [List.pairwise_iff_getElem]
    intro i j hi hj hij
    have hsplit : l = l.take j ++ l[j] :: l.drop (j + 1) := by
      rw [List.getElem_cons_drop, List.take_append_drop]
    refine h _ _ _ hsplit _ ?_
    rw [List.mem_take_iff_getElem]
    exact ⟨i, by omega, rfl⟩

theorem consistent_of_pairwise {config : VacConfig} {vlu : VluLdap}
    (hdefault : vlu.defaultMsg = Kind.user.defaultMsg config) {requests : List Request}
    (h : requests.Pairwise fun earlier later => ¬ Overtaken vlu.toLdapNames earlier later) :
    Consistent config vlu requests := by
  rw [pairwise_iff_splits] at h
  intro pre request post hsplit hok
  rw [serve_ok_iff, after_names] at hok
  exact (after_belongs_iff hdefault pre hok).mpr (Or.inr (h _ _ _ hsplit))

/-- The responder looks for a user first and for a group then, and so never goes wrong. -/
theorem consistent_users_first {calls : LdapCalls} {config : VacConfig} {calloc : Bool}
    {vlu : VluLdap} (hinit : ldapVluInit calls config calloc = some vlu)
    {users groups : List Request} (husers : ∀ r ∈ users, r.kind = .user)
    (hgroups : ∀ r ∈ groups, r.kind = .group) : Consistent config vlu (users ++ groups) := by
  refine consistent_of_pairwise (defaultMsg_of_init hinit) (List.pairwise_append.mpr ⟨?_, ?_, ?_⟩)
  · refine List.pairwise_of_forall_mem_list fun earlier hmem _ _ hover => ?_
    exact Kind.noConfusion ((husers earlier hmem).symm.trans hover.group)
  · refine List.pairwise_of_forall_mem_list fun _ _ later hmem hover => ?_
    exact Kind.noConfusion ((hgroups later hmem).symm.trans hover.user)
  · intro earlier hmem _ _ hover
    exact Kind.noConfusion ((husers earlier hmem).symm.trans hover.group)

theorem consistent_iff {calls : LdapCalls} {config : VacConfig} {calloc : Bool} {vlu : VluLdap}
    (hinit : ldapVluInit calls config calloc = some vlu) (requests : List Request) :
    Consistent config vlu requests ↔
      Kind.user.defaultMsg config = Kind.group.defaultMsg config ∨
        requests.Pairwise fun earlier later => ¬ Overtaken vlu.toLdapNames earlier later := by
  have hdefault := defaultMsg_of_init hinit
  constructor
  · intro h
    by_cases hsame : Kind.user.defaultMsg config = Kind.group.defaultMsg config
    · exact Or.inl hsame
    · rw [pairwise_iff_splits]
      refine Or.inr fun pre request post hsplit earlier hmem hover => ?_
      have hok : (serve config (after config vlu pre) request).1 = .ok := by
        rw [serve_ok_iff, after_names]
        exact hover.userAnswers
      rcases (after_belongs_iff hdefault pre hover.userAnswers).mp (h _ _ _ hsplit hok) with
        heq | hnone
      · exact hsame heq
      · exact hnone earlier hmem hover
  · rintro (hsame | hpair)
    · intro pre request post hsplit hok
      rw [serve_ok_iff, after_names] at hok
      exact (after_belongs_iff hdefault pre hok).mpr (Or.inl hsame)
    · exact consistent_of_pairwise hdefault hpair

/-- An entry without a message. -/
def replying (name : Bytes) : Entry where
  values attr := if attr = bytes "autoreply" then [bytes "TRUE"] else []
  rdn := name

/-- A directory in which the user bob and the group staff reply. -/
def bobAndStaff : LdapCalls where
  calloc := true
  ldapInitialize := true
  ldapSetOption := true
  ldapSaslBind := true
  search _ filter _ :=
    if filter = bytes "uid=bob" then .success [replying (bytes "bob")]
    else if filter = bytes "cn=staff" then .success [replying (bytes "staff")]
    else .success []
  clock := some 1700000000

def awayConfig : VacConfig where
  strings path :=
    if path = bytes "core.default_message" then some (bytes "I am away")
    else if path = bytes "core.default_group_message" then some (bytes "We are away")
    else directoryConfig.strings path
  seconds _ := 604800

def awayHandle : VluLdap :=
  ⟨⟨bytes "ou=People", bytes "ou=Groups", bytes "autoreply", bytes "attribute",
    bytes "attribute", bytes "attribute", bytes "attribute", bytes "attribute"⟩, none,
    bytes "I am away", none, 0, none⟩

theorem init_awayHandle : ldapVluInit bobAndStaff awayConfig true = some awayHandle := rfl

theorem consistent_user_first :
    Consistent awayConfig awayHandle
      [⟨.user, bobAndStaff, bytes "bob"⟩, ⟨.group, bobAndStaff, bytes "staff"⟩] := by
  refine (consistent_iff init_awayHandle _).mpr (Or.inr (List.pairwise_pair.mpr fun hover => ?_))
  exact Kind.noConfusion hover.user

/-- Bob has no message of his own and is answered with the message of groups. -/
theorem inconsistent_group_first :
    ldapVluInit bobAndStaff awayConfig true = some awayHandle ∧ ¬ Consistent awayConfig awayHandle
      [⟨.group, bobAndStaff, bytes "staff"⟩, ⟨.user, bobAndStaff, bytes "bob"⟩] := by
  refine ⟨init_awayHandle, fun h => ?_⟩
  obtain ⟨entry, -, hanswer⟩ := h [⟨.group, bobAndStaff, bytes "staff"⟩]
    ⟨.user, bobAndStaff, bytes "bob"⟩ [] rfl (by decide +kernel)
  have hmsg := congrArg VluLdap.defaultMsg hanswer
  revert hmsg
  change ¬ _ = bytes "I am away"
  decide +kernel

end Simvacation.Ldap
