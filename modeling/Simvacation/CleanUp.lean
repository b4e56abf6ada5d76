import Simvacation.Ldap
import Simvacation.Main

/-!
Who is cleaned up. `simunvacation` asks for users only, the responder asks for
a group as well when there is no such user. The two agree on a list of names
if no name on it is that of a group alone, and none is too long for a search.
-/

namespace Simvacation.CleanUp

open CString Yasl Vutil Vdb Vlu Ldap Main

variable {L : Type}

/-- The names for which `clean` is called, in the order of the calls. -/
def cleaned (cleaner : Cleaner L) : VLU L → List Bytes → List Bytes
  | _, [] => []
  | vluh, obj :: names =>
    match cleaner.vlu.search cleaner.config vluh (yaslauto (some obj)) with
    | none => []
    | some (.permfail, vluh) => obj :: cleaned cleaner vluh names
    | some (_, vluh) => cleaned cleaner vluh names

theorem clean_eq_foldl (cleaner : Cleaner L) (vluh : VLU L) (names : List Bytes) (store : Store) :
    (cleaner.clean vluh names store).2 = (cleaned cleaner vluh names).foldl
      (fun store obj => cleaner.vdb.clean store cleaner.vdbh (yaslauto (some obj))) store := by
  induction names generalizing vluh store with
  | nil => rfl
  | cons obj names ih =>
    unfold Cleaner.clean cleaned
    dsimp only
    rcases cleaner.vlu.search cleaner.config vluh (yaslauto (some obj)) with _ | ⟨result, vluh'⟩
    · rfl
    · cases result with
      | ok => exact ih vluh' store
      | permfail => exact ih vluh' _
      | tempfail => exact ih vluh' store

/-- How the user search for a name comes out, unless it crashes. -/
def userResult (cleaner : Cleaner L) (obj : Bytes) : Option VacResult :=
  (cleaner.vlu.search cleaner.config cleaner.vluh (yaslauto (some obj))).map Prod.fst

def groupResult (cleaner : Cleaner L) (obj : Bytes) : VacResult :=
  (cleaner.vlu.groupSearch cleaner.config cleaner.vluh (yaslauto (some obj))).1

/-- How the responder's lookup comes out, unless it crashes. -/
def lookupResult (cleaner : Cleaner L) (obj : Bytes) : Option VacResult :=
  (lookupRcpt cleaner.vlu cleaner.config cleaner.vluh (yaslauto (some obj))).map Prod.fst

/-- A backend whose searches come out the same on every handle that a run can have. -/
structure Steady (vlu : VluBackend L) (config : VacConfig) (Reachable : VLU L → Prop)
    (user : Bytes → Option VacResult) (group : Bytes → VacResult) : Prop where
  search : ∀ vluh rcpt, Reachable vluh →
    (vlu.search config vluh rcpt).map Prod.fst = user rcpt ∧
      ∀ found ∈ vlu.search config vluh rcpt, Reachable found.2
  groupSearch : ∀ vluh rcpt, Reachable vluh →
    (vlu.groupSearch config vluh rcpt).1 = group rcpt ∧
      Reachable (vlu.groupSearch config vluh rcpt).2

section

variable {vlu : VluBackend L} {config : VacConfig} {Reachable : VLU L → Prop}
  {user : Bytes → Option VacResult} {group : Bytes → VacResult} {vluh : VLU L}

/-- The responder's answer. -/
theorem Steady.lookupRcpt_eq (h : Steady vlu config Reachable user group) (hvluh : Reachable vluh)
    (rcpt : Bytes) : (lookupRcpt vlu config vluh rcpt).map Prod.fst =
      if user rcpt = some .permfail then some (group rcpt) else user rcpt := by
  obtain ⟨huser, hreach⟩ := h.search vluh rcpt hvluh
  unfold lookupRcpt
  rcases hsearch : vlu.search config vluh rcpt with _ | ⟨result, vluh'⟩
  · rw [hsearch, Option.map_none] at huser
    simp [← huser]
  · rw [hsearch, Option.map_some] at huser
    have hgroup := (h.groupSearch vluh' rcpt (hreach _ hsearch)).1
    rw [← huser]
    cases result with
    | ok => rfl
    | permfail => exact congrArg some hgroup
    | tempfail => rfl

/-- The other program's answers along its loop. -/
theorem Steady.cleaned_eq (h : Steady vlu config Reachable user group) (hvluh : Reachable vluh)
    (vdb : VdbBackend) (vdbh : VDB) (handle : VLU L) (names : List Bytes) :
    cleaned ⟨config, vdb, vdbh, vlu, handle⟩ vluh names =
      (names.takeWhile fun obj => (user (yaslauto (some obj))).isSome).filter fun obj =>
        user (yaslauto (some obj)) = some .permfail := by
  induction names generalizing vluh with
  | nil => rfl
  | cons obj names ih =>
    obtain ⟨huser, hreach⟩ := h.search vluh (yaslauto (some obj)) hvluh
    unfold cleaned
    dsimp only
    rcases hsearch : vlu.search config vluh (yaslauto (some obj)) with _ | ⟨result, vluh'⟩
    · rw [hsearch, Option.map_none] at huser
      simp [← huser]
    · rw [hsearch, Option.map_some] at huser
      have ih' := ih (hreach _ hsearch)
      cases result with
      | ok => simp [← huser, ih']
      | permfail => simp [← huser, ih']
      | tempfail => simp [← huser, ih']

/-- The names that pass one test up to a certain name, against those that pass both anywhere. -/
theorem filter_eq_filter_iff {α : Type} (fits user group : α → Bool) (names : List α) :
    (names.takeWhile fits).filter user = names.filter (fun a => user a && group a) ↔
      (∀ a ∈ names.takeWhile fits, user a = true → group a = true) ∧
        ∀ a ∈ names.dropWhile fits, user a = true → group a = false := by
  have hsplit : names.filter (fun a => user a && group a) =
      (names.takeWhile fits).filter (fun a => user a && group a) ++
        (names.dropWhile fits).filter (fun a => user a && group a) := by
    rw [← List.filter_append, List.takeWhile_append_dropWhile]
  have hfront : (∀ a ∈ names.takeWhile fits, user a = true → group a = true) →
      (names.takeWhile fits).filter user =
        (names.takeWhile fits).filter (fun a => user a && group a) := by
    intro hall
    apply List.filter_congr
    intro a ha
    cases huser : user a with
    | false => rfl
    | true => simp [hall a ha huser]
  rw [hsplit]
  constructor
  · intro heq
    have hall : ∀ a ∈ names.takeWhile fits, user a = true → group a = true := by
      intro a ha huser
      have hmem : a ∈ (names.takeWhile fits).filter user := List.mem_filter.mpr ⟨ha, huser⟩
      rw [heq, ← List.filter_append, List.mem_filter, Bool.and_eq_true] at hmem
      exact hmem.2.2
    refine ⟨hall, fun a ha huser => ?_⟩
    rw [hfront hall, List.self_eq_append_right, List.filter_eq_nil_iff] at heq
    simpa [huser] using heq a ha
  · intro hparts
    obtain ⟨hall, hrest⟩ := hparts
    rw [hfront hall, List.self_eq_append_right, List.filter_eq_nil_iff]
    intro a ha hboth
    rw [Bool.and_eq_true] at hboth
    rw [hrest a ha hboth.1] at hboth
    exact absurd hboth.2 (by decide)

theorem Steady.cleaned_eq_iff {vdb : VdbBackend} {vdbh : VDB}
    (h : Steady vlu config Reachable user group) (hvluh : Reachable vluh) (names : List Bytes) :
    let cleaner : Cleaner L := ⟨config, vdb, vdbh, vlu, vluh⟩
    cleaned cleaner vluh names =
        names.filter (fun obj => lookupResult cleaner obj = some .permfail) ↔
      (∀ obj ∈ names.takeWhile fun obj => (userResult cleaner obj).isSome,
        userResult cleaner obj = some .permfail → groupResult cleaner obj = .permfail) ∧
      ∀ obj ∈ names.dropWhile fun obj => (userResult cleaner obj).isSome,
        userResult cleaner obj = some .permfail → groupResult cleaner obj ≠ .permfail := by
  intro cleaner
  have huser : ∀ obj, userResult cleaner obj = user (yaslauto (some obj)) :=
    fun obj => (h.search vluh _ hvluh).1
  have hgroup : ∀ obj, groupResult cleaner obj = group (yaslauto (some obj)) :=
    fun obj => (h.groupSearch vluh _ hvluh).1
  have hlookup : ∀ obj, decide (lookupResult cleaner obj = some .permfail) =
      (decide (user (yaslauto (some obj)) = some .permfail) &&
        decide (group (yaslauto (some obj)) = .permfail)) := by
    intro obj
    rw [lookupResult, h.lookupRcpt_eq hvluh, ← Bool.decide_and, decide_eq_decide]
    split <;> simp_all
  simp only [h.cleaned_eq hvluh, cleaner, huser, hgroup, hlookup]
  rw [filter_eq_filter_iff]
  simp only [decide_eq_true_eq, decide_eq_false_iff_not, ne_eq]

end

theorem steady_null (config : VacConfig) :
    Steady (nullVlu : VluBackend L) config (fun _ => True) (fun _ => some .ok) (fun _ => .ok) :=
  ⟨fun _ _ _ => ⟨rfl, fun _ _ => trivial⟩, fun _ _ _ => ⟨rfl, trivial⟩⟩

theorem steady_ldap (calls : LdapCalls) (config : VacConfig) (names : LdapNames) :
    Steady (ldapVlu calls) config (fun vluh => ∃ vlu, vluh = .ldap vlu ∧ vlu.toLdapNames = names)
      (fun rcpt => if filterSize ≤ (searchFilter rcpt).length then none
        else some (outcome calls names (searchFilter rcpt) names.searchBase))
      (fun rcpt => outcome calls names (cstr (groupSearchFilter rcpt)) names.groupSearchBase) := by
  constructor
  · rintro vluh rcpt ⟨vlu, rfl, rfl⟩
    obtain ⟨hout, hnames⟩ := ldapVluSearch_outcome calls config vlu rcpt
    have hsearch : (ldapVlu calls).search config (.ldap vlu) rcpt =
        if filterSize ≤ (searchFilter rcpt).length then none
        else some (onLdap (fun vlu => ldapVluSearch calls config vlu rcpt) (.ldap vlu)) := rfl
    rw [hsearch]
    by_cases hfits : filterSize ≤ (searchFilter rcpt).length
    · rw [if_pos hfits, if_pos hfits]
      exact ⟨rfl, by simp⟩
    · rw [if_neg hfits, if_neg hfits]
      refine ⟨congrArg some hout, fun found hfound => ?_⟩
      cases hfound
      exact ⟨_, rfl, hnames⟩
  · rintro vluh rcpt ⟨vlu, rfl, rfl⟩
    obtain ⟨hout, hnames⟩ := ldapVluGroupSearch_outcome calls config vlu rcpt
    exact ⟨hout, _, rfl, hnames⟩

theorem vluBackend_cases {build : Build} {ldap : VluBackend L} {provider : Bytes}
    {vlu : VluBackend L} (h : vluBackend build ldap provider = some vlu) :
    vlu = ldap ∨ vlu = nullVlu := by
  unfold vluBackend at h
  repeat' split at h
  all_goals cases h
  · exact Or.inl rfl
  · exact Or.inr rfl

/-- A directory with a group that replies and no users. -/
def onlyStaff : LdapCalls where
  calloc := true
  ldapInitialize := true
  ldapSetOption := true
  ldapSaslBind := true
  search searchBase filter _ :=
    if searchBase = bytes "ou=Groups" ∧ filter = bytes "cn=staff" then
      .success
        [⟨fun attr => if attr = bytes "autoreply" then [bytes "TRUE"] else [], bytes "staff"⟩]
    else .success []
  clock := some 1700000000

def directoryConfig : VacConfig where
  strings path :=
    if path = bytes "ldap.search_base" then some (bytes "ou=People")
    else if path = bytes "ldap.group_search_base" then some (bytes "ou=Groups")
    else if path = bytes "ldap.attributes.vacation" then some (bytes "autoreply")
    else some (bytes "attribute")
  seconds _ := 604800

/-- The handle of a run with this configuration. -/
def directoryHandle : VLU VluLdap :=
  .ldap ⟨⟨bytes "ou=People", bytes "ou=Groups", bytes "autoreply", bytes "attribute",
    bytes "attribute", bytes "attribute", bytes "attribute", bytes "attribute"⟩, none,
    bytes "attribute", none, 0, none⟩

def directoryCleaner : Cleaner VluLdap :=
  ⟨directoryConfig, nullVdb, ⟨[]⟩, ldapVlu onlyStaff, directoryHandle⟩

end Simvacation.CleanUp
