import Simvacation.CleanUp

/-!
Runs that are tried again. The mail system repeats a run that exits with
`EX_TEMPFAIL`, so such a run should have no effect, and a run that a failure
stops should exit that way. A failure is one of a call that the run makes: the
library's search, the clock, the connection, `fork`. Three steps break this: a
search takes some failed calls for an answer, a reply store that cannot be
opened is no failure to `main`, and the reply is on record before the mailer
is started, which can also run with nothing to read.
-/

namespace Simvacation.RetrySafety

open CString Yasl Vutil SendMessage Vdb Vlu Ldap Main CleanUp

section

variable {L : Type}

/-- Up to the lookups: the handle is as `init` leaves it. -/
def ready (args : Args) (world : World L) : Except Ending (Found L) := do
  let operand ← orDone .usage args.operands.head?
  doneIf .usage (args.parse.retval ≠ .ok)
  let rcpt := yaslauto (some operand)
  let config ← orDone .readConfig (readVacationConfig world.config args.parse.configFile)
  let provider ← orCrash (config.strings (bytes "core.vdb"))
  let vdb ← orDone .vdbBackend (vdbBackend world.build provider)
  let provider ← orCrash (config.strings (bytes "core.vlu"))
  let vlu ← orDone .vluBackend (vluBackend world.build world.ldapVlu provider)
  let vluh ← orDone .vluInit (vlu.init config world.calloc)
  pure ⟨config, vdb, vlu, vluh, rcpt⟩

/-- Reading the configuration or setting up a backend. -/
inductive SetUpFails (args : Args) (world : World L) : Prop
  | config {operand : Bytes} (hoperand : args.operands.head? = some operand)
    (hoptions : args.parse.retval = .ok)
    (hconfig : readVacationConfig world.config args.parse.configFile = none)
  | vdb {operand provider : Bytes} {config : VacConfig}
    (hoperand : args.operands.head? = some operand) (hoptions : args.parse.retval = .ok)
    (hconfig : readVacationConfig world.config args.parse.configFile = some config)
    (hprovider : config.strings (bytes "core.vdb") = some provider)
    (hvdb : vdbBackend world.build provider = none)
  | vlu {operand provider provider' : Bytes} {config : VacConfig} {vdb : VdbBackend}
    (hoperand : args.operands.head? = some operand) (hoptions : args.parse.retval = .ok)
    (hconfig : readVacationConfig world.config args.parse.configFile = some config)
    (hprovider : config.strings (bytes "core.vdb") = some provider)
    (hvdb : vdbBackend world.build provider = some vdb)
    (hprovider' : config.strings (bytes "core.vlu") = some provider')
    (hvlu : vluBackend world.build world.ldapVlu provider' = none)
  | init {operand provider provider' : Bytes} {config : VacConfig} {vdb : VdbBackend}
    {vlu : VluBackend L}
    (hoperand : args.operands.head? = some operand) (hoptions : args.parse.retval = .ok)
    (hconfig : readVacationConfig world.config args.parse.configFile = some config)
    (hprovider : config.strings (bytes "core.vdb") = some provider)
    (hvdb : vdbBackend world.build provider = some vdb)
    (hprovider' : config.strings (bytes "core.vlu") = some provider')
    (hvlu : vluBackend world.build world.ldapVlu provider' = some vlu)
    (hinit : vlu.init config world.calloc = none)

theorem SetUpFails.ready {args : Args} {world : World L} (h : SetUpFails args world) :
    ∃ site, ready args world = .error (.done site) ∧ site.retval = .tempfail := by
  cases h with
  | config hoperand hoptions hconfig =>
    exact ⟨.readConfig, by simp [RetrySafety.ready, hoperand, hoptions, hconfig, orDone, doneIf,
      bind, Except.bind], rfl⟩
  | vdb hoperand hoptions hconfig hprovider hvdb =>
    exact ⟨.vdbBackend, by simp [RetrySafety.ready, hoperand, hoptions, hconfig, hprovider, hvdb,
      orDone, orCrash, doneIf, bind, Except.bind], rfl⟩
  | vlu hoperand hoptions hconfig hprovider hvdb hprovider' hvlu =>
    exact ⟨.vluBackend, by simp [RetrySafety.ready, hoperand, hoptions, hconfig, hprovider, hvdb,
      hprovider', hvlu, orDone, orCrash, doneIf, bind, Except.bind], rfl⟩
  | init hoperand hoptions hconfig hprovider hvdb hprovider' hvlu hinit =>
    exact ⟨.vluInit, by simp [RetrySafety.ready, hoperand, hoptions, hconfig, hprovider, hvdb,
      hprovider', hvlu, hinit, orDone, orCrash, doneIf, bind, Except.bind], rfl⟩

theorem lookup_eq (args : Args) (world : World L) : lookup args world = (do
    let found ← ready args world
    let result ← orCrash (lookupRcpt found.vlu found.config found.vluh found.rcpt)
    let vluh ← orLookupDone result
    pure { found with vluh := vluh }) := by
  unfold lookup ready
  simp only [bind_assoc, pure_bind]

end

/-- The library's search fails, or finds its entry when the clock cannot be read. -/
def SearchFails (calls : LdapCalls) (names : LdapNames) (filter searchBase : Bytes) : Prop :=
  (∃ rc, calls.search searchBase filter names.attrs = .failed rc) ∨
    (∃ entry, calls.search searchBase filter names.attrs = .success [entry]) ∧ calls.clock = none

/-- Such a failure, when the search takes it for the answer that nobody is away. -/
def Hidden (calls : LdapCalls) (names : LdapNames) (filter searchBase : Bytes) : Prop :=
  calls.search searchBase filter names.attrs = .failed .unlisted ∨
    (∃ entry, calls.search searchBase filter names.attrs = .success [entry]) ∧ calls.clock = none

/-- A call of the lookup fails. The group is searched for after a permanent failure. -/
def LookupFails (calls : LdapCalls) (found : Found VluLdap) : Prop :=
  ∃ handle, found.vluh = .ldap handle ∧ (searchFilter found.rcpt).length < filterSize ∧
    (SearchFails calls handle.toLdapNames (searchFilter found.rcpt) handle.searchBase ∨
      outcome calls handle.toLdapNames (searchFilter found.rcpt) handle.searchBase = .permfail ∧
        SearchFails calls handle.toLdapNames (cstr (groupSearchFilter found.rcpt))
          handle.groupSearchBase)

/-- The run is stopped by a step that failed; the last is the start of the mailer. -/
inductive Failed (calls : LdapCalls) (args : Args) (world : World VluLdap) (store : Store) : Prop
  | setUp (h : SetUpFails args world)
  | lookup {found : Found VluLdap} (hready : ready args world = .ok found)
    (hcall : LookupFails calls found)
    (hstop : ∀ vluh, lookupRcpt found.vlu found.config found.vluh found.rcpt ≠ some (.ok, vluh))
  | store {found : Found VluLdap} (hlookup : lookup args world = .ok found)
    (hinit : found.init world.init = none)
  | mailer {m : Accepted VluLdap} {sender canon : Bytes}
    (hadmitted : admitted args world = .ok (m, sender, canon))
    (hquery : (m.query world.recent store canon).1 ≠ .recent)
    (hargs : sendmailArgs m.config.strings ≠ [])
    (hstart : ¬ (world.pexecv.parent = true ∧ world.pexecv.child = true))

def TempFailed (o : Outcome) : Prop := o.ending.exitCode = some .tempfail

instance (o : Outcome) : Decidable (TempFailed o) :=
  inferInstanceAs (Decidable (o.ending.exitCode = some .tempfail))

/-- What a mailer that was started submits. It reads nothing at all when the parent stops
behind `fork`. -/
def submitted (o : Outcome) : Option (Command × Bytes) :=
  o.sending.bind fun s => s.mailer.map fun mailer => (mailer, s.printed.getD [])

/-- A run that can be repeated. -/
structure RetrySafe (calls : LdapCalls) (args : Args) (world : World VluLdap) (store : Store) :
    Prop where
  tempfail : Failed calls args world store → TempFailed (main args world store)
  silent : TempFailed (main args world store) → submitted (main args world store) = none
  kept : TempFailed (main args world store) → (main args world store).store = store
  again : TempFailed (main args world store) → ∀ world' : World VluLdap,
    main args world' (main args world store).store = main args world' store

/-- When neither search finds anyone away, no failure of a call is behind it. -/
def Tells (calls : LdapCalls) (found : Found VluLdap) : Prop :=
  ∀ handle, found.vluh = .ldap handle → (searchFilter found.rcpt).length < filterSize →
    outcome calls handle.toLdapNames (searchFilter found.rcpt) handle.searchBase = .permfail →
    outcome calls handle.toLdapNames (cstr (groupSearchFilter found.rcpt))
        handle.groupSearchBase = .permfail →
      ¬ Hidden calls handle.toLdapNames (searchFilter found.rcpt) handle.searchBase ∧
      ¬ Hidden calls handle.toLdapNames (cstr (groupSearchFilter found.rcpt))
        handle.groupSearchBase

/-- So it is whenever the run comes to the lookup. -/
def LookupTells (calls : LdapCalls) (args : Args) (world : World VluLdap) : Prop :=
  ∀ found, ready args world = .ok found → Tells calls found

/-- The reply store opens whenever the run comes to it. -/
def StoreOpens (args : Args) (world : World VluLdap) : Prop :=
  ∀ found, lookup args world = .ok found → found.init world.init ≠ none

/-- Whenever the run comes to `send_message`, and the command names a program, the mailer
starts and the parent goes on, or neither, and then nothing was written before. -/
def MailerStarts (args : Args) (world : World VluLdap) (store : Store) : Prop :=
  ∀ m sender canon, admitted args world = .ok (m, sender, canon) →
    (m.query world.recent store canon).1 ≠ .recent → sendmailArgs m.config.strings ≠ [] →
      (world.pexecv.parent = true ∧ world.pexecv.child = true) ∨
      (world.pexecv.parent = false ∧ world.pexecv.child = false ∧
        m.record world.storeReply (m.query world.recent store canon).2 canon = store)

section

variable {calls : LdapCalls} {args : Args} {world : World VluLdap} {store : Store}

theorem retrySafe_iff_not_failed (h : ¬ TempFailed (main args world store)) :
    RetrySafe calls args world store ↔ ¬ Failed calls args world store := by
  constructor
  · exact fun hsafe hfailed => h (hsafe.tempfail hfailed)
  · intro hfailed
    exact ⟨fun hf => absurd hf hfailed, fun ht => absurd ht h, fun ht => absurd ht h,
      fun ht => absurd ht h⟩

theorem retrySafe_iff_kept (h : TempFailed (main args world store)) :
    RetrySafe calls args world store ↔
      submitted (main args world store) = none ∧ (main args world store).store = store := by
  constructor
  · exact fun hsafe => ⟨hsafe.silent h, hsafe.kept h⟩
  · intro hparts
    obtain ⟨hsilent, hkept⟩ := hparts
    refine ⟨fun _ => h, fun _ => hsilent, fun _ => hkept, fun _ world' => ?_⟩
    rw [hkept]

/-- A run that stops before the query. -/
theorem retrySafe_of_stop {ending : Ending} (h : admitted args world = .error ending) :
    RetrySafe calls args world store ↔
      (Failed calls args world store → ending.exitCode = some .tempfail) := by
  have hmain : main args world store = ⟨ending, store, false, none⟩ := by
    simp only [main, h]
  by_cases htemp : TempFailed (main args world store)
  · rw [retrySafe_iff_kept htemp]
    rw [hmain] at htemp ⊢
    exact iff_of_true ⟨rfl, rfl⟩ fun _ => htemp
  · rw [retrySafe_iff_not_failed htemp]
    rw [hmain] at htemp
    exact ⟨fun hfailed hf => absurd hf hfailed, fun htells hf => htemp (htells hf)⟩

/-- A run that stops before the query meets the last condition. -/
theorem mailerStarts_of_stop {ending : Ending} (h : admitted args world = .error ending) :
    MailerStarts args world store := by
  intro m sender canon hadmitted
  rw [h] at hadmitted
  cases hadmitted

theorem admitted_of_lookup_error {ending : Ending} (h : lookup args world = .error ending) :
    admitted args world = .error ending := by
  simp only [admitted, accept, h, bind, Except.bind]

theorem storeOpens_of_stop {ending : Ending} (h : lookup args world = .error ending) :
    StoreOpens args world := by
  intro found hlookup
  rw [h] at hlookup
  cases hlookup

/-- Before the reply store is opened, only the set-up and the lookup can fail. -/
theorem failed_of_lookup_error {ending : Ending} (h : lookup args world = .error ending)
    (hfailed : Failed calls args world store) : SetUpFails args world ∨
      ∃ found, ready args world = .ok found ∧ LookupFails calls found := by
  cases hfailed with
  | setUp hsetUp => exact Or.inl hsetUp
  | lookup hready hcall => exact Or.inr ⟨_, hready, hcall⟩
  | store hlookup =>
    rw [h] at hlookup
    cases hlookup
  | mailer hadmitted =>
    rw [admitted_of_lookup_error h] at hadmitted
    cases hadmitted

/-- A run that is not set up exits as it should. -/
theorem retrySafe_of_not_ready {ending : Ending} (h : ready args world = .error ending) :
    RetrySafe calls args world store ∧ LookupTells calls args world ∧ StoreOpens args world ∧
      MailerStarts args world store := by
  have hlookup : lookup args world = .error ending := by
    rw [lookup_eq, h]
    rfl
  have hadmitted := admitted_of_lookup_error hlookup
  refine ⟨(retrySafe_of_stop hadmitted).mpr fun hfailed => ?_, fun found hready => ?_,
    storeOpens_of_stop hlookup, mailerStarts_of_stop hadmitted⟩
  · rcases failed_of_lookup_error hlookup hfailed with hsetUp | ⟨found, hready, -⟩
    · obtain ⟨site, hready, hretval⟩ := hsetUp.ready
      rw [h] at hready
      cases hready
      exact congrArg some hretval
    · rw [h] at hready
      cases hready
  · rw [h] at hready
    cases hready

theorem searchFails_iff_hidden {names : LdapNames} {filter searchBase : Bytes}
    (h : outcome calls names filter searchBase = .permfail) :
    SearchFails calls names filter searchBase ↔ Hidden calls names filter searchBase := by
  unfold SearchFails Hidden
  refine or_congr_left ⟨fun hfailed => ?_, fun hfailed => ⟨_, hfailed⟩⟩
  obtain ⟨rc, hrc⟩ := hfailed
  rw [outcome, hrc] at h
  cases rc with
  | unlisted => exact hrc
  | serverDown => cases h
  | timeout => cases h
  | busy => cases h
  | unavailable => cases h
  | other => cases h
  | localError => cases h

/-- The handle belongs to the backend. -/
theorem ready_eq_ok (hldap : world.ldapVlu = ldapVlu calls) {found : Found VluLdap}
    (h : ready args world = .ok found) :
    (found.vlu = nullVlu ∧ found.vluh = .null) ∨
      ∃ handle, found.vlu = ldapVlu calls ∧ found.vluh = .ldap handle := by
  unfold ready at h
  simp only [bind_eq_ok, orDone_eq_ok, orCrash_eq_ok, doneIf_eq_ok] at h
  obtain ⟨operand, -, -, -, config, -, provider, -, vdb, -, provider', -, vlu, hvlu, vluh, hinit,
    h⟩ := h
  cases h
  rw [hldap] at hvlu
  rcases vluBackend_cases hvlu with rfl | rfl
  · obtain ⟨handle, -, hhandle⟩ := Option.map_eq_some_iff.mp hinit
    exact Or.inr ⟨handle, rfl, hhandle.symm⟩
  · have hnull : (if world.calloc = true then some VLU.null else none) = some vluh := hinit
    split at hnull
    · exact Or.inl ⟨rfl, (Option.some.inj hnull).symm⟩
    · cases hnull

/-- The lookup of a name that fits the filter. -/
theorem lookupRcpt_of_fits (calls : LdapCalls) (config : VacConfig) (handle : VluLdap)
    {rcpt : Bytes} (h : (searchFilter rcpt).length < filterSize) :
    ∃ r vluh, lookupRcpt (ldapVlu calls) config (.ldap handle) rcpt = some (r, vluh) ∧
      r = if outcome calls handle.toLdapNames (searchFilter rcpt) handle.searchBase = .permfail
        then outcome calls handle.toLdapNames (cstr (groupSearchFilter rcpt))
          handle.groupSearchBase
        else outcome calls handle.toLdapNames (searchFilter rcpt) handle.searchBase := by
  have hreach : ∃ vlu, VLU.ldap handle = .ldap vlu ∧ vlu.toLdapNames = handle.toLdapNames :=
    ⟨handle, rfl, rfl⟩
  have heq := (steady_ldap calls config handle.toLdapNames).lookupRcpt_eq hreach rcpt
  rw [if_neg (not_le.mpr h)] at heq
  rcases hresult : lookupRcpt (ldapVlu calls) config (.ldap handle) rcpt with _ | ⟨r, vluh⟩
  · rw [hresult] at heq
    split at heq <;> cases heq
  · refine ⟨r, vluh, rfl, ?_⟩
    rw [hresult, Option.map_some] at heq
    simp only [Option.some_inj] at heq
    split at heq <;> rename_i hperm
    · rw [if_pos hperm]
      exact Option.some.inj heq
    · rw [if_neg hperm]
      exact Option.some.inj heq

theorem lookupRcpt_of_long (calls : LdapCalls) (config : VacConfig) (handle : VluLdap)
    {rcpt : Bytes} (h : ¬ (searchFilter rcpt).length < filterSize) :
    lookupRcpt (ldapVlu calls) config (.ldap handle) rcpt = none := by
  have hsearch : (ldapVlu calls).search config (.ldap handle) rcpt = none :=
    if_pos (not_lt.mp h)
  simp only [lookupRcpt, hsearch]

/-- A permanent failure tells of no failed call exactly when there was none. -/
theorem tells_iff_not_lookupFails {found : Found VluLdap} {handle : VluLdap}
    (hhandle : found.vluh = .ldap handle) (hfits : (searchFilter found.rcpt).length < filterSize)
    (huser : outcome calls handle.toLdapNames (searchFilter found.rcpt) handle.searchBase =
      .permfail)
    (hgroup : outcome calls handle.toLdapNames (cstr (groupSearchFilter found.rcpt))
      handle.groupSearchBase = .permfail) :
    Tells calls found ↔ ¬ LookupFails calls found := by
  constructor
  · intro htells hfails
    obtain ⟨hno, hno'⟩ := htells handle hhandle hfits huser hgroup
    obtain ⟨handle', hhandle', -, hcall⟩ := hfails
    rw [hhandle] at hhandle'
    cases hhandle'
    rw [searchFails_iff_hidden huser, searchFails_iff_hidden hgroup] at hcall
    rcases hcall with hcall | ⟨-, hcall⟩
    · exact hno hcall
    · exact hno' hcall
  · intro hfails handle' hhandle' _ _ _
    rw [hhandle] at hhandle'
    cases hhandle'
    rw [← searchFails_iff_hidden huser, ← searchFails_iff_hidden hgroup]
    exact ⟨fun hcall => hfails ⟨handle, hhandle, hfits, Or.inl hcall⟩,
      fun hcall => hfails ⟨handle, hhandle, hfits, Or.inr ⟨huser, hcall⟩⟩⟩

/-- How the lookup of a run comes out, and which of its failed calls can be seen from it. -/
theorem lookupRcpt_cases (hldap : world.ldapVlu = ldapVlu calls) {found : Found VluLdap}
    (h : ready args world = .ok found) :
    let result := lookupRcpt found.vlu found.config found.vluh found.rcpt
    (result = none ∧ ¬ LookupFails calls found ∧ Tells calls found) ∨
    (∃ vluh, result = some (.ok, vluh) ∧ Tells calls found) ∨
    (∃ vluh, result = some (.tempfail, vluh) ∧ Tells calls found) ∨
    ∃ vluh, result = some (.permfail, vluh) ∧ (Tells calls found ↔ ¬ LookupFails calls found) := by
  intro result
  rcases ready_eq_ok hldap h with ⟨hvlu, hvluh⟩ | ⟨handle, hvlu, hvluh⟩
  · have hresult : result = some (.ok, found.vluh) := by
      simp only [result, hvlu]
      rfl
    refine Or.inr (Or.inl ⟨found.vluh, hresult, fun handle hhandle => ?_⟩)
    rw [hvluh] at hhandle
    cases hhandle
  · by_cases hfits : (searchFilter found.rcpt).length < filterSize
    · obtain ⟨r, vluh, hlookup, hr⟩ := lookupRcpt_of_fits calls found.config handle hfits
      have hresult : result = some (r, vluh) := by
        simp only [result, hvlu, hvluh]
        exact hlookup
      by_cases hboth : outcome calls handle.toLdapNames (searchFilter found.rcpt)
            handle.searchBase = .permfail ∧
          outcome calls handle.toLdapNames (cstr (groupSearchFilter found.rcpt))
            handle.groupSearchBase = .permfail
      · obtain ⟨huser, hgroup⟩ := hboth
        rw [if_pos huser, hgroup] at hr
        subst hr
        exact Or.inr (Or.inr (Or.inr
          ⟨vluh, hresult, tells_iff_not_lookupFails hvluh hfits huser hgroup⟩))
      · have htells : Tells calls found := by
          intro handle' hhandle' _ huser hgroup
          rw [hvluh] at hhandle'
          cases hhandle'
          exact absurd ⟨huser, hgroup⟩ hboth
        cases r with
        | ok => exact Or.inr (Or.inl ⟨vluh, hresult, htells⟩)
        | tempfail => exact Or.inr (Or.inr (Or.inl ⟨vluh, hresult, htells⟩))
        | permfail =>
          split at hr <;> rename_i huser
          · exact absurd ⟨huser, hr.symm⟩ hboth
          · exact absurd hr.symm huser
    · have hresult : result = none := by
        simp only [result, hvlu, hvluh]
        exact lookupRcpt_of_long calls found.config handle hfits
      refine Or.inl ⟨hresult, fun hfails => ?_, fun _ _ hfits' => absurd hfits' hfits⟩
      obtain ⟨-, -, hfits', -⟩ := hfails
      exact hfits hfits'

theorem ready_of_lookup {found : Found VluLdap} (h : lookup args world = .ok found) :
    ∃ start vluh, ready args world = .ok start ∧
      lookupRcpt start.vlu start.config start.vluh start.rcpt = some (.ok, vluh) := by
  rw [lookup_eq] at h
  simp only [bind_eq_ok, orCrash_eq_ok] at h
  obtain ⟨start, hready, ⟨r, vluh⟩, hresult, vluh', hdone, -⟩ := h
  cases r with
  | ok => exact ⟨start, vluh, hready, hresult⟩
  | permfail => cases hdone
  | tempfail => cases hdone

/-- Once the recipient is found, only the reply store and the mailer can fail. -/
theorem failed_of_lookup {found : Found VluLdap} (h : lookup args world = .ok found)
    (hfailed : Failed calls args world store) : found.init world.init = none ∨
      ∃ m sender canon, admitted args world = .ok (m, sender, canon) ∧
        (m.query world.recent store canon).1 ≠ .recent ∧ sendmailArgs m.config.strings ≠ [] ∧
        ¬ (world.pexecv.parent = true ∧ world.pexecv.child = true) := by
  obtain ⟨start, vluh, hready, hresult⟩ := ready_of_lookup h
  cases hfailed with
  | setUp hsetUp =>
    obtain ⟨site, hnot, -⟩ := hsetUp.ready
    rw [hready] at hnot
    cases hnot
  | lookup hready' _ hstop =>
    rw [hready] at hready'
    cases hready'
    exact absurd hresult (hstop vluh)
  | store hlookup hinit =>
    rw [h] at hlookup
    cases hlookup
    exact Or.inl hinit
  | mailer hadmitted hquery hargs hstart =>
    exact Or.inr ⟨_, _, _, hadmitted, hquery, hargs, hstart⟩

/-- A run that stops at the lookup. -/
theorem retrySafe_of_lookup_error {found : Found VluLdap} {ending : Ending}
    (hready : ready args world = .ok found) (hlookup : lookup args world = .error ending)
    (hstop : ∀ vluh, lookupRcpt found.vlu found.config found.vluh found.rcpt ≠ some (.ok, vluh)) :
    RetrySafe calls args world store ↔
      (LookupFails calls found → ending.exitCode = some .tempfail) := by
  rw [retrySafe_of_stop (admitted_of_lookup_error hlookup)]
  constructor
  · exact fun htells hcall => htells (.lookup hready hcall hstop)
  · intro htells hfailed
    rcases failed_of_lookup_error hlookup hfailed with hsetUp | ⟨found', hready', hcall⟩
    · obtain ⟨site, hnot, -⟩ := hsetUp.ready
      rw [hready] at hnot
      cases hnot
    · rw [hready] at hready'
      cases hready'
      exact htells hcall

/-- A run that comes to `send_message` with a command. -/
theorem retrySafe_of_send {s : Sending} {store' : Store}
    (h : main args world store = ⟨sendEnding world.brokenPipe (some s), store', true, some s⟩)
    (hretval : s.retval = if world.pexecv.parent then .ok else .tempfail)
    (hprinted : s.printed.isSome = world.pexecv.parent)
    (hmailer : s.mailer.isSome = world.pexecv.child)
    (hfailed : Failed calls args world store ↔
      ¬ (world.pexecv.parent = true ∧ world.pexecv.child = true)) :
    RetrySafe calls args world store ↔
      (world.pexecv.parent = true ∧ world.pexecv.child = true) ∨
        (world.pexecv.parent = false ∧ world.pexecv.child = false ∧ store' = store) := by
  cases hparent : world.pexecv.parent with
  | false =>
    rw [hparent] at hretval hprinted
    have hnone : s.printed = none := Option.isNone_iff_eq_none.mp (by simp [← Option.not_isSome,
      hprinted])
    have htemp : TempFailed (main args world store) := by
      rw [h]
      simp [TempFailed, sendEnding, hnone, hretval, Ending.exitCode, Site.retval]
    have hsilent : submitted (main args world store) = none ↔ world.pexecv.child = false := by
      rw [h, ← hmailer]
      cases hm : s.mailer <;> simp [submitted, hm]
    rw [retrySafe_iff_kept htemp, hsilent, h]
    simp
  | true =>
    rw [hparent] at hretval hfailed
    have htemp : ¬ TempFailed (main args world store) := by
      rw [h]
      simp only [TempFailed, sendEnding]
      split <;> simp [Ending.exitCode, Site.retval, hretval]
    rw [retrySafe_iff_not_failed htemp, hfailed]
    simp

theorem retrySafe_of_admitted {m : Accepted VluLdap} {sender canon : Bytes}
    (h : admitted args world = .ok (m, sender, canon)) : RetrySafe calls args world store ↔
      MailerStarts args world store := by
  have haccept : accept args world = .ok m := by
    simp only [admitted, bind_eq_ok] at h
    obtain ⟨m', haccept, sender', -, hpure⟩ := h
    cases hpure
    exact haccept
  obtain ⟨hlookup, hinit⟩ := accept_eq_ok haccept
  have hmain : main args world store = m.respond world store sender canon := by
    simp only [main, h]
  have hfailed : Failed calls args world store ↔
      (m.query world.recent store canon).1 ≠ .recent ∧ sendmailArgs m.config.strings ≠ [] ∧
        ¬ (world.pexecv.parent = true ∧ world.pexecv.child = true) := by
    constructor
    · intro hcases
      rcases failed_of_lookup hlookup hcases with hnone | ⟨m', sender', canon', hadmitted, hparts⟩
      · rw [hinit] at hnone
        cases hnone
      · rw [h] at hadmitted
        cases hadmitted
        exact hparts
    · intro hparts
      obtain ⟨hquery, hargs, hstart⟩ := hparts
      exact .mailer h hquery hargs hstart
  have hmailer : MailerStarts args world store ↔
      ((m.query world.recent store canon).1 ≠ .recent → sendmailArgs m.config.strings ≠ [] →
        (world.pexecv.parent = true ∧ world.pexecv.child = true) ∨
        (world.pexecv.parent = false ∧ world.pexecv.child = false ∧
          m.record world.storeReply (m.query world.recent store canon).2 canon = store)) := by
    constructor
    · exact fun hstarts => hstarts m sender canon h
    · intro hstarts m' sender' canon' h'
      rw [h] at h'
      cases h'
      exact hstarts
  rw [hmailer]
  by_cases hrecent : (m.query world.recent store canon).1 = .recent
  · rw [respond_of_recent hrecent] at hmain
    have htemp : ¬ TempFailed (main args world store) := by
      rw [hmain]
      intro hexit
      cases hexit
    rw [retrySafe_iff_not_failed htemp, hfailed]
    exact iff_of_true (fun hparts => hparts.1 hrecent) fun hne => absurd hrecent hne
  · rw [respond_of_not_recent hrecent] at hmain
    by_cases hargs : sendmailArgs m.config.strings = []
    · rw [send_of_no_args hargs] at hmain
      have htemp : ¬ TempFailed (main args world store) := by
        rw [hmain]
        intro hexit
        cases hexit
      rw [retrySafe_iff_not_failed htemp, hfailed]
      exact iff_of_true (fun hparts => hparts.2.1 hargs) fun _ hne => absurd hargs hne
    · obtain ⟨s, hs, hretval, hprinted, hchild⟩ := send_of_args hargs
      rw [hs] at hmain
      have hstart : Failed calls args world store ↔
          ¬ (world.pexecv.parent = true ∧ world.pexecv.child = true) := by
        rw [hfailed, and_iff_right hrecent, and_iff_right hargs]
      rw [retrySafe_of_send hmain hretval hprinted hchild hstart]
      exact ⟨fun hcases _ _ => hcases, fun hstarts => hstarts hrecent hargs⟩

/-- Once the recipient is found, the reply store and the mailer decide. -/
theorem retrySafe_of_lookup {found : Found VluLdap} (h : lookup args world = .ok found) :
    RetrySafe calls args world store ↔ StoreOpens args world ∧ MailerStarts args world store := by
  have hopens : StoreOpens args world ↔ found.init world.init ≠ none := by
    constructor
    · exact fun hall => hall found h
    · intro hinit found' h'
      rw [h] at h'
      cases h'
      exact hinit
  cases hadmitted : admitted args world with
  | error ending =>
    rw [retrySafe_of_stop hadmitted, and_iff_left (mailerStarts_of_stop hadmitted), hopens]
    constructor
    · intro htells hinit
      have hstop : admitted args world = .error (.done .vdbInit) := by
        simp only [admitted, accept, h, Found.accept, hinit, orDone, bind, Except.bind]
      rw [hadmitted] at hstop
      cases hstop
      cases htells (.store h hinit)
    · intro hinit hfailed
      rcases failed_of_lookup h hfailed with hnone | ⟨m, sender, canon, hnot, -⟩
      · exact absurd hnone hinit
      · rw [hadmitted] at hnot
        cases hnot
  | ok admission =>
    obtain ⟨m, sender, canon⟩ := admission
    have hinit : found.init world.init ≠ none := by
      intro hnone
      have hstop : admitted args world = .error (.done .vdbInit) := by
        simp only [admitted, accept, h, Found.accept, hnone, orDone, bind, Except.bind]
      rw [hadmitted] at hstop
      cases hstop
    rw [retrySafe_of_admitted hadmitted, and_iff_right (hopens.mpr hinit)]

/-- A run can be repeated exactly when the lookup reports the calls that failed in it, the reply
store opens, and the mailer starts wherever something was written for it. -/
theorem retry_safe_iff (hldap : world.ldapVlu = ldapVlu calls) (args : Args) (store : Store) :
    RetrySafe calls args world store ↔
      LookupTells calls args world ∧ StoreOpens args world ∧ MailerStarts args world store := by
  cases hready : ready args world with
  | error ending =>
    obtain ⟨hsafe, htells, hparts⟩ := @retrySafe_of_not_ready calls args world store _ hready
    exact iff_of_true hsafe ⟨htells, hparts⟩
  | ok found =>
    have htells : LookupTells calls args world ↔ Tells calls found := by
      constructor
      · exact fun hall => hall found hready
      · intro hfound found' hready'
        rw [hready] at hready'
        cases hready'
        exact hfound
    rw [htells]
    rcases lookupRcpt_cases hldap hready with ⟨hresult, hcall, hfound⟩ | ⟨vluh, hresult, hfound⟩ |
      ⟨vluh, hresult, hfound⟩ | ⟨vluh, hresult, hfound⟩
    · have hlookup : lookup args world = .error .crashed := by
        rw [lookup_eq, hready]
        simp only [hresult, orCrash, bind, Except.bind]
      have hstop := @retrySafe_of_lookup_error calls args world store _ _ hready hlookup
        (by simp [hresult])
      exact iff_of_true (hstop.mpr fun hfails => absurd hfails hcall)
        ⟨hfound, storeOpens_of_stop hlookup,
          mailerStarts_of_stop (admitted_of_lookup_error hlookup)⟩
    · have hlookup : lookup args world = .ok { found with vluh := vluh } := by
        rw [lookup_eq, hready]
        simp only [hresult, orCrash, orLookupDone, bind, Except.bind, pure, Except.pure]
      rw [retrySafe_of_lookup hlookup, and_iff_right hfound]
    · have hlookup : lookup args world = .error (.done .lookupFailed) := by
        rw [lookup_eq, hready]
        simp only [hresult, orCrash, orLookupDone, bind, Except.bind]
      have hstop := @retrySafe_of_lookup_error calls args world store _ _ hready hlookup
        (by simp [hresult])
      exact iff_of_true (hstop.mpr fun _ => rfl)
        ⟨hfound, storeOpens_of_stop hlookup,
          mailerStarts_of_stop (admitted_of_lookup_error hlookup)⟩
    · have hlookup : lookup args world = .error (.done .notFound) := by
        rw [lookup_eq, hready]
        simp only [hresult, orCrash, orLookupDone, bind, Except.bind]
      have hstop := @retrySafe_of_lookup_error calls args world store _ _ hready hlookup
        (by simp [hresult])
      rw [hstop, hfound, and_iff_left ⟨storeOpens_of_stop hlookup,
        mailerStarts_of_stop (admitted_of_lookup_error hlookup)⟩]
      exact imp_congr_right fun _ => iff_of_false (by decide) id

end

/-- A directory in which the one entry is bob's, and bob is away. -/
def bobAway : LdapCalls where
  calloc := true
  ldapInitialize := true
  ldapSetOption := true
  ldapSaslBind := true
  search _ filter _ :=
    if filter = bytes "uid=bob" then
      .success [⟨fun attr => if attr = bytes "away" then [bytes "TRUE"] else [], bytes "Bob"⟩]
    else .success []
  clock := some 1700000000

/-- A Redis store and the directory. -/
def retryConfig : VacConfig where
  strings path :=
    if path = bytes "core.vlu" then some (bytes "ldap")
    else if path = bytes "ldap.search_base" then some (bytes "ou=People")
    else if path = bytes "ldap.group_search_base" then some (bytes "ou=Groups")
    else if path = bytes "ldap.uri" then some (bytes "ldap://localhost")
    else if path = bytes "ldap.attributes.vacation" then some (bytes "away")
    else if (bytes "ldap.attributes").isPrefixOf path then some (bytes "attribute")
    else (storeConfig (bytes "redis") 60).strings path
  seconds := (storeConfig (bytes "redis") 60).seconds

def calm : World VluLdap where
  build := ⟨true, true, true⟩
  config := ⟨some retryConfig, fun _ => false, fun _ => none, fun _ file => file⟩
  ldapVlu := ldapVlu bobAway
  calloc := true
  init := ⟨true, true, true, true, true, true, true⟩
  recent := Calls.succeed 60
  storeReply := Calls.succeed 60
  pexecv := allCalls
  host := ⟨bytes "mx", 60, 1⟩
  brokenPipe := false
  stack := []
  stdin := bytes "From: a@b\nTo: Bob <bob@umich.edu>\nSubject: hello\n\nHi.\n"

/-- `fork` fails, and the reply that was never sent is on record. -/
def forkFails : World VluLdap := { calm with pexecv := { allCalls with fork := false } }

/-- The parent stops behind `fork`, and the mailer sends an empty message. -/
def dupFails : World VluLdap := { calm with pexecv := { allCalls with parentDup2 := false } }

/-- The Redis server cannot be reached. -/
def noConnection : World VluLdap := { calm with init := { calm.init with urclConnect := false } }

/-- The directory refuses each search. -/
def refused : LdapCalls := { bobAway with search := fun _ _ _ => .failed .unlisted }

def noAccess : World VluLdap := { calm with ldapVlu := ldapVlu refused }

def noAccessHandle : VluLdap where
  searchBase := bytes "ou=People"
  groupSearchBase := bytes "ou=Groups"
  attrVacation := bytes "away"
  attrAutoreplyStart := bytes "attribute"
  attrAutoreplyEnd := bytes "attribute"
  attrVacationMsg := bytes "attribute"
  attrGroupMsg := bytes "attribute"
  attrName := bytes "attribute"
  result := none
  defaultMsg := []
  subjectPrefix := none
  interval := 0
  attrMsg := none

def aToBob : Args := deliver (bytes "a@b") (bytes "bob")

theorem retry_safe_iff_calm : RetrySafe bobAway aToBob calm Store.empty ↔
    LookupTells bobAway aToBob calm ∧ StoreOpens aToBob calm ∧
      MailerStarts aToBob calm Store.empty :=
  @retry_safe_iff bobAway calm rfl aToBob Store.empty

/-- A failing `fork` leaves a record, a failing `dup2` of the parent lets an empty message go
out, and a failing `vdb->init` and a search that is refused exit with `EX_OK`. -/
theorem retry_unsafe :
    ¬ RetrySafe bobAway aToBob forkFails Store.empty ∧
      ¬ RetrySafe bobAway aToBob dupFails Store.empty ∧
      ¬ RetrySafe bobAway aToBob noConnection Store.empty ∧
      ¬ RetrySafe refused aToBob noAccess Store.empty := by
  refine ⟨fun hsafe => ?_, fun hsafe => ?_, fun hsafe => ?_, fun hsafe => ?_⟩
  · have htemp : TempFailed (main aToBob forkFails Store.empty) := by decide +kernel
    have hrecord : ((main aToBob forkFails Store.empty).store.redis
        (redisVdbKey (bytes "bob") (bytes "a@b"))).isSome = true := by decide +kernel
    rw [hsafe.kept htemp] at hrecord
    cases hrecord
  · have htemp : TempFailed (main aToBob dupFails Store.empty) := by decide +kernel
    have hmailer : (submitted (main aToBob dupFails Store.empty)).isSome = true := by
      decide +kernel
    rw [hsafe.silent htemp] at hmailer
    cases hmailer
  · have hexit : (main aToBob noConnection Store.empty).ending.exitCode = some .ok := by
      decide +kernel
    have hinit : ((lookup aToBob noConnection).toOption.any
        fun found => (found.init noConnection.init).isNone) = true := by decide +kernel
    have hfailed : Failed bobAway aToBob noConnection Store.empty := by
      cases hlookup : lookup aToBob noConnection with
      | error ending => simp [hlookup, Except.toOption] at hinit
      | ok found => exact .store hlookup (by simpa [hlookup, Except.toOption] using hinit)
    have htemp := hsafe.tempfail hfailed
    rw [TempFailed, hexit] at htemp
    cases htemp
  · have hexit : (main aToBob noAccess Store.empty).ending.exitCode = some .ok := by
      decide +kernel
    have hready : ready aToBob noAccess = .ok ⟨retryConfig, redisVdb, ldapVlu refused,
        .ldap noAccessHandle, bytes "bob"⟩ := rfl
    have hresult : (lookupRcpt (ldapVlu refused) retryConfig (.ldap noAccessHandle)
        (bytes "bob")).map Prod.fst = some .permfail := by decide +kernel
    have hcall : LookupFails refused ⟨retryConfig, redisVdb, ldapVlu refused,
        .ldap noAccessHandle, bytes "bob"⟩ :=
      ⟨noAccessHandle, rfl, by decide, Or.inl (Or.inl ⟨.unlisted, rfl⟩)⟩
    have hfailed : Failed refused aToBob noAccess Store.empty := by
      refine .lookup hready hcall fun vluh hok => ?_
      rw [hok] at hresult
      cases hresult
    have htemp := hsafe.tempfail hfailed
    rw [TempFailed, hexit] at htemp
    cases htemp

end Simvacation.RetrySafety
