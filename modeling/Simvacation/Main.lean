import Simvacation.SendMessage
import Simvacation.Vlu

/-!
The programs (`main` of `simvacation.c` and of `simunvacation.c`). Each
`goto done` of `main` is a `Site` with the exit code it carries. A run stops at
a site, crashes on a null pointer, or is killed writing to a pipe that nobody
reads. Its steps on the reply store are `query` and `record`, each on its own,
so that a run alone and runs that interleave are made of the same steps.
-/

namespace Simvacation.Main

open CString Yasl Vutil Readheaders SendMessage Vdb Vlu

/-- What `getopt` returns, with its argument. -/
inductive Opt where
  | c (optarg : Bytes)
  | d
  | f (optarg : Bytes)
  | unknown
  deriving DecidableEq, Repr

structure Args where
  options : List Opt
  operands : List Bytes
  deriving DecidableEq, Repr

/-- The local variables that the option loop sets. -/
structure Options where
  retval : ExitCode
  configFile : Option Bytes
  sender : Option Bytes
  deriving DecidableEq, Repr

def Options.init : Options := ⟨.ok, none, none⟩

def Options.set (o : Options) : Opt → Options
  | .c optarg => { o with configFile := some optarg }
  | .d => o
  | .f optarg => { o with sender := some (yaslauto (some optarg)) }
  | .unknown => { o with retval := .usage }

def Args.parse (args : Args) : Options := args.options.foldl Options.set Options.init

/-- The envelope sender, NULL without the option. -/
def Args.sender (args : Args) : Option Bytes := args.parse.sender

/-- The calls of `read_vacation_config`. -/
structure ConfigCalls where
  /-- the built-in configuration, when it parses -/
  base : Option VacConfig
  /-- whether a file exists -/
  access : Bytes → Bool
  /-- a file, when it is there and parses -/
  addFile : Bytes → Option VacConfig
  merge : VacConfig → VacConfig → VacConfig

def defaultConfigFile : Bytes := bytes "/etc/mail/simvacation.conf"

def readVacationConfig (calls : ConfigCalls) (configFile : Option Bytes) : Option VacConfig :=
  match calls.base with
  | none => none
  | some base =>
    match configFile with
    | some file => (calls.addFile file).map (calls.merge base)
    | none =>
      if calls.access defaultConfigFile then
        (calls.addFile defaultConfigFile).map (calls.merge base)
      else some base

/-- What a run meets outside: how each call comes out, the message, the
directory backend, and what the stack holds. -/
structure World (L : Type) where
  build : Build
  config : ConfigCalls
  ldapVlu : VluBackend L
  calloc : Bool
  init : InitCalls
  recent : Calls
  storeReply : Calls
  pexecv : PexecCalls
  host : Host
  /-- nobody reads the pipe when the output is written, if no mailer runs -/
  brokenPipe : Bool
  stack : Bytes
  stdin : Bytes

/-- Where `main` goes to `done`. -/
inductive Site where
  | usage
  | readConfig
  | vdbBackend
  | vluBackend
  | vluInit
  | lookupFailed
  | notFound
  | vdbInit
  | suppressed
  | notAddressed
  | badSender
  | recent
  | sent (retval : ExitCode)
  deriving DecidableEq, Repr

def Site.retval : Site → ExitCode
  | .usage => .usage
  | .readConfig => .tempfail
  | .vdbBackend => .tempfail
  | .vluBackend => .tempfail
  | .vluInit => .tempfail
  | .lookupFailed => .tempfail
  | .notFound => .ok
  | .vdbInit => .ok
  | .suppressed => .ok
  | .notAddressed => .ok
  | .badSender => .ok
  | .recent => .ok
  | .sent retval => retval

inductive Ending where
  | done (site : Site)
  | crashed
  | sigpipe
  deriving DecidableEq, Repr

/-- The exit code, unless a signal ended the run. -/
def Ending.exitCode : Ending → Option ExitCode
  | .done site => some site.retval
  | .crashed => none
  | .sigpipe => none

def orDone {α : Type} (site : Site) : Option α → Except Ending α
  | some a => .ok a
  | none => .error (.done site)

def doneIf (site : Site) (test : Bool) : Except Ending Unit :=
  if test then .error (.done site) else .ok ()

/-- The pointer is used without a test. -/
def orCrash {α : Type} : Option α → Except Ending α
  | some a => .ok a
  | none => .error .crashed

variable {L : Type}

/-- The group is asked when there is no such user. `none` when the search crashes. -/
def lookupRcpt (vlu : VluBackend L) (config : VacConfig) (vluh : VLU L) (rcpt : Bytes) :
    Option (VacResult × VLU L) :=
  match vlu.search config vluh rcpt with
  | some (.permfail, vluh) => some (vlu.groupSearch config vluh rcpt)
  | found => found

def orLookupDone : VacResult × VLU L → Except Ending (VLU L)
  | (.ok, vluh) => .ok vluh
  | (.permfail, _) => .error (.done .notFound)
  | (.tempfail, _) => .error (.done .lookupFailed)

/-- A recipient who is away. -/
structure Found (L : Type) where
  config : VacConfig
  vdb : VdbBackend
  vlu : VluBackend L
  vluh : VLU L
  rcpt : Bytes

/-- Up to the lookups. -/
def lookup (args : Args) (world : World L) : Except Ending (Found L) := do
  let operand ← orDone .usage args.operands.head?
  doneIf .usage (args.parse.retval ≠ .ok)
  let rcpt := yaslauto (some operand)
  let config ← orDone .readConfig (readVacationConfig world.config args.parse.configFile)
  let provider ← orCrash (config.strings (bytes "core.vdb"))
  let vdb ← orDone .vdbBackend (vdbBackend world.build provider)
  let provider ← orCrash (config.strings (bytes "core.vlu"))
  let vlu ← orDone .vluBackend (vluBackend world.build world.ldapVlu provider)
  let vluh ← orDone .vluInit (vlu.init config world.calloc)
  let result ← orCrash (lookupRcpt vlu config vluh rcpt)
  let vluh ← orLookupDone result
  pure ⟨config, vdb, vlu, vluh, rcpt⟩

/-- A message to a recipient who is away. -/
structure Accepted (L : Type) extends Found L where
  vdbh : VDB
  hdrs : Headers

/-- `vdb->init`. -/
def Found.init (found : Found L) (calls : InitCalls) : Option VDB :=
  found.vdb.init found.config.strings calls found.rcpt

/-- From `vdb->init` to the test of the headers. -/
def Found.accept (found : Found L) (world : World L) : Except Ending (Accepted L) := do
  let vdbh ← orDone .vdbInit (found.init world.init)
  let names := found.vlu.aliases found.config found.vluh found.rcpt
  let hdrs ← orDone .suppressed (readheaders world.stack names world.stdin)
  doneIf .notAddressed (!hdrs.rcptMatch)
  pure { found with vdbh, hdrs }

def accept (args : Args) (world : World L) : Except Ending (Accepted L) := do
  (← lookup args world).accept world

/-- The sender and its canonical form. -/
def checkSender (sender : Option Bytes) : Except Ending (Bytes × Bytes) := do
  let sender ← orCrash sender
  let canon ← orDone .badSender (checkFrom sender)
  pure (sender, canon)

namespace Accepted

variable (m : Accepted L)

def interval : ℤ := m.vlu.interval m.config m.vluh m.rcpt

def query (calls : Calls) (store : Store) (canon : Bytes) : VdbStatus × Store :=
  m.vdb.recent calls store m.vdbh canon m.interval

/-- The result of `store_reply` is ignored. -/
def record (calls : Calls) (store : Store) (canon : Bytes) : Store :=
  (m.vdb.storeReply calls store m.vdbh canon).2

def vacmsg : Bytes :=
  (m.vlu.message m.config m.vluh m.rcpt).getD
    (yaslauto (m.config.strings (bytes "core.default_message")))

/-- `none` when it crashes. -/
def send (calls : PexecCalls) (host : Host) (sender canon : Bytes) : Option Sending :=
  sendMessage m.config.strings calls host
    (prettySender m.config.strings m.rcpt (m.vlu.displayName m.config m.vluh m.rcpt)) sender canon
    m.vacmsg (m.vlu.subjectPrefix m.config m.vluh m.rcpt) m.hdrs

end Accepted

/-- How a run ends, what it leaves in the store, whether it called
`store_reply`, and what `send_message` did. -/
structure Outcome where
  ending : Ending
  store : Store
  recorded : Bool
  sending : Option Sending

def Outcome.response (o : Outcome) : Option (Command × Bytes) := o.sending.bind Sending.response

def sendEnding (brokenPipe : Bool) : Option Sending → Ending
  | none => .crashed
  | some s =>
    if s.printed.isSome && s.mailer.isNone && brokenPipe then .sigpipe
    else .done (.sent s.retval)

/-- From the query of the reply store on. -/
def Accepted.respond (m : Accepted L) (world : World L) (store : Store) (sender canon : Bytes) :
    Outcome :=
  let (status, store) := m.query world.recent store canon
  if status = .recent then ⟨.done .recent, store, false, none⟩
  else
    let store := m.record world.storeReply store canon
    let sending := m.send world.pexecv world.host sender canon
    ⟨sendEnding world.brokenPipe sending, store, true, sending⟩

/-- A message that comes to the query, with its sender. -/
def admitted (args : Args) (world : World L) : Except Ending (Accepted L × Bytes × Bytes) := do
  let m ← accept args world
  let sender ← checkSender args.sender
  pure (m, sender)

/-- `simvacation`. -/
def main (args : Args) (world : World L) (store : Store) : Outcome :=
  match admitted args world with
  | .error ending => ⟨ending, store, false, none⟩
  | .ok (m, sender, canon) => m.respond world store sender canon

section

variable {args : Args} {world : World L}

theorem bind_eq_ok {ε α β : Type} {x : Except ε α} {f : α → Except ε β} {b : β} :
    x >>= f = .ok b ↔ ∃ a, x = .ok a ∧ f a = .ok b := by
  cases x with
  | error e => simp [bind, Except.bind]
  | ok a => simp [bind, Except.bind]

theorem orDone_eq_ok {α : Type} {site : Site} {o : Option α} {a : α} :
    orDone site o = .ok a ↔ o = some a := by
  cases o <;> simp [orDone]

theorem doneIf_eq_ok {site : Site} {test : Bool} {u : Unit} :
    doneIf site test = .ok u ↔ test = false := by
  cases test <;> simp [doneIf]

theorem orCrash_eq_ok {α : Type} {o : Option α} {a : α} : orCrash o = .ok a ↔ o = some a := by
  cases o <;> simp [orCrash]

/-- Where the parts of a lookup come from. -/
theorem lookup_eq_ok {found : Found L} (h : lookup args world = .ok found) :
    (∃ operand, args.operands.head? = some operand ∧ found.rcpt = cstr operand) ∧
      readVacationConfig world.config args.parse.configFile = some found.config ∧
      (∃ provider, found.config.strings (bytes "core.vdb") = some provider ∧
        vdbBackend world.build provider = some found.vdb) ∧
      ∃ provider, found.config.strings (bytes "core.vlu") = some provider ∧
        vluBackend world.build world.ldapVlu provider = some found.vlu := by
  unfold lookup at h
  simp only [bind_eq_ok, orDone_eq_ok, orCrash_eq_ok, doneIf_eq_ok] at h
  obtain ⟨operand, hrcpt, -, -, config, hconfig, provider, hprovider, vdb, hvdb, provider',
    hprovider', vlu, hvlu, -, -, -, -, vluh, -, h⟩ := h
  cases h
  exact ⟨⟨operand, hrcpt, rfl⟩, hconfig, ⟨provider, hprovider, hvdb⟩, provider', hprovider', hvlu⟩

/-- The recipient is a C string. -/
theorem nul_notMem_rcpt {found : Found L} (h : lookup args world = .ok found) : 0 ∉ found.rcpt := by
  obtain ⟨⟨operand, -, hrcpt⟩, -⟩ := lookup_eq_ok h
  rw [hrcpt]
  exact nul_notMem_cstr operand

theorem accept_eq_ok {m : Accepted L} (h : accept args world = .ok m) :
    lookup args world = .ok m.toFound ∧ m.toFound.init world.init = some m.vdbh := by
  unfold accept Found.accept at h
  simp only [bind_eq_ok, orDone_eq_ok, doneIf_eq_ok] at h
  obtain ⟨found, hfound, vdbh, hinit, hdrs, -, -, -, h⟩ := h
  cases h
  exact ⟨hfound, hinit⟩

theorem checkSender_some (s : Bytes) : checkSender (some s) =
    match checkFrom s with
    | some canon => .ok (s, canon)
    | none => .error (.done .badSender) := by
  simp only [checkSender, orCrash, bind, Except.bind]
  cases checkFrom s with
  | none => rfl
  | some canon => rfl

variable {store : Store}

theorem main_of_accept_error {ending : Ending} (h : accept args world = .error ending) :
    main args world store = ⟨ending, store, false, none⟩ := by
  simp only [main, admitted, h, bind, Except.bind]

theorem main_of_sender_error {m : Accepted L} {ending : Ending} (h : accept args world = .ok m)
    (hsender : checkSender args.sender = .error ending) :
    main args world store = ⟨ending, store, false, none⟩ := by
  simp only [main, admitted, h, hsender, bind, Except.bind]

theorem main_of_ok {m : Accepted L} {sender canon : Bytes} (h : accept args world = .ok m)
    (hsender : checkSender args.sender = .ok (sender, canon)) :
    main args world store = m.respond world store sender canon := by
  simp only [main, admitted, h, hsender, bind, Except.bind, pure, Except.pure]

theorem respond_of_recent {m : Accepted L} {sender canon : Bytes}
    (h : (m.query world.recent store canon).1 = .recent) :
    m.respond world store sender canon =
      ⟨.done .recent, (m.query world.recent store canon).2, false, none⟩ := by
  simp only [Accepted.respond, h, ite_true]

theorem respond_of_not_recent {m : Accepted L} {sender canon : Bytes}
    (h : (m.query world.recent store canon).1 ≠ .recent) :
    m.respond world store sender canon =
      ⟨sendEnding world.brokenPipe (m.send world.pexecv world.host sender canon),
        m.record world.storeReply (m.query world.recent store canon).2 canon, true,
        m.send world.pexecv world.host sender canon⟩ := by
  simp only [Accepted.respond, if_neg h]

variable {m : Accepted L} {calls : PexecCalls} {host : Host} {sender canon : Bytes}

theorem send_of_no_args (h : sendmailArgs m.config.strings = []) :
    m.send calls host sender canon = none := sendMessage_of_no_args h

theorem send_of_args (h : sendmailArgs m.config.strings ≠ []) :
    ∃ s, m.send calls host sender canon = some s ∧
      (s.retval = if calls.parent then .ok else .tempfail) ∧
      s.printed.isSome = calls.parent ∧ s.mailer.isSome = calls.child := sendMessage_of_args h

end

/-- A configuration with the null lookup and a reply store. -/
def storeConfig (vdb : Bytes) (interval : ℤ) : VacConfig where
  strings path :=
    if path = bytes "core.vdb" then some vdb
    else if path = bytes "core.vlu" then some (bytes "null")
    else if path = bytes "core.sendmail" then some (bytes "/usr/sbin/simsendmail -f \"\" $R")
    else if path = bytes "core.domain" then some (bytes "umich.edu")
    else if path = bytes "redis.host" then some (bytes "127.0.0.1")
    else if path = bytes "lmdb.path" then some (bytes "/var/lib/simvacation")
    else none
  seconds path := if path = bytes "core.interval" then interval else 0

/-- Every call of a run succeeds, at one moment. -/
def World.succeed (config : VacConfig) (now : ℕ) (stdin : Bytes) : World Unit where
  build := ⟨true, true, true⟩
  config := ⟨some config, fun _ => false, fun _ => none, fun _ file => file⟩
  ldapVlu := nullVlu
  calloc := true
  init := ⟨true, true, true, true, true, true, true⟩
  recent := Calls.succeed now
  storeReply := Calls.succeed now
  pexecv := allCalls
  host := ⟨bytes "mx", now, 1⟩
  brokenPipe := false
  stack := []
  stdin := stdin

/-- The command line of a delivery. -/
def deliver (sender rcpt : Bytes) : Args := ⟨[.f sender], [rcpt]⟩

/-- What a run of `simunvacation` meets outside. -/
structure UnWorld (L : Type) where
  build : Build
  config : ConfigCalls
  ldapVlu : VluBackend L
  calloc : Bool
  init : InitCalls
  gc : Calls

inductive UnEnding where
  | exited (status : ℕ)
  | crashed
  deriving DecidableEq, Repr

def orExit {α : Type} : Option α → Except UnEnding α
  | some a => .ok a
  | none => .error (.exited 1)

def orNull {α : Type} : Option α → Except UnEnding α
  | some a => .ok a
  | none => .error .crashed

/-- The option loop; `usage` exits at once. -/
def unOptions (configFile : Option Bytes) : List Opt → Option (Option Bytes)
  | [] => some configFile
  | .c optarg :: opts => unOptions (some optarg) opts
  | .d :: opts => unOptions configFile opts
  | .f _ :: _ => none
  | .unknown :: _ => none

structure Cleaner (L : Type) where
  config : VacConfig
  vdb : VdbBackend
  vdbh : VDB
  vlu : VluBackend L
  vluh : VLU L

def unInit (options : List Opt) (world : UnWorld L) : Except UnEnding (Cleaner L) := do
  let configFile ← orExit (unOptions none options)
  let config ← orExit (readVacationConfig world.config configFile)
  let provider ← orNull (config.strings (bytes "core.vdb"))
  let vdb ← orExit (vdbBackend world.build provider)
  -- a literal without a header is passed for a yastr; its name is not used again
  let vdbh ← orExit (vdb.init config.strings world.init (bytes "simunvacation"))
  let provider ← orNull (config.strings (bytes "core.vlu"))
  let vlu ← orExit (vluBackend world.build world.ldapVlu provider)
  let vluh ← orExit (vlu.init config world.calloc)
  pure ⟨config, vdb, vdbh, vlu, vluh⟩

/-- The loop over the names of the store, up to its end or to a search that crashes. -/
def Cleaner.clean (cleaner : Cleaner L) : VLU L → List Bytes → Store → UnEnding × Store
  | _, [], store => (.exited 0, store)
  | vluh, obj :: names, store =>
    let uniqname := yaslauto (some obj)
    match cleaner.vlu.search cleaner.config vluh uniqname with
    | none => (.crashed, store)
    | some (.permfail, vluh) =>
      clean cleaner vluh names (cleaner.vdb.clean store cleaner.vdbh uniqname)
    | some (_, vluh) => clean cleaner vluh names store

/-- `simunvacation`. -/
def unMain (options : List Opt) (world : UnWorld L) (store : Store) : UnEnding × Store :=
  match unInit options world with
  | .error ending => (ending, store)
  | .ok cleaner =>
    let uniqnames := cleaner.vdb.getNames store cleaner.vdbh
    match cleaner.clean cleaner.vluh uniqnames store with
    | (.exited status, store) => (.exited status, cleaner.vdb.gc world.gc store cleaner.vdbh)
    | (.crashed, store) => (.crashed, store)

/-- Every call succeeds. -/
def UnWorld.succeed (config : VacConfig) (now : ℕ) : UnWorld Unit where
  build := ⟨true, true, true⟩
  config := ⟨some config, fun _ => false, fun _ => none, fun _ file => file⟩
  ldapVlu := nullVlu
  calloc := true
  init := ⟨true, true, true, true, true, true, true⟩
  gc := Calls.succeed now

theorem orExit_eq_ok {α : Type} {o : Option α} {a : α} : orExit o = .ok a ↔ o = some a := by
  cases o <;> simp [orExit]

theorem orNull_eq_ok {α : Type} {o : Option α} {a : α} : orNull o = .ok a ↔ o = some a := by
  cases o <;> simp [orNull]

theorem unInit_eq_ok {options : List Opt} {world : UnWorld L} {cleaner : Cleaner L}
    (h : unInit options world = .ok cleaner) :
    ∃ provider, vdbBackend world.build provider = some cleaner.vdb := by
  unfold unInit at h
  simp only [bind_eq_ok, orExit_eq_ok, orNull_eq_ok] at h
  obtain ⟨configFile, -, config, -, provider, -, vdb, hvdb, vdbh, -, -, -, vlu, -, vluh, -, h⟩ := h
  cases h
  exact ⟨provider, hvdb⟩

/-- No backend names anyone to clean. -/
theorem getNames_eq_nil {build : Build} {provider : Bytes} {vdb : VdbBackend}
    (h : vdbBackend build provider = some vdb) (store : Store) (vdbh : VDB) :
    vdb.getNames store vdbh = [] := by
  rcases vdbBackend_cases h with rfl | rfl | rfl
  · rfl
  · rfl
  · rfl

/-- Only the gc of lmdb does anything. -/
theorem unMain_store (options : List Opt) (world : UnWorld L) (store : Store) :
    (unMain options world store).2 = store ∨
      (unMain options world store).2 = { store with lmdb := lmdbVdbGc world.gc store.lmdb } := by
  unfold unMain
  cases h : unInit options world with
  | error ending => exact Or.inl rfl
  | ok cleaner =>
    obtain ⟨provider, hvdb⟩ := unInit_eq_ok h
    simp only [getNames_eq_nil hvdb, Cleaner.clean]
    rcases vdbBackend_cases hvdb with hvdb | hvdb | hvdb
    · rw [hvdb]
      exact Or.inl rfl
    · rw [hvdb]
      exact Or.inr rfl
    · rw [hvdb]
      exact Or.inl rfl

end Simvacation.Main
