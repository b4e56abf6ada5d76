import Simvacation.Main
import Simvacation.ResponderLoop
import Simvacation.Responders

/-!
Programs that answer each other. At each of any number of sites mail is handed
to the program with the lines that the way there put in front of it; what the
mailer is given is a message of the network. The Auto-Submitted line of a
response is behind these lines, and the program that reads it ends before it
comes to its reply store.
-/

namespace Simvacation.MailNetwork

open CString Yasl Vutil Readheaders HeaderLines SendMessage ResponseHeaders ResponderLoop Main Vdb
open Vlu Responders

variable {S L : Type}

/-- A call of the program for a message, whose standard input is not yet known. -/
structure Delivery (S L : Type) where
  site : S
  args : Args
  world : World L
  /-- the header lines put in front of the message on its way -/
  trace : List Bytes

def Delivery.receive (d : Delivery S L) (text : Bytes) : World L :=
  { d.world with stdin := printLines d.trace ++ text }

/-- The run of the program at a site, on the reply store of the site. -/
def react [DecidableEq S] (d : Delivery S L) (text : Bytes) (stores : S → Store) :
    (S → Store) × Option Bytes :=
  let outcome := main d.args (d.receive text) (stores d.site)
  (Function.update stores d.site outcome.store, outcome.response.map Prod.snd)

/-- The header section leads to the Auto-Submitted line of a response. -/
def Automatic (text : Bytes) : Prop :=
  ∃ lines rest, text = printLines lines ++ (autoReplied ++ lf :: rest) ∧
    text.getLast? = some lf ∧ ∀ line ∈ lines, lf ∉ line ∧ ¬ Ends (line ++ [lf])

/-- Lines within the limit for mail, and none in front at which the reader stops. -/
structure Carried (d : Delivery S L) (text : Bytes) : Prop where
  trace : ∀ line ∈ d.trace, lf ∉ line ∧ line.length ≤ 998 ∧ ¬ Ends (line ++ [lf])
  limit : ∀ line ∈ (headerSection [] text).1, line.length ≤ 998

/-- The values that are put into a response are single lines, and answers are
carried as mail is. -/
structure Proper (d : Delivery S L) (m : Message Bytes) : Prop where
  values : ∀ a sender canon, admitted d.args (d.receive m.content) = .ok (a, sender, canon) →
    SingleLineValues a.config.strings d.world.host a.rcpt sender
      (a.vlu.subjectPrefix a.config a.vluh a.rcpt) (a.vlu.displayName a.config a.vluh a.rcpt)
  carried : 0 < m.depth → Carried d m.content

section

variable {args : Args} {world : World L} {store : Store}

theorem accept_hdrs {a : Accepted L} (h : accept args world = .ok a) :
    ∃ names, readheaders world.stack names world.stdin = some a.hdrs := by
  unfold accept Found.accept at h
  simp only [bind_eq_ok, orDone_eq_ok, doneIf_eq_ok] at h
  obtain ⟨found, -, vdbh, -, hdrs, hread, -, -, h⟩ := h
  cases h
  exact ⟨_, hread⟩

/-- A message whose header section is suppressed leaves no trace. -/
theorem main_of_suppressed (h : ∀ names, readheaders world.stack names world.stdin = none) :
    ∃ ending, main args world store = ⟨ending, store, false, none⟩ := by
  cases haccept : accept args world with
  | error ending => exact ⟨ending, main_of_accept_error haccept⟩
  | ok a =>
    obtain ⟨names, hread⟩ := accept_hdrs haccept
    rw [h names] at hread
    contradiction

theorem admitted_eq_ok {a : Accepted L} {sender canon : Bytes}
    (h : admitted args world = .ok (a, sender, canon)) :
    accept args world = .ok a ∧ args.sender = some sender ∧ checkFrom sender = some canon := by
  simp only [admitted, checkSender, bind_eq_ok, orCrash_eq_ok, orDone_eq_ok] at h
  obtain ⟨a', haccept, pair, ⟨s, hsender, c, hcheck, hpair⟩, h⟩ := h
  cases hpair
  cases h
  exact ⟨haccept, hsender, hcheck⟩

/-- What is behind a response. -/
theorem main_response {command : Command} {text : Bytes}
    (h : (main args world store).response = some (command, text)) :
    ∃ a sender canon sending, admitted args world = .ok (a, sender, canon) ∧
      a.send world.pexecv world.host sender canon = some sending ∧ text ∈ sending.printed := by
  unfold main at h
  cases hadmitted : admitted args world with
  | error ending =>
    rw [hadmitted] at h
    contradiction
  | ok result =>
    obtain ⟨a, sender, canon⟩ := result
    rw [hadmitted] at h
    by_cases hrecent : (a.query world.recent store canon).1 = .recent
    · simp [respond_of_recent hrecent, Outcome.response] at h
    · simp only [respond_of_not_recent hrecent, Outcome.response, Option.bind_eq_some_iff] at h
      obtain ⟨sending, hsend, hresponse⟩ := h
      refine ⟨a, sender, canon, sending, rfl, hsend, ?_⟩
      unfold Sending.response at hresponse
      split at hresponse
      · next hprinted =>
        rw [hprinted]
        cases hresponse
        rfl
      · contradiction

end

section

variable {d : Delivery S L} {text : Bytes}

theorem mem_headerSection {lines : List Bytes} (h : ∀ line ∈ lines, lf ∉ line ∧ line ≠ [])
    (rest : Bytes) : ∀ line ∈ lines, line ∈ (headerSection [] (printLines lines ++ rest)).1 := by
  induction lines with
  | nil => simp
  | cons first lines ih =>
    obtain ⟨hlf, hne⟩ := h first List.mem_cons_self
    have hsplit : printLines (first :: lines) ++ rest =
        first ++ lf :: (printLines lines ++ rest) := by
      simp [printLines]
    have htail := ih fun line hline => h line (List.mem_cons_of_mem _ hline)
    intro line hline
    rw [hsplit, headerSection_line hlf (by simpa using hne), List.nil_append]
    rcases List.mem_cons.mp hline with rfl | hline
    · exact List.mem_cons_self
    · exact List.mem_cons_of_mem _ (htail line hline)

/-- A response that is carried as mail is suppressed wherever it arrives. -/
theorem receive_suppressed (hauto : Automatic text) (hcarried : Carried d text) (stack : Bytes)
    (names : List Bytes) : readheaders stack names (d.receive text).stdin = none := by
  obtain ⟨lines, rest, rfl, hlast, hlines⟩ := hauto
  have hne : ∀ line ∈ lines, lf ∉ line ∧ line ≠ [] := by
    intro line hline
    refine ⟨(hlines line hline).1, ?_⟩
    rintro rfl
    exact (hlines [] hline).2 (by decide)
  have hall : ∀ line ∈ d.trace ++ lines,
      lf ∉ line ∧ line.length ≤ 998 ∧ ¬ Ends (line ++ [lf]) := by
    intro line hline
    rcases List.mem_append.mp hline with hline | hline
    · exact hcarried.trace line hline
    · exact ⟨(hlines line hline).1, hcarried.limit line (mem_headerSection hne _ line hline),
        (hlines line hline).2⟩
  have hstdin : (d.receive (printLines lines ++ (autoReplied ++ lf :: rest))).stdin =
      printLines (d.trace ++ lines) ++ (autoReplied ++ lf :: rest) := by
    simp [Delivery.receive, printLines]
  have hend : (printLines (d.trace ++ lines) ++ (autoReplied ++ lf :: rest)).getLast? =
      some lf := by
    rw [List.getLast?_append_of_ne_nil _ (by simp)] at hlast ⊢
    exact hlast
  have hautolf : lf ∉ autoReplied := by decide
  rw [hstdin, readheaders_eq_none_iff_reads names hend,
    fgetsReads_printLines fun line hline => (hall line hline).1,
    fgetsReads_line hautolf (by decide)]
  apply (suppressed_append_cons suppresses_autoReplied not_ends_autoReplied).mpr
  intro pre piece post heq hends
  have hpiece : piece ∈ (d.trace ++ lines).flatMap pieces := by
    rw [heq]
    simp
  obtain ⟨line, hline, hmem⟩ := List.mem_flatMap.mp hpiece
  obtain ⟨hlf, hlen, hnot⟩ := hall line hline
  rw [pieces_of_short hlf hlen, List.mem_singleton] at hmem
  exact absurd (hmem ▸ hends) hnot

/-- What a run gives to the mailer is recognised as a response. -/
theorem automatic_of_response {args : Args} {world : World L} {a : Accepted L}
    {sender canon : Bytes} {sending : Sending}
    (hadmitted : admitted args world = .ok (a, sender, canon))
    (hvalues : SingleLineValues a.config.strings world.host a.rcpt sender
      (a.vlu.subjectPrefix a.config a.vluh a.rcpt) (a.vlu.displayName a.config a.vluh a.rcpt))
    (hsend : a.send world.pexecv world.host sender canon = some sending)
    (htext : text ∈ sending.printed) : Automatic text := by
  obtain ⟨haccept, -, hcheck⟩ := admitted_eq_ok hadmitted
  obtain ⟨names, hread⟩ := accept_hdrs haccept
  have hlines := lf_notMem_threadLines hvalues (singleLines_readheaders hread) hcheck
  have hprinted := sendMessage_printed hsend htext
  refine ⟨_, printLines fixedLines.tail ++ [lf] ++ cstr a.vacmsg ++ [lf], ?_, ?_,
    fun line hline => ⟨hlines line hline, not_ends_threadLines line hline⟩⟩
  · rw [hprinted]
    simp [responseText, printLines, fixedLines, autoReplied]
  · rw [hprinted, responseText, List.getLast?_concat]

variable [DecidableEq S]

theorem recognised : Recognised (react (S := S) (L := L)) Automatic Proper where
  answer d m stores hproper text htext := by
    obtain ⟨⟨command, text'⟩, hresponse, rfl⟩ : ∃ response,
        (main d.args (d.receive m.content) (stores d.site)).response = some response ∧
          response.2 = text := by
      simpa [react] using htext
    obtain ⟨a, sender, canon, sending, hadmitted, hsend, hmem⟩ := main_response hresponse
    exact automatic_of_response hadmitted (hproper.values a sender canon hadmitted) hsend hmem
  silent d m stores hproper hdepth hauto := by
    obtain ⟨ending, hmain⟩ := @main_of_suppressed _ d.args (d.receive m.content) (stores d.site)
      fun names => receive_suppressed hauto (hproper.carried hdepth) _ names
    simp only [react, hmain, Function.update_eq_self]
    rfl

/-- However often and in whatever order the mail of a network is delivered, no
response is answered, the responses could as well have been thrown away, and there
are no more messages than posts and deliveries of posts. -/
theorem network_quiet (stores : S → Store) {events : List (Event (Delivery S L) Bytes)}
    (hvalid : Network.Valid react Proper ⟨stores, []⟩ events) :
    (∀ m ∈ (Network.run react ⟨stores, []⟩ events).messages, m.depth ≤ 1) ∧
      Network.run react ⟨stores, []⟩ (Network.unanswered react ⟨stores, []⟩ events) =
        Network.run react ⟨stores, []⟩ events ∧
      (Network.run react ⟨stores, []⟩ events).messages.length ≤
        (Network.unanswered react ⟨stores, []⟩ events).length := by
  have hsettled : Settled Automatic (⟨stores, []⟩ : Network (S → Store) Bytes) := by
    intro m hm
    exact absurd hm List.not_mem_nil
  have hrun := run_unanswered recognised hsettled hvalid
  refine ⟨fun m hm => (settled_run recognised hsettled hvalid m hm).1, hrun, ?_⟩
  rw [← hrun]
  exact le_trans (length_run_le _) (by simp)

end

/-- A site whose users are all away. -/
def away (site : Bool) (sender rcpt : Bytes) (trace : List Bytes) : Delivery Bool Unit where
  site := site
  args := deliver sender rcpt
  world := World.succeed (storeConfig (bytes "lmdb") 60) 100 []
  trace := trace

/-- The values of such a site come from its configuration and its command line. -/
theorem values_away {site : Bool} {sender rcpt : Bytes} {trace : List Bytes} {text : Bytes}
    (hsender : lf ∉ sender) (hrcpt : lf ∉ rcpt) {a : Accepted Unit} {s canon : Bytes}
    (h : admitted (away site sender rcpt trace).args ((away site sender rcpt trace).receive text) =
      .ok (a, s, canon)) :
    SingleLineValues a.config.strings (away site sender rcpt trace).world.host a.rcpt s
      (a.vlu.subjectPrefix a.config a.vluh a.rcpt) (a.vlu.displayName a.config a.vluh a.rcpt) := by
  obtain ⟨haccept, hs, -⟩ := admitted_eq_ok h
  obtain ⟨⟨operand, hoperand, ha⟩, hconfig, -, provider, hprovider, hvlu⟩ :=
    lookup_eq_ok (accept_eq_ok haccept).1
  cases hoperand
  have hlf : lf ∉ a.rcpt := by
    rw [ha]
    exact lf_notMem_cstr hrcpt
  have hstrings : a.config = storeConfig (bytes "lmdb") 60 := (Option.some.inj hconfig).symm
  rw [hstrings] at hprovider ⊢
  cases hprovider
  have hnull : a.vlu = nullVlu := (Option.some.inj hvlu).symm
  rw [hnull]
  have hhost : lf ∉ bytes "mx" := by decide
  have hprefix : lf ∉ yaslauto ((storeConfig (bytes "lmdb") 60).strings
      (bytes "core.subject_prefix")) := by decide
  refine ⟨by decide +kernel, hhost, hlf, ?_, hprefix, ?_⟩
  · cases hs
    exact lf_notMem_cstr hsender
  · intro name hname
    cases hname
    exact lf_notMem_cstr hlf

/-- alice writes to bob, whose response comes back to her; both are away. -/
def exchange : List (Event (Delivery Bool Unit) Bytes) :=
  [.post (bytes "To: bob\n\n"), .deliver (away true (bytes "alice@a") (bytes "bob") []) 0,
    .deliver (away false (bytes "bob@b") (bytes "alice") [bytes "Received: from b"]) 1]

theorem network_quiet_exchange :
    (∀ m ∈ (Network.run react ⟨fun _ => Store.empty, []⟩ exchange).messages, m.depth ≤ 1) ∧
      Network.run react ⟨fun _ => Store.empty, []⟩
          (Network.unanswered react ⟨fun _ => Store.empty, []⟩ exchange) =
        Network.run react ⟨fun _ => Store.empty, []⟩ exchange ∧
      (Network.run react ⟨fun _ => Store.empty, []⟩ exchange).messages.length ≤
        (Network.unanswered react ⟨fun _ => Store.empty, []⟩ exchange).length := by
  apply network_quiet
  refine ⟨?_, ?_, ?_, trivial⟩
  · intro d i h
    contradiction
  · intro d i h m hm
    cases h
    cases hm
    exact ⟨fun a s canon h => values_away (by decide) (by decide) h, fun h => absurd h (by decide)⟩
  · intro d i h m hm
    cases h
    refine ⟨fun a s canon h => values_away (by decide) (by decide) h, fun _ => ⟨by decide, ?_⟩⟩
    have hlimit : ∀ m ∈ (Network.run react (⟨fun _ => Store.empty, []⟩ : Network (Bool → Store)
        Bytes) (exchange.take 2)).messages[1]?, ∀ line ∈ (headerSection [] m.content).1,
          line.length ≤ 998 := by
      decide +kernel
    exact hlimit m hm

end Simvacation.MailNetwork
