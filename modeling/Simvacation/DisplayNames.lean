import Simvacation.MailboxGrammar
import Simvacation.ResponseHeaders

/-!
The From field of a response. The display name is put between quotes as it is:
a quote in it ends the quoted string, and a backslash is read as an escape.
-/

namespace Simvacation.DisplayNames

open CString Vutil Readheaders SendMessage ResponseHeaders MailboxGrammar

/-- Among the lines is one From field, and a single mailbox is all that it can be read as. -/
def NamesOnly (lines : List Bytes) (m : Mailbox) : Prop :=
  ∃ line, lines.filter (fun line => fieldName line = bytes "From") = [line] ∧
    ∀ ms, FromField line ms ↔ ms = [m]

theorem filter_threadLines (host : Host) (sender canonRcpt subject : Bytes) (h : Headers) :
    (threadLines host sender canonRcpt subject h).filter
      (fun line => fieldName line = bytes "From") = [bytes "From: " ++ cstr sender] := by
  have hreply : (inReplyToLines h).filter (fun line => fieldName line = bytes "From") = [] := by
    unfold inReplyToLines
    split <;> rfl
  have hreferences : (referencesLines h).filter
      (fun line => fieldName line = bytes "From") = [] := by
    unfold referencesLines
    repeat' split
    all_goals rfl
  rw [threadLines, List.filter_append, List.filter_append, hreply, hreferences]
  rfl

theorem fromField_iff (body : Bytes) (ms : List Mailbox) :
    FromField (bytes "From:" ++ body) ms ↔ MailboxList body ms := by
  have hcolon : bytes "From:" ++ body = bytes "From" ++ 58 :: body := rfl
  rw [hcolon]
  constructor
  · intro h
    generalize htext : bytes "From" ++ 58 :: body = text at h
    cases h with
    | @field name body' _ hname hlist =>
      have hlen : (bytes "From").length = name.length := by
        rw [← lower_length name, hname]
        rfl
      obtain ⟨-, hbody⟩ := List.append_inj htext hlen
      rwa [(List.cons.inj hbody).2]
  · intro h
    exact .field (by decide) h

theorem nul_notMem_of_isprint {s : Bytes} (h : ∀ c ∈ s, isprint c = true) : 0 ∉ s := by
  intro hmem
  exact absurd (h 0 hmem) (by decide)

section

variable {config : Config} {rcpt domain name : Bytes}

/-- What `pretty_sender` makes of a name that is not the recipient's. -/
theorem prettySender_eq (hdomain : config (bytes "core.domain") = some domain)
    (hd : DotAtom domain) (hr : DotAtom rcpt) (hname : ∀ c ∈ name, isprint c = true)
    (hother : lower name ≠ lower rcpt) :
    cstr (prettySender config rcpt (some name)) = quotedMailbox name rcpt domain [] := by
  have hn0 : 0 ∉ name := nul_notMem_of_isprint hname
  have hr0 : 0 ∉ rcpt := hr.notMem (by decide)
  have hd0 : 0 ∉ domain := hd.notMem (by decide)
  have hcase : strcasecmp name rcpt ≠ 0 := fun e =>
    hother ((strcasecmp_eq_zero_iff hn0 hr0).mp e)
  have htext : prettySender config rcpt (some name) = quotedMailbox name rcpt domain [] := by
    have hquote : bytes "\"" = [34] := by decide
    have hangle : bytes "\" <" = [34, 32, 60] := by decide
    have hat : bytes "@" = [64] := by decide
    have hclose : bytes ">" = [62] := by decide
    simp only [prettySender, hdomain, printStr, cstr_eq_self hn0, cstr_eq_self hr0,
      cstr_eq_self hd0, ne_eq, hcase, not_false_eq_true, ite_true, hquote, hangle, hat, hclose,
      quotedMailbox, List.append_assoc, List.cons_append, List.nil_append]
  rw [htext]
  apply cstr_eq_self
  simp [quotedMailbox, hn0, hr0, hd0]

/-- The From field comes back as the display name and the address if and only if the name has
neither a quote nor a backslash. -/
theorem from_round_trip_iff (hdomain : config (bytes "core.domain") = some domain)
    (hd : DotAtom domain) (hr : DotAtom rcpt) (hname : ∀ c ∈ name, isprint c = true)
    (hother : lower name ≠ lower rcpt) (host : Host) (canonRcpt subject : Bytes) (h : Headers) :
    NamesOnly (threadLines host (prettySender config rcpt (some name)) canonRcpt subject h)
      ⟨some name, rcpt, domain⟩ ↔ 34 ∉ name ∧ 92 ∉ name := by
  have hline : bytes "From: " ++ quotedMailbox name rcpt domain [] =
      bytes "From:" ++ 32 :: quotedMailbox name rcpt domain [] := rfl
  rw [← mailboxList_quotedMailbox_iff hname hr hd, NamesOnly, filter_threadLines,
    prettySender_eq hdomain hd hr hname hother, hline]
  constructor
  · rintro ⟨line, hfilter, honly⟩ ms
    obtain rfl := List.singleton_inj.mp hfilter
    rw [← fromField_iff]
    exact honly ms
  · intro honly
    refine ⟨_, rfl, fun ms => ?_⟩
    rw [fromField_iff]
    exact honly ms

end

theorem dotAtom_bob : DotAtom (bytes "bob") := .of_atom (by decide +kernel) (by decide +kernel)

theorem dotAtom_umich : DotAtom (bytes "umich.edu") :=
  .cons_atom (v := bytes "umich") (by decide +kernel) (by decide +kernel)
    (.of_atom (by decide +kernel) (by decide +kernel))

theorem from_round_trip_comma :
    NamesOnly (threadLines ⟨bytes "mx", 1, 2⟩ (prettySender umichConfig (bytes "bob")
        (some (bytes "Smith, Bob <home>"))) (bytes "a@b") (bytes "Out")
        ⟨none, none, none, none, true⟩)
      ⟨some (bytes "Smith, Bob <home>"), bytes "bob", bytes "umich.edu"⟩ :=
  (from_round_trip_iff (by decide +kernel) dotAtom_umich dotAtom_bob (by decide +kernel)
    (by decide +kernel) _ _ _ _).mpr ⟨by decide +kernel, by decide +kernel⟩

/-- A name with the address of somebody else in it. -/
def smuggling : Bytes := bytes "Eve\" <eve@x.org>, \"Bob"

theorem smuggling_reads_as_two :
    (∀ c ∈ smuggling, isprint c = true) ∧ lower smuggling ≠ lower (bytes "bob") ∧
    FromField (bytes "From: " ++ cstr (prettySender umichConfig (bytes "bob") (some smuggling)))
      [⟨some (bytes "Eve"), bytes "eve", bytes "x.org"⟩,
        ⟨some (bytes "Bob"), bytes "bob", bytes "umich.edu"⟩] ∧
    ¬ NamesOnly (threadLines ⟨bytes "mx", 1, 2⟩ (prettySender umichConfig (bytes "bob")
        (some smuggling)) (bytes "a@b") (bytes "Out") ⟨none, none, none, none, true⟩)
      ⟨some smuggling, bytes "bob", bytes "umich.edu"⟩ := by
  have hprint : ∀ c ∈ smuggling, isprint c = true := by decide +kernel
  have hother : lower smuggling ≠ lower (bytes "bob") := by decide +kernel
  have hx : DotAtom (bytes "x.org") :=
    .cons_atom (v := bytes "x") (by decide +kernel) (by decide +kernel)
      (.of_atom (by decide +kernel) (by decide +kernel))
  have heve : DotAtom (bytes "eve") := .of_atom (by decide +kernel) (by decide +kernel)
  have hreads : FromField (bytes "From: " ++
      cstr (prettySender umichConfig (bytes "bob") (some smuggling)))
      [⟨some (bytes "Eve"), bytes "eve", bytes "x.org"⟩,
        ⟨some (bytes "Bob"), bytes "bob", bytes "umich.edu"⟩] := by
    have htext : bytes "From: " ++ quotedMailbox smuggling (bytes "bob") (bytes "umich.edu") [] =
        bytes "From:" ++ 32 :: quotedMailbox (bytes "Eve") (bytes "eve") (bytes "x.org")
          (44 :: 32 :: quotedMailbox (bytes "Bob") (bytes "bob") (bytes "umich.edu") []) := by
      decide +kernel
    have hdomain : umichConfig (bytes "core.domain") = some (bytes "umich.edu") := by decide +kernel
    rw [prettySender_eq hdomain dotAtom_umich dotAtom_bob hprint
      hother, htext, fromField_iff]
    exact .cons (reads_quotedMailbox (by decide +kernel) heve hx _)
      (.one (reads_quotedMailbox (by decide +kernel) dotAtom_bob dotAtom_umich []))
  refine ⟨hprint, hother, hreads, ?_⟩
  rintro ⟨line, hfilter, honly⟩
  rw [filter_threadLines] at hfilter
  obtain rfl := List.singleton_inj.mp hfilter
  cases (honly _).mp hreads

end Simvacation.DisplayNames
