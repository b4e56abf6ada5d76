import Simvacation.Descriptors
import Simvacation.ResponseHeaders

/-!
The pipe of `pexecv`. The child reads it as its standard input and the parent
writes to it as its standard output, unless the pipe itself was given one of
these descriptors because it was closed.
-/

namespace Simvacation.PipeEnds

open CString Yasl Vutil Readheaders SendMessage ResponseHeaders

/-- The ends of the pipe, beside the files that are open before. -/
inductive File (F : Type) where
  | readEnd
  | writeEnd
  | other (file : F)
  deriving DecidableEq, Repr

variable {F : Type}

/-- The calls of the parent when the pipe has the descriptors `r` and `w`. -/
def parentFiles (r w : ℕ) (t : Descriptors (File F)) : Option (Descriptors (File F)) := do
  let t ← t.close r
  let t ← t.dup2 w 1
  t.close w

/-- The calls of the child before it runs the program. -/
def childFiles (r w : ℕ) (t : Descriptors (File F)) : Option (Descriptors (File F)) := do
  let t ← t.close w
  let t ← t.dup2 r 0
  t.close r

/-- The descriptors of the parent when `pexecv` returns `VAC_RESULT_OK`, and those
of the child when it comes to run the program. -/
def pexecvFiles (calls : PexecCalls) (t : Descriptors F) :
    Option (Descriptors (File F)) × Option (Descriptors (File F)) :=
  if !calls.pipe then (none, none)
  else
    let (r, w, t) := (t.embed File.other).pipe .readEnd .writeEnd
    if !calls.fork then (none, none)
    else
      (if calls.parentCloseRead && calls.parentDup2 && calls.parentCloseWrite then
          parentFiles r w t
        else none,
        if calls.childCloseWrite && calls.childDup2 && calls.childCloseRead && calls.execv then
          childFiles r w t
        else none)

/-- The standard output of the parent is the pipe; nothing else is changed. -/
def Writes (t : Descriptors F) (p : Descriptors (File F)) : Prop :=
  ∀ n, p.get n = if n = 1 ∧ ¬ (t.get 0 = none ∧ t.get 1 = none) then some .writeEnd
    else (t.get n).map .other

/-- The standard input of the child is the pipe; nothing else is changed. -/
def Reads (t : Descriptors F) (c : Descriptors (File F)) : Prop :=
  ∀ n, c.get n = if n = 0 ∧ t.get 0 ≠ none then some .readEnd else (t.get n).map .other

section

variable {t : Descriptors F} {r w : ℕ} {t' : Descriptors (File F)}

/-- Where the ends of the pipe are. -/
theorem pipe_spec (h : (t.embed File.other).pipe .readEnd .writeEnd = (r, w, t')) :
    (t.get r = none ∧ t.get w = none ∧ r ≠ w) ∧ (r = 0 ↔ t.get 0 = none) ∧ w ≠ 0 ∧
      (w = 1 ↔ t.get 0 = none ∧ t.get 1 = none) ∧
      ∀ n, t'.get n = if n = w then some .writeEnd else if n = r then some .readEnd
        else (t.get n).map .other := by
  simp only [Descriptors.pipe, Prod.mk.injEq] at h
  obtain ⟨hr, hw, ht'⟩ := h
  rw [hr] at hw ht'
  rw [hw] at ht'
  have hnone : ∀ n, (t.embed File.other).get n = none ↔ t.get n = none := by
    intro n
    rw [Descriptors.get_embed, Option.map_eq_none_iff]
  obtain ⟨hropen, hrlow⟩ := Descriptors.lowest_eq_iff.mp hr
  obtain ⟨hwopen, hwlow⟩ := Descriptors.lowest_eq_iff.mp hw
  simp only [ne_eq, hnone] at hropen hrlow
  simp only [Descriptors.get_put, ne_eq] at hwopen hwlow
  have hwr : w ≠ r := by
    intro e
    rw [if_pos e] at hwopen
    contradiction
  rw [if_neg hwr, hnone] at hwopen
  have hzero : r = 0 ↔ t.get 0 = none := by
    constructor
    · rintro rfl
      exact hropen
    · intro h
      by_contra hne
      exact hrlow 0 (Nat.pos_of_ne_zero hne) h
  have hw0 : w ≠ 0 := by
    rintro rfl
    exact hwr (hzero.mpr hwopen).symm
  refine ⟨⟨hropen, hwopen, hwr.symm⟩, hzero, hw0, ?_, fun n => ?_⟩
  · constructor
    · rintro rfl
      refine ⟨?_, hwopen⟩
      by_contra hopen
      have hlow : ¬ 1 < r := fun hlt => hrlow 1 hlt hwopen
      have hr0 : r ≠ 0 := fun e => hopen (hzero.mp e)
      exact hwr (by omega)
    · rintro ⟨h0, h1⟩
      have hr0 := hzero.mpr h0
      by_contra hne
      have hlt : 1 < w := by omega
      apply hwlow 1 hlt
      rw [if_neg (by omega), hnone]
      exact h1
  · rw [← ht', Descriptors.get_put, Descriptors.get_put, Descriptors.get_embed]

theorem parentFiles_writes (h : (t.embed File.other).pipe .readEnd .writeEnd = (r, w, t')) :
    ∃ p, parentFiles r w t' = some p ∧ Writes t p := by
  obtain ⟨⟨hr, hw, hne⟩, hzero, hw0, hone, hget⟩ := pipe_spec h
  have hropen : t'.get r ≠ none := by
    rw [hget, if_neg hne, if_pos rfl]
    simp
  have hwend : (t'.put r none).get w = some .writeEnd := by
    rw [Descriptors.get_put, if_neg hne.symm, hget, if_pos rfl]
  obtain ⟨t₂, hdup, hget₂⟩ := Descriptors.dup2_of_open hwend 1
  have hwopen : t₂.get w ≠ none := by
    rw [hget₂]
    split
    · simp
    · rw [hwend]
      simp
  refine ⟨t₂.put w none, ?_, fun n => ?_⟩
  · simp only [parentFiles, Descriptors.close_of_open hropen, Option.bind_eq_bind, Option.bind_some,
      hdup, Descriptors.close_of_open hwopen]
  · rw [Descriptors.get_put, hget₂, Descriptors.get_put, hget]
    by_cases hn : n = w
    · subst hn
      rw [if_pos rfl]
      by_cases h1 : n = 1
      · rw [if_neg fun e => e.2 (hone.mp h1), hw]
        rfl
      · rw [if_neg fun e => h1 e.1, hw]
        rfl
    · rw [if_neg hn]
      by_cases h1 : n = 1
      · have hboth : ¬ (t.get 0 = none ∧ t.get 1 = none) := fun e => hn (h1.trans (hone.mpr e).symm)
        rw [if_pos h1, if_pos ⟨h1, hboth⟩]
      · have hout : ¬ (n = 1 ∧ ¬ (t.get 0 = none ∧ t.get 1 = none)) := fun e => h1 e.1
        rw [if_neg h1, if_neg hout]
        by_cases hnr : n = r
        · rw [if_pos hnr, hnr, hr]
          rfl
        · rw [if_neg hnr, if_neg hn, if_neg hnr]

theorem childFiles_reads (h : (t.embed File.other).pipe .readEnd .writeEnd = (r, w, t')) :
    ∃ c, childFiles r w t' = some c ∧ Reads t c := by
  obtain ⟨⟨hr, hw, hne⟩, hzero, hw0, hone, hget⟩ := pipe_spec h
  have hwopen : t'.get w ≠ none := by
    rw [hget, if_pos rfl]
    simp
  have hrend : (t'.put w none).get r = some .readEnd := by
    rw [Descriptors.get_put, if_neg hne, hget, if_neg hne, if_pos rfl]
  obtain ⟨t₂, hdup, hget₂⟩ := Descriptors.dup2_of_open hrend 0
  have hropen : t₂.get r ≠ none := by
    rw [hget₂]
    split
    · simp
    · rw [hrend]
      simp
  refine ⟨t₂.put r none, ?_, fun n => ?_⟩
  · simp only [childFiles, Descriptors.close_of_open hwopen, Option.bind_eq_bind, Option.bind_some,
      hdup, Descriptors.close_of_open hropen]
  · rw [Descriptors.get_put, hget₂, Descriptors.get_put, hget]
    by_cases hnr : n = r
    · have hclosed : ¬ (n = 0 ∧ t.get 0 ≠ none) := fun e => e.2 (hzero.mp (hnr.symm.trans e.1))
      rw [if_pos hnr, if_neg hclosed, hnr, hr]
      rfl
    · rw [if_neg hnr]
      by_cases h0 : n = 0
      · have hopen : t.get 0 ≠ none := fun e => hnr (h0.trans (hzero.mpr e).symm)
        rw [if_pos h0, if_pos ⟨h0, hopen⟩]
      · have hin : ¬ (n = 0 ∧ t.get 0 ≠ none) := fun e => h0 e.1
        rw [if_neg h0, if_neg hin]
        by_cases hnw : n = w
        · rw [if_pos hnw, hnw, hw]
          rfl
        · rw [if_neg hnw, if_neg hnw, if_neg hnr]

end

/-- The calls that fail decide alone how far the two processes come. -/
theorem pexecvFiles_spec (calls : PexecCalls) (t : Descriptors F) :
    (pexecvFiles calls t).1.isSome = calls.parent ∧ (pexecvFiles calls t).2.isSome = calls.child ∧
      (∀ p ∈ (pexecvFiles calls t).1, Writes t p) ∧
        ∀ c ∈ (pexecvFiles calls t).2, Reads t c := by
  obtain ⟨r, w, t', h⟩ : ∃ r w t', (t.embed File.other).pipe .readEnd .writeEnd = (r, w, t') :=
    ⟨_, _, _, rfl⟩
  obtain ⟨p, hparent, hp⟩ := parentFiles_writes h
  obtain ⟨c, hchild, hc⟩ := childFiles_reads h
  unfold pexecvFiles PexecCalls.parent PexecCalls.child
  simp only [h, hparent, hchild]
  by_cases hpipe : calls.pipe = true
  · by_cases hfork : calls.fork = true
    · simp only [hpipe, hfork, Bool.not_true, Bool.false_eq_true, ite_false, Bool.true_and]
      refine ⟨by split <;> simp_all, by split <;> simp_all, ?_, ?_⟩
      · intro p' hp'
        split at hp'
        · cases hp'
          exact hp
        · contradiction
      · intro c' hc'
        split at hc'
        · cases hc'
          exact hc
        · contradiction
    · simp [hpipe, hfork]
  · simp [hpipe]

/-- A response that `send_message` hands over comes to the mailer exactly when the
standard input was open before; no descriptor but these two refers to the pipe. -/
theorem response_connected {config : Config} {calls : PexecCalls} {host : Host}
    {sender rcpt canonRcpt vmsg subject : Bytes} {h : Headers} {sending : Sending}
    {mailer : Command} {text : Bytes}
    (hsend : sendMessage config calls host sender rcpt canonRcpt vmsg subject h = some sending)
    (hresponse : sending.response = some (mailer, text)) (t : Descriptors F) :
    ∃ p c, pexecvFiles calls t = (some p, some c) ∧ Writes t p ∧ Reads t c ∧
      ((p.get 1 = some .writeEnd ∧ c.get 0 = some .readEnd) ↔ t.get 0 ≠ none) ∧
      (∀ n, p.get n = some .writeEnd → n = 1) ∧ (∀ n, c.get n = some .readEnd → n = 0) ∧
      ∀ n, p.get n ≠ some .readEnd ∧ c.get n ≠ some .writeEnd := by
  obtain ⟨hprinted, hmailer⟩ : sending.printed.isSome = true ∧ sending.mailer.isSome = true := by
    unfold Sending.response at hresponse
    split at hresponse
    · next h₁ h₂ => simp [h₁, h₂]
    · contradiction
  have hargs : sendmailArgs config ≠ [] := by
    intro hnone
    rw [sendMessage_of_no_args hnone] at hsend
    contradiction
  obtain ⟨s, hs, -, hparent, hchild⟩ := @sendMessage_of_args config calls host sender rcpt canonRcpt
    vmsg subject h hargs
  cases hsend.symm.trans hs
  obtain ⟨hp, hc, hwrites, hreads⟩ := pexecvFiles_spec calls t
  rw [← hparent, hprinted] at hp
  rw [← hchild, hmailer] at hc
  obtain ⟨p, hp⟩ := Option.isSome_iff_exists.mp hp
  obtain ⟨c, hc⟩ := Option.isSome_iff_exists.mp hc
  have hw := hwrites p hp
  have hr := hreads c hc
  have hother : ∀ n, (t.get n).map File.other ≠ some .writeEnd ∧
      (t.get n).map File.other ≠ some .readEnd := by
    intro n
    cases t.get n <;> simp
  refine ⟨p, c, Prod.ext hp hc, hw, hr, ?_, ?_, ?_, ?_⟩
  · rw [hw, hr]
    by_cases h0 : t.get 0 = none
    · simp [h0]
    · simp [h0]
  · intro n hn
    by_contra h1
    rw [hw, if_neg fun e => h1 e.1] at hn
    exact (hother n).1 hn
  · intro n hn
    by_contra h0
    rw [hr, if_neg fun e => h0 e.1] at hn
    exact (hother n).2 hn
  · intro n
    rw [hw, hr]
    constructor
    · split
      · simp
      · exact (hother n).2
    · split
      · simp
      · exact (hother n).1

/-- With a closed standard input, the mailer of bob's response has none either. -/
theorem response_connected_closed : ∃ p c,
    pexecvFiles allCalls ([none, some 1, some 2] : Descriptors ℕ) = (some p, some c) ∧
      Writes [none, some 1, some 2] p ∧ Reads [none, some 1, some 2] c ∧
      ((p.get 1 = some .writeEnd ∧ c.get 0 = some .readEnd) ↔
        Descriptors.get ([none, some 1, some 2] : Descriptors ℕ) 0 ≠ none) ∧
      (∀ n, p.get n = some .writeEnd → n = 1) ∧ (∀ n, c.get n = some .readEnd → n = 0) ∧
      ∀ n, p.get n ≠ some .readEnd ∧ c.get n ≠ some .writeEnd :=
  response_connected (sendMessage_bob (bytes "Auto:") ⟨none, none, none, none, true⟩) rfl _

end Simvacation.PipeEnds
