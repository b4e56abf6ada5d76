import Simvacation.RedisCommands

/-!
What runs leave in Redis when they are stopped anywhere, between two commands
too. Every record was written by a run for its key, and it expires unless that
run is between its SET and its EXPIRE.
-/

namespace Simvacation.RecordExpiry

open CString Numerals Yasl Vutil Vdb ReplyTable Main Machine RedisCommands
open Concurrent (Process recordTime twins)

variable {L : Type}

/-- The Redis key of a run. -/
def storeKey (proc : Process L) : Option Bytes :=
  match admitted proc.args proc.world with
  | .error _ => none
  | .ok (m, _, canon) => some (redisVdbKey m.vdbh.rcpt canon)

/-- When an EXPIRE of a run lets a record go. -/
def expiresAt (procs : ℕ → Process L) (r : ℕ) : ℤ :=
  (procs r).world.storeReply.serverTime + expiry

/-- A run whose next stage is its EXPIRE. -/
def Expiring (phase : Phase L) : Prop :=
  ∃ str m sender canon, phase = .doing .expire str m sender canon

/-- A record is that of a run which has taken its SET, or its EXPIRE too unless
another run's came first. -/
structure Written (procs : ℕ → Process L) (taken : List Step) (s : System L) (key : Bytes)
    (e : RedisEntry) (q : ℕ) : Prop where
  set : ⟨q, .set⟩ ∈ taken
  own : storeKey (procs q) = some key
  value : e.value = (printInt (recordTime procs q)).take 15
  expiring : e.expireAt = none → Expiring (s.phase q)
  expires : ∀ x ∈ e.expireAt, ∃ r, ⟨r, .expire⟩ ∈ taken ∧ storeKey (procs r) = some key ∧
    x = expiresAt procs r

/-- Every record of the store is a written one. -/
def AllWritten (procs : ℕ → Process L) (taken : List Step) (s : System L) : Prop :=
  ∀ key e, s.db key = some e → ∃ q, Written procs taken s key e q

section

variable {procs : ℕ → Process L} {taken : List Step} {s : System L} {i : Step} {key : Bytes}
  {e : RedisEntry} {q : ℕ} {m : Accepted L} {sender canon : Bytes}

theorem storeKey_of_admitted {proc : Process L}
    (h : admitted proc.args proc.world = .ok (m, sender, canon)) :
    storeKey proc = some (redisVdbKey m.vdbh.rcpt canon) := by
  unfold storeKey
  rw [h]

/-- A stage other than EXPIRE leaves a run that is to send it where it is. -/
theorem advance_of_expiring {proc : Process L} {db : RedisDb} {phase : Phase L} {c : Stage}
    (h : Expiring phase) (hc : c ≠ .expire) : advance proc db phase c = (db, phase, false) := by
  obtain ⟨str, m, sender, canon, rfl⟩ := h
  cases c with
  | expire => exact absurd rfl hc
  | _ => rfl

variable (hexpire : ∀ p, (procs p).world.storeReply.expire = true)

include hexpire

/-- The EXPIRE of a run for its own key finds a record that does not expire. -/
theorem db_of_expire (hsound : s.Sound procs) (h : Expiring (s.phase q)) :
    ∃ m sender canon, admitted (procs q).args (procs q).world = .ok (m, sender, canon) ∧
      ((scheduler procs).step s ⟨q, .expire⟩).1.db =
        s.db.expire (procs q).world.storeReply.serverTime (redisVdbKey m.vdbh.rcpt canon)
          expiry := by
  obtain ⟨str, m, sender, canon, hphase⟩ := h
  have hadmitted := hsound q
  rw [hphase] at hadmitted
  refine ⟨m, sender, canon, hadmitted, ?_⟩
  simp only [scheduler, hphase, advance, hexpire q, ite_true]

omit hexpire in
theorem Written.mono {s' : System L} {more : List Step} (h : Written procs taken s key e q)
    (hphase : e.expireAt = none → Expiring (s'.phase q)) :
    Written procs (taken ++ more) s' key e q where
  set := List.mem_append_left _ h.set
  own := h.own
  value := h.value
  expiring := hphase
  expires x hx := by
    obtain ⟨r, hr, hown, heq⟩ := h.expires x hx
    exact ⟨r, List.mem_append_left _ hr, hown, heq⟩

omit hexpire in
theorem lookup_of_no_expiry {db : RedisDb} (he : db key = some e) (hnone : e.expireAt = none)
    (now : ℤ) : db.lookup now key = some e := by
  simp [RedisDb.lookup, he, hnone]

/-- A run that is to send its EXPIRE and has not done so is still to send it. -/
theorem expiring_step (hsound : s.Sound procs) (hown : storeKey (procs q) = some key)
    (he : ((scheduler procs).step s i).1.db key = some e) (hold : s.db key = some e)
    (hnone : e.expireAt = none) (h : Expiring (s.phase q)) :
    Expiring (((scheduler procs).step s i).1.phase q) := by
  by_cases hq : q = i.pid
  · subst hq
    by_cases hstage : i.stage = .expire
    · -- the EXPIRE would have changed the record
      obtain ⟨m, sender, canon, hadmitted, hdb⟩ := db_of_expire hexpire hsound h
      have hi : i = ⟨i.pid, .expire⟩ := by rw [← hstage]
      have hkey := Option.some.inj ((storeKey_of_admitted hadmitted).symm.trans hown)
      rw [hi] at he
      simp only [hdb, hkey, RedisDb.expire, lookup_of_no_expiry hold hnone] at he
      rw [Function.update_self] at he
      rw [← Option.some.inj he] at hnone
      contradiction
    · rw [phase_of_pid, advance_of_expiring h hstage]
      exact h
  · rw [phase_of_ne hq]
    exact h

theorem allWritten_step (hsound : s.Sound procs) (h : AllWritten procs taken s) :
    AllWritten procs (taken ++ ((scheduler procs).step s i).2.toList)
      ((scheduler procs).step s i).1 := by
  intro key e he
  have hkeep : s.db key = some e → ∃ q, Written procs
      (taken ++ ((scheduler procs).step s i).2.toList) ((scheduler procs).step s i).1 key e q := by
    intro hold
    obtain ⟨q, hq⟩ := h key e hold
    exact ⟨q, hq.mono fun hnone =>
      expiring_step hexpire hsound hq.own he hold hnone (hq.expiring hnone)⟩
  obtain ⟨p, c⟩ := i
  have hdb : ((scheduler procs).step s ⟨p, c⟩).1.db = (advance (procs p) s.db (s.phase p) c).1 :=
    rfl
  rw [hdb] at he
  rcases advance_db (hsound p) with hsame | ⟨str, m, sender, canon, hadmitted, hphase, heffect⟩
  · exact hkeep (by rw [← he, hsame])
  have hown := storeKey_of_admitted hadmitted
  rcases heffect with ⟨-, heffect⟩ | ⟨rfl, heffect⟩ | ⟨rfl, heffect⟩
  · rw [heffect] at he
    by_cases hkey : key = redisVdbKey m.vdbh.rcpt canon
    · rw [hkey, RedisDb.del, Function.update_self] at he
      contradiction
    · exact hkeep (by rwa [RedisDb.del, Function.update_of_ne hkey] at he)
  · rw [heffect] at he
    by_cases hkey : key = redisVdbKey m.vdbh.rcpt canon
    · rw [hkey, RedisDb.set, Function.update_self] at he
      cases he
      refine ⟨p, ?_, by rw [hown, hkey], rfl, fun _ => ?_, by rintro x ⟨⟩⟩
      · apply List.mem_append_right
        simp [scheduler, hphase, advance]
      · have hnext := @phase_of_pid _ procs s ⟨p, .set⟩
        rw [hphase] at hnext
        exact ⟨str, m, sender, canon, hnext⟩
    · exact hkeep (by rwa [RedisDb.set, Function.update_of_ne hkey] at he)
  · rw [heffect] at he
    by_cases hkey : key = redisVdbKey m.vdbh.rcpt canon
    · rw [← hkey] at he hown
      rcases lookup_cases s.db (procs p).world.storeReply.serverTime key with heq | ⟨hnone, -⟩
      · cases hold : s.db key with
        | none =>
          rw [hold] at heq
          rw [RedisDb.expire, heq] at he
          exact hkeep he
        | some e₀ =>
          rw [hold] at heq
          rw [RedisDb.expire, heq] at he
          simp only [Function.update_self] at he
          obtain ⟨q, hq⟩ := h key e₀ hold
          cases he
          refine ⟨q, List.mem_append_left _ hq.set, hq.own, hq.value, by rintro ⟨⟩, ?_⟩
          rintro _ ⟨⟩
          refine ⟨p, List.mem_append_right _ ?_, hown, rfl⟩
          simp [scheduler, hphase, advance]
      · rw [RedisDb.expire, hnone] at he
        exact hkeep he
    · exact hkeep (by rwa [expire_of_ne hkey] at he)

/-- Wherever the runs are stopped, a record of the store was written by a run for
its key, and expires 7 days after an EXPIRE for it; one that does not expire is that
of a run which has not come to its EXPIRE. -/
theorem records_written (steps : List Step) :
    AllWritten procs ((scheduler procs).outputs (System.init fun _ => none) steps)
      ((scheduler procs).final (System.init fun _ => none) steps) := by
  have hrun : ∀ (taken steps : List Step) (s : System L), s.Sound procs →
      AllWritten procs taken s →
        AllWritten procs (taken ++ (scheduler procs).outputs s steps)
          ((scheduler procs).final s steps) := by
    intro taken steps
    induction steps generalizing taken with
    | nil =>
      intro s _ h
      have hnone : (scheduler procs).outputs s [] = [] := rfl
      rw [hnone, List.append_nil]
      exact h
    | cons i steps ih =>
      intro s hsound h
      rw [outputs_cons, ← List.append_assoc]
      exact ih _ _ (sound_step hsound) (allWritten_step hexpire hsound h)
  exact hrun [] steps _ (fun _ => trivial) (by rintro key e ⟨⟩)

end

/-- A run that is killed behind its SET, and one that is not. -/
def killed : List Step :=
  [.get, .clock, .set].map (⟨0, ·⟩) ++ [.get, .judge].map (⟨1, ·⟩)

theorem records_written_killed :
    AllWritten (twins .redis)
      ((scheduler (twins .redis)).outputs (System.init fun _ => none) killed)
      ((scheduler (twins .redis)).final (System.init fun _ => none) killed) :=
  records_written (fun _ => rfl) killed

end Simvacation.RecordExpiry
