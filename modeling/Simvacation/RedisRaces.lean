import Simvacation.RedisCommands

/-!
Races between runs on Redis. A record that is there stops every run that asks for
it while it counts; so it is lost only to a run that asked before, whose DEL is
late or whose SET has an older time. A response that comes too early is behind
such a command.
-/

namespace Simvacation.RedisRaces

open CString Numerals Yasl Vutil SendMessage Vdb ReplyTable Backends Main Machine Spacing
open RedisCommands
open Concurrent (Process Valid queryTime recordTime)

variable {L : Type}

/-- The record under a key is of time `l` or later, and stays for 7 days. -/
def Entry (k : Key) (l : ℤ) (db : RedisDb) : Prop :=
  ∃ e last, db (redisKey k) = some e ∧ e.value = printInt last ∧ InRange last ∧ l ≤ last ∧
    ∀ x ∈ e.expireAt, l + expiry ≤ x

section

variable {k : Key} {l now : ℤ} {db : RedisDb}

theorem Entry.of_eq {db' : RedisDb} (h : Entry k l db)
    (heq : db' (redisKey k) = db (redisKey k)) : Entry k l db' := by
  obtain ⟨e, last, he, hrest⟩ := h
  exact ⟨e, last, heq.trans he, hrest⟩

theorem Entry.get (h : Entry k l db) (hnow : now < l + expiry) :
    ∃ last, db.get now (redisKey k) = some (printInt last) ∧ InRange last ∧ l ≤ last := by
  obtain ⟨e, last, he, hvalue, hrange, hlast, hexpire⟩ := h
  have hcounts : e.expireAt.all (now < ·) = true := by
    cases hx : e.expireAt with
    | none => rfl
    | some x =>
      have hle := hexpire x hx
      simp only [Option.all_some, decide_eq_true_eq]
      omega
  refine ⟨last, ?_, hrange, hlast⟩
  simp only [RedisDb.get, RedisDb.lookup, he, Option.filter_some, hcounts, ite_true,
    Option.map_some, hvalue]

theorem Entry.set {t : ℤ} (ht : InRange t) (hl : l ≤ t) :
    Entry k l (db.set (redisKey k) ((printInt t).take 15)) :=
  ⟨⟨_, none⟩, t, Function.update_self _ _ _, printInt_take ht, ht, hl, fun _ hx => nomatch hx⟩

theorem Entry.expire (h : Entry k l db) (hnow : l ≤ now) :
    Entry k l (db.expire now (redisKey k) expiry) := by
  unfold RedisDb.expire
  rcases lookup_cases db now (redisKey k) with heq | ⟨hnone, -⟩
  · obtain ⟨e, last, he, hvalue, hrange, hlast, -⟩ := h
    rw [heq, he]
    refine ⟨_, last, Function.update_self _ _ _, hvalue, hrange, hlast, ?_⟩
    rintro _ ⟨⟩
    omega
  · rw [hnone]
    exact h

end

/-- The entry of the reply table that a run is about. -/
def key (proc : Process L) : Option Key := proc.target.map fun t => tableKey t.1 t.2

/-- A DEL, or a SET of a time before `l`, for the key. -/
structure Interferes (procs : ℕ → Process L) (k : Key) (l : ℤ) (e : Step) : Prop where
  key : key (procs e.pid) = some k
  stage : e.stage = .del ∨ (e.stage = .set ∧ recordTime procs e.pid < l)

/-- A run that has seen nothing, or only a record of time `l` or later. -/
def Harmless (l : ℤ) : Phase L → Prop
  | .start => True
  | .doing .judge str _ _ _ => ∃ last, str = printInt last ∧ InRange last ∧ l ≤ last
  | .doing _ _ _ _ _ => False
  | .finished => True

/-- The record is there, and only runs in `D` can do it any harm. -/
structure Held (procs : ℕ → Process L) (k : Key) (l : ℤ) (D : ℕ → Prop) (s : System L) :
    Prop where
  entry : Entry k l s.db
  harmless : ∀ r, ¬ D r → key (procs r) = some k → Harmless l (s.phase r)

section

variable {procs : ℕ → Process L} {interval : Bytes → ℤ} {s : System L} {i : Step} {k : Key}
  {l : ℤ} {D : ℕ → Prop} {p q : ℕ} {m : Accepted L} {sender canon : Bytes}

theorem key_of_admitted {proc : Process L}
    (h : admitted proc.args proc.world = .ok (m, sender, canon)) :
    key proc = some (tableKey m.rcpt canon) := by
  rw [key, Concurrent.target_of_admitted h]
  rfl

variable (hvalid : Valid procs .redis interval)
  (hkeeps : ∀ rcpt, Backend.redis.Keeps (interval rcpt))

include hvalid

/-- The Redis key of a run, and that of its entry. -/
theorem redisVdbKey_of_admitted
    (h : admitted (procs p).args (procs p).world = .ok (m, sender, canon)) :
    redisVdbKey m.vdbh.rcpt canon = redisKey (tableKey m.rcpt canon) ∧ 0 ∉ m.rcpt := by
  obtain ⟨hnul, hhandle⟩ := (hvalid p).handle h
  rw [hhandle]
  exact ⟨rfl, hnul⟩

/-- A stage that does not interfere keeps the record. -/
theorem entry_step (hsound : s.Sound procs) (hk : 0 ∉ k.1) (hheld : Held procs k l D s)
    (hsafe : D i.pid → ¬ Interferes procs k l i) (hlater : ∀ x ∈ reading procs i, l ≤ x) :
    Entry k l ((scheduler procs).step s i).1.db := by
  have hdb : ((scheduler procs).step s i).1.db =
      (advance (procs i.pid) s.db (s.phase i.pid) i.stage).1 := rfl
  rw [hdb]
  rcases advance_db (hsound i.pid) with hsame | ⟨str, m, sender, canon, hadmitted, hphase, heffect⟩
  · rw [hsame]
    exact hheld.entry
  obtain ⟨hkey, hnul⟩ := redisVdbKey_of_admitted hvalid hadmitted
  rw [hkey] at heffect
  by_cases hj : tableKey m.rcpt canon = k
  · subst hj
    have hown := key_of_admitted hadmitted
    -- a run outside of `D` has no command that writes as its next stage
    have hmember : i.stage ≠ .judge → D i.pid := by
      intro hjudge
      by_contra hout
      have hharmless := hheld.harmless i.pid hout hown
      rw [hphase] at hharmless
      cases hstage : i.stage <;> rw [hstage] at hharmless hjudge <;> contradiction
    rcases heffect with ⟨hstage, -⟩ | ⟨hstage, heffect⟩ | ⟨hstage, heffect⟩
    · have hD := hmember (by simp [hstage])
      exact absurd ⟨hown, Or.inl hstage⟩ (hsafe hD)
    · have hD := hmember (by simp [hstage])
      rw [heffect]
      apply Entry.set (hvalid i.pid).recordRange
      by_contra hlt
      exact hsafe hD ⟨hown, Or.inr ⟨hstage, by simpa [recordTime] using hlt⟩⟩
    · rw [heffect]
      apply hheld.entry.expire
      exact hlater _ (by simp [reading, hstage])
  · have hne : redisKey k ≠ redisKey (tableKey m.rcpt canon) :=
      fun e => hj (redisKey_inj hk hnul e).symm
    rcases heffect with ⟨-, heffect⟩ | ⟨-, heffect⟩ | ⟨-, heffect⟩
    · rw [heffect]
      exact hheld.entry.of_eq (Function.update_of_ne hne _ _)
    · rw [heffect]
      exact hheld.entry.of_eq (Function.update_of_ne hne _ _)
    · rw [heffect]
      exact hheld.entry.of_eq (expire_of_ne hne)

include hkeeps

/-- While the record counts, a run that sees it goes no further. -/
theorem harmless_advance {phase : Phase L} {c : Stage} (hown : key (procs p) = some k)
    (hsound : phase.Sound (procs p)) (hentry : Entry k l s.db) (h : Harmless l phase)
    (hsoon : ∀ x ∈ reading procs ⟨p, c⟩, x < l + interval k.1) :
    Harmless l (advance (procs p) s.db phase c).2.1 := by
  have hkept : ∀ rcpt, 0 ≤ interval rcpt ∧ interval rcpt ≤ expiry :=
    fun rcpt => ⟨(hkeeps rcpt).1.le, (hkeeps rcpt).2⟩
  have hinrange := (hvalid p).queryRange
  revert h hsoon hsound
  fun_cases advance (procs p) s.db phase c with
  | case1 => exact fun _ _ _ => trivial
  | case2 calls m sender canon hadmitted hget =>
    intro hsound h hsoon
    have hk := Option.some.inj ((key_of_admitted hadmitted).symm.trans hown)
    have hnow : calls.serverTime < l + interval k.1 := hsoon _ rfl
    have hle := (hkept k.1).2
    obtain ⟨last, hfound, -⟩ := hentry.get (show calls.serverTime < l + expiry by omega)
    rw [if_pos (hvalid p).recent.get, (redisVdbKey_of_admitted hvalid hadmitted).1, hk, hfound]
      at hget
    contradiction
  | case3 calls m sender canon hadmitted str hget =>
    intro hsound h hsoon
    have hk := Option.some.inj ((key_of_admitted hadmitted).symm.trans hown)
    have hnow : calls.serverTime < l + interval k.1 := hsoon _ rfl
    have hle := (hkept k.1).2
    obtain ⟨last, hfound, hrange, hlast⟩ :=
      hentry.get (show calls.serverTime < l + expiry by omega)
    rw [if_pos (hvalid p).recent.get, (redisVdbKey_of_admitted hvalid hadmitted).1, hk, hfound]
      at hget
    exact ⟨last, (Option.some.inj hget).symm, hrange, hlast⟩
  | case4 str m sender canon calls hneg => exact absurd hneg (Int.not_lt.mpr hinrange.1)
  | case5 => exact fun _ _ _ => trivial
  | case6 str m sender canon calls hpos hold =>
    intro hadmitted h hsoon
    have hk := Option.some.inj ((key_of_admitted hadmitted).symm.trans hown)
    have hnow : calls.time < l + interval k.1 := hsoon _ rfl
    obtain ⟨last, rfl, hrange, hlast⟩ := h
    have hinterval : m.interval = interval k.1 := by
      rw [((hvalid p).uses m sender canon hadmitted).2.1, ← hk]
      rfl
    have hadd : Addable (interval k.1) := Kept.addable (hkept k.1)
    rw [strtoll_printInt_of_inRange hrange, hinterval, addTime_eq hrange hadd] at hold
    omega
  | case7 => exact fun _ h _ => h.elim
  | case8 => exact fun _ h _ => h.elim
  | case9 => exact fun _ h _ => h.elim
  | case10 => exact fun _ h _ => h.elim
  | case11 => exact fun _ h _ => h.elim
  | case12 => exact fun _ _ _ => trivial
  | case13 => exact fun _ h _ => h

/-- A run outside of `D` does not become harmful while the record counts. -/
theorem harmless_step (hsound : s.Sound procs) (hheld : Held procs k l D s)
    (hsoon : ∀ x ∈ reading procs i, x < l + interval k.1) :
    ∀ r, ¬ D r → key (procs r) = some k →
      Harmless l (((scheduler procs).step s i).1.phase r) := by
  intro r hout hown
  have hharmless := hheld.harmless r hout hown
  by_cases hr : r = i.pid
  · subst hr
    rw [phase_of_pid]
    exact harmless_advance hvalid hkeeps hown (hsound i.pid) hheld.entry hharmless hsoon
  · rw [phase_of_ne hr]
    exact hharmless

theorem held_step (hsound : s.Sound procs) (hk : 0 ∉ k.1) (hheld : Held procs k l D s)
    (hsafe : D i.pid → ¬ Interferes procs k l i) (hlater : ∀ x ∈ reading procs i, l ≤ x)
    (hsoon : ∀ x ∈ reading procs i, x < l + interval k.1) :
    Held procs k l D ((scheduler procs).step s i).1 where
  entry := entry_step hvalid hsound hk hheld hsafe hlater
  harmless := harmless_step hvalid hkeeps hsound hheld hsoon

omit hkeeps in
/-- A stage that is not the next one, or fails, does no harm. -/
theorem held_of_idle (hheld : Held procs k l D s) (h : ((scheduler procs).step s i).2 = none) :
    Held procs k l D ((scheduler procs).step s i).1 := by
  rcases @advance_rank _ _ s.db (s.phase i.pid) i.stage (hvalid i.pid).recordRange.1 with
    ⟨heffect, -⟩ | ⟨hdb, -, hphase⟩
  · simp only [scheduler, heffect, ite_true] at h
    contradiction
  refine ⟨hheld.entry.of_eq (congrFun hdb _), fun r hout hown => ?_⟩
  by_cases hr : r = i.pid
  · subst hr
    rw [phase_of_pid]
    rcases hphase with hphase | hphase
    · rw [hphase]
      exact hheld.harmless i.pid hout hown
    · rw [hphase]
      trivial
  · rw [phase_of_ne hr]
    exact hheld.harmless r hout hown

omit hvalid hkeeps in
/-- A GET that takes effect is answered with a value or without. -/
theorem phase_of_get (hstart : s.phase p = .start)
    (h : ((scheduler procs).step s ⟨p, .get⟩).2 = some ⟨p, .get⟩) :
    ∃ m sender canon, admitted (procs p).args (procs p).world = .ok (m, sender, canon) ∧
      (((scheduler procs).step s ⟨p, .get⟩).1.phase p = .doing .clock [] m sender canon ∨
        ∃ str, ((scheduler procs).step s ⟨p, .get⟩).1.phase p =
          .doing .judge str m sender canon) := by
  have heffect := (step_eq_some h).2
  have hphase := @phase_of_pid _ procs s ⟨p, .get⟩
  rw [hstart] at heffect hphase
  rw [hphase]
  generalize hadvance : advance (procs p) s.db .start .get = r at heffect
  unfold advance at hadvance
  simp only at hadvance
  split at hadvance
  · rw [← hadvance] at heffect
    contradiction
  · next m sender canon hadmitted =>
    refine ⟨m, sender, canon, hadmitted, ?_⟩
    split at hadvance
    · rw [← hadvance]
      exact Or.inl rfl
    · rw [← hadvance]
      exact Or.inr ⟨_, rfl⟩

omit hkeeps in
/-- A run that has seen the record stops when it has read the clock. -/
theorem send_notMem_outputs {steps : List Step} {str : Bytes}
    (hphase : s.phase p = .doing .judge str m sender canon)
    (hrecent : queryTime procs p < addTime (strtoll str) m.interval) :
    ⟨p, .send⟩ ∉ (scheduler procs).outputs s steps := by
  have htimes : ∀ r, 0 ≤ recordTime procs r := fun r => (hvalid r).recordRange.1
  have hstopped : ∀ (s' : System L) (steps : List Step), s'.phase p = .finished →
      ⟨p, .send⟩ ∉ (scheduler procs).outputs s' steps := by
    intro s' steps hfinished h
    have hle := rank_le_of_mem_outputs htimes h
    rw [hfinished] at hle
    exact absurd hle (by simp [Phase.rank, Stage.rank])
  induction steps generalizing s with
  | nil => exact List.not_mem_nil
  | cons i steps ih =>
    rw [outputs_cons, List.mem_append, Option.mem_toList, not_or]
    rcases rank_step htimes s i p with ⟨c, heffect, hrank, -⟩ | ⟨hnone, hnext⟩
    · rw [hphase] at hrank
      have hc : Stage.judge = c := rank_injective hrank
      subst hc
      obtain rfl : ⟨p, .judge⟩ = i := (step_eq_some heffect).1
      refine ⟨by simp [heffect], hstopped _ _ ?_⟩
      have hnow : ¬ (procs p).world.recent.time < 0 := Int.not_lt.mpr (hvalid p).queryRange.1
      have hadvance := @phase_of_pid _ procs s ⟨p, .judge⟩
      simp only [queryTime] at hrecent
      simpa [hphase, advance, hnow, hrecent] using hadvance
    · refine ⟨hnone .send, ?_⟩
      rcases hnext with hnext | hnext
      · exact ih (hnext.trans hphase)
      · exact hstopped _ _ hnext

/-- A run that answers although the record is there sends its GET behind an
interference of a run in `D`. -/
theorem interfered {steps : List Step} (hsound : s.Sound procs) (hk : 0 ∉ k.1)
    (hheld : Held procs k l D s) (hp : ¬ D p) (hown : key (procs p) = some k)
    (hstart : s.phase p = .start)
    (hordered : ((scheduler procs).outputs s steps).Pairwise (InOrder procs))
    (hlater : ∀ e ∈ (scheduler procs).outputs s steps, ∀ x ∈ reading procs e, l ≤ x)
    (hsend : ⟨p, .send⟩ ∈ (scheduler procs).outputs s steps)
    (hclose : recordTime procs p < l + interval k.1) :
    ∃ e, D e.pid ∧ Interferes procs k l e ∧
      Precedes ((scheduler procs).outputs s steps) e ⟨p, .get⟩ := by
  have htimes : ∀ r, 0 ≤ recordTime procs r := fun r => (hvalid r).recordRange.1
  induction steps generalizing s with
  | nil => exact absurd hsend List.not_mem_nil
  | cons i steps ih =>
    have hmiddle : ∀ (s' : System L), s'.phase p = .start →
        ⟨p, .send⟩ ∈ (scheduler procs).outputs s' steps →
        ⟨p, .get⟩ ∈ (scheduler procs).outputs s' steps ∧
          ⟨p, .clock⟩ ∈ (scheduler procs).outputs s' steps := by
      intro s' hs' h
      refine ⟨always_mem_outputs htimes (by decide) h ?_ (by decide),
        always_mem_outputs htimes (by decide) h ?_ (by decide)⟩ <;>
      · rw [hs']
        exact Nat.zero_le _
    rw [outputs_cons] at hordered hlater hsend ⊢
    have hstop : ((scheduler procs).step s i).1.phase p = .finished →
        ⟨p, .send⟩ ∉ (scheduler procs).outputs ((scheduler procs).step s i).1 steps := by
      intro hfinished h
      have hle := rank_le_of_mem_outputs htimes h
      rw [hfinished] at hle
      exact absurd hle (by simp [Phase.rank, Stage.rank])
    rcases rank_step htimes s i p with ⟨c, heffect, hrank, -⟩ | ⟨hnone, hnext⟩
    · -- the GET itself sees the record, and the run stops
      rw [hstart] at hrank
      have hc : Stage.get = c := rank_injective hrank
      subst hc
      obtain rfl : ⟨p, .get⟩ = i := (step_eq_some heffect).1
      have hquery := (hvalid p).query
      have hrecord := (hvalid p).record
      simp only [recordTime] at hclose
      have hbefore : (procs p).world.recent.serverTime < l + interval k.1 := by omega
      have hsoon : ∀ x ∈ reading procs ⟨p, .get⟩, x < l + interval k.1 := by
        rintro _ ⟨⟩
        exact hbefore
      have hharmless := harmless_step hvalid hkeeps hsound hheld hsoon p hp hown
      have hrest : ⟨p, .send⟩ ∈
          (scheduler procs).outputs ((scheduler procs).step s ⟨p, .get⟩).1 steps := by
        rw [heffect] at hsend
        simpa using hsend
      obtain ⟨m, sender, canon, hadmitted, hphase | ⟨str, hphase⟩⟩ := phase_of_get hstart heffect
      · rw [hphase] at hharmless
        exact hharmless.elim
      · rw [hphase] at hharmless
        obtain ⟨last, rfl, hrange, hlast⟩ := hharmless
        have hkm := Option.some.inj ((key_of_admitted hadmitted).symm.trans hown)
        have hinterval : m.interval = interval k.1 := by
          rw [((hvalid p).uses m sender canon hadmitted).2.1, ← hkm]
          rfl
        have hadd : Addable (interval k.1) := Kept.addable ⟨(hkeeps k.1).1.le, (hkeeps k.1).2⟩
        refine absurd hrest (send_notMem_outputs hvalid hphase ?_)
        rw [strtoll_printInt_of_inRange hrange, hinterval, addTime_eq hrange hadd, queryTime]
        omega
    · have hrest : ⟨p, .send⟩ ∈
          (scheduler procs).outputs ((scheduler procs).step s i).1 steps := by
        rcases List.mem_append.mp hsend with h | h
        · exact absurd (Option.mem_toList.mp h) (hnone .send)
        · exact h
      have hstart' : ((scheduler procs).step s i).1.phase p = .start := by
        rcases hnext with hnext | hnext
        · exact hnext.trans hstart
        · exact absurd hrest (hstop hnext)
      obtain ⟨hget, hclock⟩ := hmiddle _ hstart' hrest
      cases heffect : ((scheduler procs).step s i).2 with
      | none =>
        rw [heffect] at hordered hlater
        exact ih (sound_step hsound) (held_of_idle hvalid hheld heffect) hstart' hordered hlater
          hrest
      | some e =>
        obtain rfl := (step_eq_some heffect).1
        rw [heffect, Option.toList_some, List.singleton_append] at hordered hlater
        rw [Option.toList_some, List.singleton_append]
        obtain ⟨hfirst, hordered⟩ := List.pairwise_cons.mp hordered
        by_cases hbad : D e.pid ∧ Interferes procs k l e
        · exact ⟨e, hbad.1, hbad.2, (List.singleton_sublist.mpr hget).cons_cons e⟩
        · have hsoon : ∀ x ∈ reading procs e, x < l + interval k.1 := by
            intro x hx
            exact lt_of_le_of_lt (hfirst _ hclock x hx _ rfl) hclose
          have hheld' := held_step hvalid hkeeps hsound hk hheld (fun hD hi => hbad ⟨hD, hi⟩)
            (hlater e List.mem_cons_self) hsoon
          obtain ⟨f, hD, hinterferes, hprecedes⟩ := ih (sound_step hsound) hheld' hstart' hordered
            (fun f hf => hlater f (List.mem_cons_of_mem e hf)) hrest
          exact ⟨f, hD, hinterferes, hprecedes.cons e⟩

omit hvalid hkeeps in
theorem db_of_set (hsound : s.Sound procs) (hset : (procs q).world.storeReply.set = true)
    (h : ((scheduler procs).step s ⟨q, .set⟩).2 = some ⟨q, .set⟩) :
    ∃ m sender canon, admitted (procs q).args (procs q).world = .ok (m, sender, canon) ∧
      ((scheduler procs).step s ⟨q, .set⟩).1.db = s.db.set (redisVdbKey m.vdbh.rcpt canon)
        ((printInt (recordTime procs q)).take 15) := by
  have heffect := (step_eq_some h).2
  have hadmitted := hsound q
  cases hphase : s.phase q with
  | start =>
    rw [hphase] at heffect
    contradiction
  | finished =>
    rw [hphase] at heffect
    contradiction
  | doing next str m sender canon =>
    rw [hphase] at heffect hadmitted
    cases next with
    | set =>
      refine ⟨m, sender, canon, hadmitted, ?_⟩
      simp only [scheduler, hphase, advance, hset, ite_true, recordTime]
    | _ => contradiction

end

/-- Two deliveries to bob at one moment and one ten seconds later. -/
def deliveries : ℕ → Process Unit := fun p =>
  ⟨deliver (bytes "a@b") (bytes "bob"), toBob .redis 60 (if p = 2 then 110 else 100)⟩

/-- A record of an earlier reply. -/
def oldRecord : RedisDb :=
  RedisDb.set (fun _ => none) (redisKey (tableKey (bytes "bob") (bytes "a@b"))) (bytes "1")

/-- The first run deletes the record of the second, so the third finds none. -/
def delayedDel : List Step :=
  [⟨0, .get⟩, ⟨0, .judge⟩] ++
    [.get, .judge, .del, .clock, .set, .expire, .send].map (⟨1, ·⟩) ++ [⟨0, .del⟩] ++
    [.get, .clock, .set, .expire, .send].map (⟨2, ·⟩)

theorem outputs_delayedDel :
    (scheduler deliveries).outputs (System.init oldRecord) delayedDel = delayedDel := by
  decide +kernel

theorem valid_deliveries : Valid deliveries .redis fun _ => 60 := by
  intro p
  simp only [deliveries]
  exact runValid_toBob .redis 60 (by split <;> exact ⟨by decide, by decide⟩)

end Simvacation.RedisRaces
