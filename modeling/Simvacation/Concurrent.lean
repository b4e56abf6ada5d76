import Simvacation.Spacing

/-!
Runs of `simvacation` that interleave. A process queries the reply store,
records its reply and sends it; nothing is locked between these steps. So two
processes that both query before either records both answer. That is the only
way: a process that queries after another has recorded keeps the interval.
-/

namespace Simvacation.Concurrent

open CString Numerals Yasl Vutil SendMessage Vdb Vlu Expiring Machine ReplyTable Backends Main
  Spacing

/-- The command line of a process, and what it meets outside. -/
structure Process (L : Type) where
  args : Args
  world : World L

inductive Action where
  | query
  | record
  | send
  deriving DecidableEq, Repr

/-- How far a process has come, with its variables. -/
inductive Phase (L : Type) where
  | start
  | queried (m : Accepted L) (sender canon : Bytes)
  | recorded (m : Accepted L) (sender canon : Bytes)
  | finished

variable {L : Type}

/-- An action of a process, and whether it has taken effect: a query that lets
the process go on, a record, and a response that is handed to a mailer. An
action that is not the next one does nothing. -/
def advance (proc : Process L) (store : Store) : Phase L → Action → Store × Phase L × Bool
  | .start, .query =>
    match admitted proc.args proc.world with
    | .error _ => (store, .finished, false)
    | .ok (m, sender, canon) =>
      let (status, store) := m.query proc.world.recent store canon
      if status = .recent then (store, .finished, false)
      else (store, .queried m sender canon, true)
  | .queried m sender canon, .record =>
    (m.record proc.world.storeReply store canon, .recorded m sender canon, true)
  | .recorded m sender canon, .send =>
    let sending := m.send proc.world.pexecv proc.world.host sender canon
    (store, .finished, (sending.bind Sending.response).isSome)
  | phase, _ => (store, phase, false)

structure Step where
  pid : ℕ
  action : Action
  deriving DecidableEq, Repr

structure System (L : Type) where
  store : Store
  phase : ℕ → Phase L

def System.init (store : Store) : System L := ⟨store, fun _ => .start⟩

/-- The answers are the steps that take effect. -/
def scheduler (procs : ℕ → Process L) : Machine (System L) Step (Option Step) where
  step s i :=
    let (store, phase, effect) := advance (procs i.pid) s.store (s.phase i.pid) i.action
    (⟨store, Function.update s.phase i.pid phase⟩, if effect then some i else none)

def Step.span (procs : ℕ → Process L) (i : Step) : Span :=
  let world := (procs i.pid).world
  match i.action with
  | .query => ⟨world.recent.serverTime, world.recent.time⟩
  | .record => ⟨world.storeReply.time, world.storeReply.serverTime⟩
  | .send => ⟨world.host.time, world.host.time⟩

/-- How many of its actions a process has taken. -/
def Phase.stage : Phase L → ℕ
  | .start => 0
  | .queried _ _ _ => 1
  | .recorded _ _ _ => 2
  | .finished => 3

def Action.stage : Action → ℕ
  | .query => 0
  | .record => 1
  | .send => 2

/-- The variables of a process are those of its own message. -/
def Phase.Sound (proc : Process L) : Phase L → Prop
  | .start => True
  | .queried m sender canon => admitted proc.args proc.world = .ok (m, sender, canon)
  | .recorded m sender canon => admitted proc.args proc.world = .ok (m, sender, canon)
  | .finished => True

section

variable {proc : Process L} {store : Store} {phase : Phase L} {action : Action}

/-- The actions of a process take effect in their order. -/
theorem advance_stage (proc : Process L) (store : Store) (phase : Phase L) (action : Action) :
    let r := advance proc store phase action
    (r.2.2 = true ∧ phase.stage = action.stage ∧ r.2.1.stage = action.stage + 1) ∨
      (r.2.2 = false ∧ (r.2.1.stage = phase.stage ∨ r.2.1.stage = 3)) := by
  simp only
  fun_cases advance proc store phase action with
  | case1 => exact Or.inr ⟨rfl, Or.inr rfl⟩
  | case2 => exact Or.inr ⟨rfl, Or.inr rfl⟩
  | case3 => exact Or.inl ⟨rfl, rfl, rfl⟩
  | case4 => exact Or.inl ⟨rfl, rfl, rfl⟩
  | case5 m sender canon sending =>
    cases h : (sending.bind Sending.response).isSome with
    | false => exact Or.inr ⟨rfl, Or.inr rfl⟩
    | true => exact Or.inl ⟨rfl, rfl, rfl⟩
  | case6 => exact Or.inr ⟨rfl, Or.inl rfl⟩

theorem advance_sound (h : phase.Sound proc) :
    (advance proc store phase action).2.1.Sound proc := by
  fun_cases advance proc store phase action with
  | case1 => trivial
  | case2 => trivial
  | case3 m sender canon hadmitted => exact hadmitted
  | case4 => exact h
  | case5 => trivial
  | case6 => exact h

/-- What an action does to the store. -/
theorem advance_cases (h : phase.Sound proc) :
    let r := advance proc store phase action
    (r.1 = store ∧ (r.2.2 = true → action = .send)) ∨
    ∃ m sender canon, admitted proc.args proc.world = .ok (m, sender, canon) ∧
      ((action = .query ∧ r.1 = (m.query proc.world.recent store canon).2 ∧
          (r.2.2 = true → (m.query proc.world.recent store canon).1 ≠ .recent)) ∨
        (action = .record ∧ r.1 = m.record proc.world.storeReply store canon)) := by
  simp only
  fun_cases advance proc store phase action with
  | case1 => exact Or.inl ⟨rfl, fun h => nomatch h⟩
  | case2 m sender canon hadmitted store' hquery =>
    exact Or.inr ⟨m, sender, canon, hadmitted, Or.inl ⟨rfl, by rw [hquery], fun h => nomatch h⟩⟩
  | case3 m sender canon hadmitted status store' hquery hstatus =>
    refine Or.inr ⟨m, sender, canon, hadmitted, Or.inl ⟨rfl, by rw [hquery], fun _ => ?_⟩⟩
    rw [hquery]
    exact hstatus
  | case4 m sender canon => exact Or.inr ⟨m, sender, canon, h, Or.inr ⟨rfl, rfl⟩⟩
  | case5 => exact Or.inl ⟨rfl, fun _ => rfl⟩
  | case6 => exact Or.inl ⟨rfl, fun h => nomatch h⟩

end

section

variable {procs : ℕ → Process L} {s : System L} {i : Step} {p : ℕ}

def System.Sound (procs : ℕ → Process L) (s : System L) : Prop := ∀ p, (s.phase p).Sound (procs p)

theorem sound_init (store : Store) : (System.init store).Sound procs := fun _ => trivial

theorem sound_step (h : s.Sound procs) : ((scheduler procs).step s i).1.Sound procs := by
  intro p
  simp only [scheduler]
  by_cases hp : p = i.pid
  · subst hp
    rw [Function.update_self]
    exact advance_sound (h i.pid)
  · rw [Function.update_of_ne hp]
    exact h p

theorem step_eq_some {e : Step} (h : ((scheduler procs).step s i).2 = some e) :
    e = i ∧ (advance (procs i.pid) s.store (s.phase i.pid) i.action).2.2 = true := by
  simp only [scheduler] at h
  split at h
  · rename_i heffect
    exact ⟨(Option.some.inj h).symm, heffect⟩
  · cases h

/-- A process takes its next step, stops, or stays where it is. -/
theorem stage_step (procs : ℕ → Process L) (s : System L) (i : Step) (p : ℕ) :
    let r := (scheduler procs).step s i
    (∃ a : Action, r.2 = some ⟨p, a⟩ ∧ (s.phase p).stage = a.stage ∧
        (r.1.phase p).stage = a.stage + 1) ∨
      ((∀ a, r.2 ≠ some ⟨p, a⟩) ∧
        ((r.1.phase p).stage = (s.phase p).stage ∨ (r.1.phase p).stage = 3)) := by
  simp only
  by_cases hp : p = i.pid
  · subst hp
    rcases advance_stage (procs i.pid) s.store (s.phase i.pid) i.action with
      ⟨heffect, hbefore, hafter⟩ | ⟨heffect, hstage⟩
    · left
      refine ⟨i.action, ?_, hbefore, ?_⟩
      · simp only [scheduler, heffect, ite_true]
      · simp only [scheduler, Function.update_self]
        exact hafter
    · right
      constructor
      · intro a ha
        rw [(step_eq_some ha).2] at heffect
        cases heffect
      · simp only [scheduler, Function.update_self]
        exact hstage
  · right
    constructor
    · intro a ha
      exact hp (congrArg Step.pid (step_eq_some ha).1)
    · left
      simp only [scheduler, Function.update_of_ne hp]

theorem Action.stage_injective {a c : Action} (h : a.stage = c.stage) : a = c := by
  cases a <;> cases c <;> first
    | rfl
    | cases h

theorem Action.stage_lt (a : Action) : a.stage < 3 := by
  cases a <;> decide

/-- An action takes effect only from its own stage on. -/
theorem stage_le_of_mem_outputs {steps : List Step} {a : Action}
    (h : ⟨p, a⟩ ∈ (scheduler procs).outputs s steps) : (s.phase p).stage ≤ a.stage := by
  induction steps generalizing s with
  | nil => exact absurd h List.not_mem_nil
  | cons i steps ih =>
    rw [outputs_cons, List.mem_append, Option.mem_toList] at h
    rcases stage_step procs s i p with ⟨a', heffect, hbefore, hafter⟩ | ⟨hnone, hstage⟩
    · rcases h with h | h
      · rw [heffect] at h
        cases h
        exact hbefore.le
      · have hle := ih h
        omega
    · rcases h with h | h
      · exact absurd h (hnone a)
      · have hle := ih h
        have hlt := a.stage_lt
        omega

/-- When an action has taken effect, so have those before it. -/
theorem earlier_mem_outputs {steps : List Step} {a c : Action}
    (h : ⟨p, a⟩ ∈ (scheduler procs).outputs s steps) (hleast : (s.phase p).stage ≤ c.stage)
    (hmost : c.stage ≤ a.stage) : ⟨p, c⟩ ∈ (scheduler procs).outputs s steps := by
  induction steps generalizing s with
  | nil => exact absurd h List.not_mem_nil
  | cons i steps ih =>
    rw [outputs_cons, List.mem_append, Option.mem_toList] at h ⊢
    rcases stage_step procs s i p with ⟨a', heffect, hbefore, hafter⟩ | ⟨hnone, hstage⟩
    · by_cases hc : c.stage = a'.stage
      · left
        rw [heffect, Action.stage_injective hc]
      · right
        rcases h with h | h
        · rw [heffect] at h
          cases h
          omega
        · exact ih h (by omega)
    · rcases h with h | h
      · exact absurd h (hnone a)
      · have hle := stage_le_of_mem_outputs h
        have hlt := a.stage_lt
        exact Or.inr (ih h (by omega))

/-- A process that nobody interrupts does what `main` does. -/
theorem run_alone (procs : ℕ → Process L) (p : ℕ) (store : Store) :
    let steps : List Step := [⟨p, .query⟩, ⟨p, .record⟩, ⟨p, .send⟩]
    let outcome := main (procs p).args (procs p).world store
    ((scheduler procs).final (System.init store) steps).store = outcome.store ∧
      (⟨p, .send⟩ ∈ (scheduler procs).outputs (System.init store) steps ↔
        outcome.response.isSome = true) := by
  simp only
  cases h : admitted (procs p).args (procs p).world with
  | error ending =>
    simp [Machine.final, Machine.outputs, Machine.run, scheduler, advance, h, System.init, main,
      Outcome.response]
  | ok admission =>
    obtain ⟨m, sender, canon⟩ := admission
    have hmain : main (procs p).args (procs p).world store =
        m.respond (procs p).world store sender canon := by
      simp only [main, h]
    rw [hmain]
    by_cases hrecent : (m.query (procs p).world.recent store canon).1 = .recent
    · rw [respond_of_recent hrecent]
      simp [Machine.final, Machine.outputs, Machine.run, scheduler, advance, h, System.init,
        hrecent, Outcome.response]
    · rw [respond_of_not_recent hrecent]
      simp only [Machine.final, Machine.outputs, Machine.run, scheduler, advance, h, System.init,
        hrecent, Outcome.response, Function.update_self, ite_false, ite_true]
      split <;> simp_all

end

section

variable {procs : ℕ → Process L} {b : Backend} {interval : Bytes → ℤ} {s : System L} {i : Step}
  {k : Key} {l t : ℤ} {p q : ℕ}

/-- The recipient and the canonical sender of a message that comes to the query. -/
def Process.target (proc : Process L) : Option (Bytes × Bytes) :=
  match admitted proc.args proc.world with
  | .error _ => none
  | .ok (m, _, canon) => some (m.rcpt, canon)

def Valid (procs : ℕ → Process L) (b : Backend) (interval : Bytes → ℤ) : Prop :=
  ∀ p, RunValid b interval (procs p).args (procs p).world

def queryTime (procs : ℕ → Process L) (p : ℕ) : ℤ := (procs p).world.recent.time

def recordTime (procs : ℕ → Process L) (p : ℕ) : ℤ := (procs p).world.storeReply.time

theorem target_of_admitted {proc : Process L} {m : Accepted L} {sender canon : Bytes}
    (h : admitted proc.args proc.world = .ok (m, sender, canon)) :
    proc.target = some (m.rcpt, canon) := by
  unfold Process.target
  rw [h]

/-- What a step does to the store. -/
theorem step_cases (hsound : s.Sound procs) (i : Step) :
    let r := (scheduler procs).step s i
    (r.1.store = s.store ∧ ∀ e, r.2 = some e → e.action = .send) ∨
    ∃ m sender canon, admitted (procs i.pid).args (procs i.pid).world = .ok (m, sender, canon) ∧
      ((i.action = .query ∧
          r.1.store = (m.query (procs i.pid).world.recent s.store canon).2 ∧
          ∀ e, r.2 = some e → (m.query (procs i.pid).world.recent s.store canon).1 ≠ .recent) ∨
        (i.action = .record ∧
          r.1.store = m.record (procs i.pid).world.storeReply s.store canon)) := by
  rcases @advance_cases L (procs i.pid) s.store (s.phase i.pid) i.action (hsound i.pid) with
    ⟨hsame, hsend⟩ | ⟨m, sender, canon, h, ⟨haction, hquery, hne⟩ | hrecord⟩
  · left
    refine ⟨hsame, fun e he => ?_⟩
    obtain ⟨rfl, heffect⟩ := step_eq_some he
    exact hsend heffect
  · right
    exact ⟨m, sender, canon, h, Or.inl ⟨haction, hquery, fun e he => hne (step_eq_some he).2⟩⟩
  · right
    exact ⟨m, sender, canon, h, Or.inr hrecord⟩

section

variable (hvalid : Valid procs b interval) (hkeeps : ∀ rcpt, b.Keeps (interval rcpt))

include hvalid hkeeps

theorem followed_step (hsound : s.Sound procs) (ht : t ≤ (i.span procs).first)
    (hspan : (i.span procs).first ≤ (i.span procs).last) (hf : Followed b interval t s.store) :
    Followed b interval (i.span procs).last ((scheduler procs).step s i).1.store := by
  rcases step_cases hsound i with ⟨hsame, -⟩ | ⟨m, sender, canon, h, ⟨haction, hquery, -⟩ |
    ⟨haction, hrecord⟩⟩
  · rw [hsame]
    exact hf.mono (ht.trans hspan)
  · rw [hquery]
    simp only [Step.span, haction] at ht ⊢
    exact (hvalid i.pid).followed_query hkeeps h ht hf
  · rw [hrecord]
    simp only [Step.span, haction] at ht ⊢
    exact ((hvalid i.pid).note hkeeps h ht hf).followed

/-- A step keeps an entry, and a query that goes on comes an interval after it. -/
theorem noted_step (hsound : s.Sound procs) (ht : t ≤ (i.span procs).first)
    (hspan : (i.span procs).first ≤ (i.span procs).last) (hn : Noted b interval k l t s.store) :
    Noted b interval k l (i.span procs).last ((scheduler procs).step s i).1.store ∧
      ∀ p rcpt canon, ((scheduler procs).step s i).2 = some ⟨p, .query⟩ →
        (procs p).target = some (rcpt, canon) → tableKey rcpt canon = k →
          l + interval rcpt ≤ queryTime procs p := by
  rcases step_cases hsound i with ⟨hsame, hsend⟩ | ⟨m, sender, canon, h, ⟨haction, hquery, hne⟩ |
    ⟨haction, hrecord⟩⟩
  · rw [hsame]
    exact ⟨hn.mono (ht.trans hspan), fun p rcpt canon heffect => nomatch hsend _ heffect⟩
  · rw [hquery]
    simp only [Step.span, haction] at ht ⊢
    obtain ⟨hstep, hlate⟩ := (hvalid i.pid).noted_query hkeeps h ht hn
    refine ⟨hstep, fun p rcpt canon' heffect htarget hk => ?_⟩
    have hpid : p = i.pid := congrArg Step.pid (step_eq_some heffect).1
    subst hpid
    rw [target_of_admitted h] at htarget
    cases htarget
    exact hlate hk (hne _ heffect)
  · rw [hrecord]
    simp only [Step.span, haction] at ht ⊢
    refine ⟨(hvalid i.pid).noted_record hkeeps h ht hn, fun p rcpt canon heffect => ?_⟩
    have hquery : Action.query = i.action := congrArg Step.action (step_eq_some heffect).1
    rw [haction] at hquery
    cases hquery

/-- A record is an entry for the key of its process. -/
theorem note_step {rcpt canon : Bytes} (hsound : s.Sound procs)
    (ht : t ≤ (i.span procs).first) (hf : Followed b interval t s.store)
    (heffect : ((scheduler procs).step s i).2 = some ⟨q, .record⟩)
    (htarget : (procs q).target = some (rcpt, canon)) :
    Noted b interval (tableKey rcpt canon) (recordTime procs q) (i.span procs).last
      ((scheduler procs).step s i).1.store := by
  have hi : i = ⟨q, .record⟩ := (step_eq_some heffect).1.symm
  subst hi
  rcases step_cases hsound ⟨q, .record⟩ with ⟨-, hsend⟩ | ⟨m, sender, canon', h, ⟨haction, -⟩ |
    ⟨-, hrecord⟩⟩
  · exact nomatch hsend _ heffect
  · cases haction
  · rw [hrecord]
    rw [target_of_admitted h] at htarget
    cases htarget
    exact (hvalid q).note hkeeps h ht hf

variable {steps : List Step} {rcpt canon : Bytes}

/-- Every later query that goes on comes an interval after an entry. -/
theorem queries_after (hsound : s.Sound procs)
    (hclock : Chronological (Step.span procs) t steps) (hn : Noted b interval k l t s.store)
    (hk : tableKey rcpt canon = k)
    (htarget : (procs p).target = some (rcpt, canon))
    (hp : ⟨p, .query⟩ ∈ (scheduler procs).outputs s steps) :
    l + interval rcpt ≤ queryTime procs p := by
  induction steps generalizing t s with
  | nil => exact absurd hp List.not_mem_nil
  | cons i steps ih =>
    obtain ⟨hfirst, hspan, hrest⟩ := hclock
    obtain ⟨hstep, hquery⟩ := noted_step hvalid hkeeps hsound hfirst hspan hn
    rw [outputs_cons, List.mem_append, Option.mem_toList] at hp
    rcases hp with hp | hp
    · exact hquery p rcpt canon hp htarget hk
    · exact ih (sound_step hsound) hrest hstep hp

/-- A query that goes on keeps the interval to a record. -/
def QueriedAfter (procs : ℕ → Process L) (interval : Bytes → ℤ) (e f : Step) : Prop :=
  e.action = .record → f.action = .query → ∀ rcpt canon, (procs e.pid).target = some (rcpt, canon) →
    (procs f.pid).target = some (rcpt, canon) →
      recordTime procs e.pid + interval rcpt ≤ queryTime procs f.pid

theorem outputs_pairwise (hsound : s.Sound procs)
    (hclock : Chronological (Step.span procs) t steps) (hf : Followed b interval t s.store) :
    ((scheduler procs).outputs s steps).Pairwise (QueriedAfter procs interval) := by
  induction steps generalizing t s with
  | nil => exact List.Pairwise.nil
  | cons i steps ih =>
    obtain ⟨hfirst, hspan, hrest⟩ := hclock
    have hlater := ih (sound_step hsound) hrest (followed_step hvalid hkeeps hsound hfirst hspan hf)
    rw [outputs_cons]
    cases he : ((scheduler procs).step s i).2 with
    | none => exact hlater
    | some e =>
      rw [Option.toList_some, List.singleton_append, List.pairwise_cons]
      refine ⟨fun f hmem hrecord hquery rcpt canon htarget htarget' => ?_, hlater⟩
      obtain ⟨q, a⟩ := e
      obtain ⟨p, c⟩ := f
      simp only at hrecord hquery
      subst hrecord hquery
      have hnoted := note_step hvalid hkeeps hsound hfirst hf he htarget
      exact queries_after hvalid hkeeps (sound_step hsound) hrest hnoted rfl htarget' hmem

/-- A process that records less than an interval after another has queried before
the other recorded. -/
theorem query_precedes (hclock : Chronological (Step.span procs) t steps)
    (hp : ⟨p, .send⟩ ∈ (scheduler procs).outputs (System.init Store.empty) steps)
    (hq : ⟨q, .send⟩ ∈ (scheduler procs).outputs (System.init Store.empty) steps)
    (htargetp : (procs p).target = some (rcpt, canon))
    (htargetq : (procs q).target = some (rcpt, canon))
    (hclose : recordTime procs p < recordTime procs q + interval rcpt) :
    Precedes ((scheduler procs).outputs (System.init Store.empty) steps) ⟨p, .query⟩
      ⟨q, .record⟩ := by
  have hquery : ⟨p, .query⟩ ∈ (scheduler procs).outputs (System.init Store.empty) steps :=
    earlier_mem_outputs hp (Nat.le_refl 0) (by decide)
  have hrecord : ⟨q, .record⟩ ∈ (scheduler procs).outputs (System.init Store.empty) steps :=
    earlier_mem_outputs hq (Nat.zero_le 1) (by decide)
  have hfollowed : Followed b interval t (@System.init L Store.empty).store :=
    ⟨Table.empty, b.follows_empty t⟩
  have hpairwise := outputs_pairwise hvalid hkeeps (sound_init Store.empty) hclock hfollowed
  have hne : (⟨p, .query⟩ : Step) ≠ ⟨q, .record⟩ := fun e => nomatch congrArg Step.action e
  rcases precedes_or_precedes hquery hrecord hne with hfirst | hlast
  · exact hfirst
  · have hlate := hlast.rel hpairwise rfl rfl rcpt canon htargetq htargetp
    have horder : queryTime procs p ≤ recordTime procs p := (hvalid p).record
    simp only at hlate
    omega

end

/-- Two processes that answer the same sender for the same recipient, with less
than an interval between their records, have both queried before either recorded. -/
theorem close_responses_overlap (hvalid : Valid procs b interval)
    (hkeeps : ∀ rcpt, b.Keeps (interval rcpt)) (hclock : Chronological (Step.span procs) t steps)
    (hp : ⟨p, .send⟩ ∈ (scheduler procs).outputs (System.init Store.empty) steps)
    (hq : ⟨q, .send⟩ ∈ (scheduler procs).outputs (System.init Store.empty) steps)
    (htargetp : (procs p).target = some (rcpt, canon))
    (htargetq : (procs q).target = some (rcpt, canon))
    (hclose : |recordTime procs p - recordTime procs q| < interval rcpt) :
    Precedes ((scheduler procs).outputs (System.init Store.empty) steps) ⟨p, .query⟩ ⟨q, .record⟩ ∧
      Precedes ((scheduler procs).outputs (System.init Store.empty) steps) ⟨q, .query⟩
        ⟨p, .record⟩ := by
  obtain ⟨hleft, hright⟩ := abs_lt.mp hclose
  constructor
  · exact query_precedes hvalid hkeeps hclock hp hq htargetp htargetq (by omega)
  · exact query_precedes hvalid hkeeps hclock hq hp htargetq htargetp (by omega)

end

/-- Deliveries of one message to bob, all at one moment. -/
def twins (b : Backend) : ℕ → Process Unit := fun _ =>
  ⟨deliver (bytes "a@b") (bytes "bob"), toBob b 60 60⟩

/-- Both query, both record, both send. -/
def race : List Step :=
  [⟨0, .query⟩, ⟨1, .query⟩, ⟨0, .record⟩, ⟨1, .record⟩, ⟨0, .send⟩, ⟨1, .send⟩]

theorem valid_twins (b : Backend) : Valid (twins b) b fun _ => 60 :=
  fun _ => runValid_toBob b 60 ⟨by decide, by decide⟩

theorem chronological_race (b : Backend) : Chronological (Step.span (twins b)) 0 race := by
  cases b with
  | redis => decide
  | lmdb => decide

theorem close_responses_overlap_twins :
    Precedes ((scheduler (twins .lmdb)).outputs (System.init Store.empty) race) ⟨0, .query⟩
        ⟨1, .record⟩ ∧
      Precedes ((scheduler (twins .lmdb)).outputs (System.init Store.empty) race) ⟨1, .query⟩
        ⟨0, .record⟩ := by
  have hkeeps : Backend.lmdb.Keeps 60 := ⟨by decide, by decide⟩
  have htarget : (twins .lmdb 0).target = some (bytes "bob", bytes "a@b") := by decide +kernel
  exact close_responses_overlap (valid_twins .lmdb) (fun _ => hkeeps) (chronological_race .lmdb)
    (by decide +kernel) (by decide +kernel) htarget htarget (by decide)

/-- At most one response in any window of an interval. -/
def OneResponse (procs : ℕ → Process L) (interval : Bytes → ℤ) (steps : List Step) : Prop :=
  ∀ p q rcpt canon, p ≠ q →
    ⟨p, .send⟩ ∈ (scheduler procs).outputs (System.init Store.empty) steps →
    ⟨q, .send⟩ ∈ (scheduler procs).outputs (System.init Store.empty) steps →
    (procs p).target = some (rcpt, canon) → (procs q).target = some (rcpt, canon) →
      interval rcpt ≤ |((procs p).world.host.time : ℤ) - (procs q).world.host.time|

/-- Two processes that race both answer, on either backend. -/
theorem race_answers_twice :
    (Valid (twins .redis) .redis (fun _ => 60) ∧ Chronological (Step.span (twins .redis)) 0 race ∧
      ¬ OneResponse (twins .redis) (fun _ => 60) race) ∧
    (Valid (twins .lmdb) .lmdb (fun _ => 60) ∧ Chronological (Step.span (twins .lmdb)) 0 race ∧
      ¬ OneResponse (twins .lmdb) (fun _ => 60) race) := by
  refine ⟨⟨valid_twins .redis, chronological_race .redis, fun h => ?_⟩,
    ⟨valid_twins .lmdb, chronological_race .lmdb, fun h => ?_⟩⟩
  · have htarget : (twins .redis 0).target = some (bytes "bob", bytes "a@b") := by decide +kernel
    have hapart := h 0 1 _ _ (by decide) (by decide +kernel) (by decide +kernel) htarget htarget
    revert hapart
    decide
  · have htarget : (twins .lmdb 0).target = some (bytes "bob", bytes "a@b") := by decide +kernel
    have hapart := h 0 1 _ _ (by decide) (by decide +kernel) (by decide +kernel) htarget htarget
    revert hapart
    decide

end Simvacation.Concurrent
