import Simvacation.Concurrent

/-!
Runs on Redis, command by command. The server takes one command at a time, so
other runs come between the GET and the DEL of a query, between the two commands
of a record, and between a command and the clock reading that belongs to it. A
run that has found an old record deletes whatever is there when its DEL arrives.
-/

namespace Simvacation.RedisCommands

open CString Numerals Yasl Vutil SendMessage Vdb ReplyTable Backends Main Machine Spacing
open Concurrent (Process Valid queryTime recordTime)

/-- The commands and clock readings of a run: `judge` reads the clock of the
query, `clock` that of the record. -/
inductive Stage where
  | get
  | judge
  | del
  | clock
  | set
  | expire
  | send
  deriving DecidableEq, Repr

structure Step where
  pid : ℕ
  stage : Stage
  deriving DecidableEq, Repr

/-- How far a run has come, with its variables; `str` is the value it was sent. -/
inductive Phase (L : Type) where
  | start
  | doing (next : Stage) (str : Bytes) (m : Accepted L) (sender canon : Bytes)
  | finished

variable {L : Type}

/-- A stage of a run, and whether it has taken effect. A stage that is not the
next one does nothing. -/
def advance (proc : Process L) (db : RedisDb) : Phase L → Stage → RedisDb × Phase L × Bool
  | .start, .get =>
    let calls := proc.world.recent
    match admitted proc.args proc.world with
    | .error _ => (db, .finished, false)
    | .ok (m, sender, canon) =>
      match if calls.get then db.get calls.serverTime (redisVdbKey m.vdbh.rcpt canon) else none with
      | none => (db, .doing .clock [] m sender canon, true)
      | some str => (db, .doing .judge str m sender canon, true)
  | .doing .judge str m sender canon, .judge =>
    let calls := proc.world.recent
    if calls.time < 0 then (db, .doing .clock str m sender canon, true)
    else if calls.time < addTime (strtoll str) m.interval then (db, .finished, true)
    else (db, .doing .del str m sender canon, true)
  | .doing .del str m sender canon, .del =>
    let db := if proc.world.recent.del then db.del (redisVdbKey m.vdbh.rcpt canon) else db
    (db, .doing .clock str m sender canon, true)
  | .doing .clock str m sender canon, .clock =>
    if proc.world.storeReply.time < 0 then (db, .doing .send str m sender canon, true)
    else (db, .doing .set str m sender canon, true)
  | .doing .set str m sender canon, .set =>
    let calls := proc.world.storeReply
    let value := (printInt calls.time).take 15
    let db := if calls.set then db.set (redisVdbKey m.vdbh.rcpt canon) value else db
    (db, .doing .expire str m sender canon, true)
  | .doing .expire str m sender canon, .expire =>
    let calls := proc.world.storeReply
    let key := redisVdbKey m.vdbh.rcpt canon
    let db := if calls.expire then db.expire calls.serverTime key expiry else db
    (db, .doing .send str m sender canon, true)
  | .doing .send _ m sender canon, .send =>
    let sending := m.send proc.world.pexecv proc.world.host sender canon
    (db, .finished, (sending.bind Sending.response).isSome)
  | phase, _ => (db, phase, false)

structure System (L : Type) where
  db : RedisDb
  phase : ℕ → Phase L

def System.init (db : RedisDb) : System L := ⟨db, fun _ => .start⟩

/-- The answers are the stages that take effect. -/
def scheduler (procs : ℕ → Process L) : Machine (System L) Step (Option Step) where
  step s i :=
    let (db, phase, effect) := advance (procs i.pid) s.db (s.phase i.pid) i.stage
    (⟨db, Function.update s.phase i.pid phase⟩, if effect then some i else none)

/-- The clock reading of a stage: of the server's clock where it matters, or of
the one of the run. -/
def reading (procs : ℕ → Process L) (i : Step) : Option ℤ :=
  let world := (procs i.pid).world
  match i.stage with
  | .get => some world.recent.serverTime
  | .judge => some world.recent.time
  | .clock => some world.storeReply.time
  | .expire => some world.storeReply.serverTime
  | _ => none

/-- The clocks agree, and do not go back. -/
def InOrder (procs : ℕ → Process L) (e f : Step) : Prop :=
  ∀ x ∈ reading procs e, ∀ y ∈ reading procs f, x ≤ y

def Stage.rank : Stage → ℕ
  | .get => 0
  | .judge => 1
  | .del => 2
  | .clock => 3
  | .set => 4
  | .expire => 5
  | .send => 6

def Phase.rank : Phase L → ℕ
  | .start => 0
  | .doing next _ _ _ _ => next.rank
  | .finished => 7

/-- The stages that can come after a stage in which no clock fails. -/
def Stage.next : Stage → List Stage
  | .get => [.judge, .clock]
  | .judge => [.del, .clock]
  | .del => [.clock]
  | .clock => [.set]
  | .set => [.expire]
  | .expire => [.send]
  | .send => []

/-- The stages that a run comes through before it sends. -/
def Stage.always : List Stage := [.get, .clock, .set]

/-- The variables of a run are those of its own message. -/
def Phase.Sound (proc : Process L) : Phase L → Prop
  | .start => True
  | .doing _ _ m sender canon => admitted proc.args proc.world = .ok (m, sender, canon)
  | .finished => True

section

variable {proc : Process L} {db : RedisDb} {phase : Phase L} {c : Stage}

theorem rank_next (c : Stage) : ∀ d ∈ c.next,
    c.rank < d.rank ∧ ∀ a ∈ Stage.always, c.rank < a.rank → d.rank ≤ a.rank := by
  cases c <;> decide

theorem rank_lt (c : Stage) : c.rank < 7 := by
  cases c <;> decide

theorem Phase.rank_le (phase : Phase L) : phase.rank ≤ 7 := by
  cases phase with
  | start => exact Nat.zero_le _
  | doing next => exact (rank_lt next).le
  | finished => exact Nat.le_refl _

theorem rank_injective {c d : Stage} (h : c.rank = d.rank) : c = d := by
  cases c <;> cases d <;> first
    | rfl
    | cases h

/-- The stages of a run take effect in their order. -/
theorem advance_rank (htime : 0 ≤ proc.world.storeReply.time) :
    let r := advance proc db phase c
    (r.2.2 = true ∧ phase.rank = c.rank ∧
        (r.2.1 = .finished ∨ ∃ d ∈ c.next, r.2.1.rank = d.rank)) ∨
      (r.1 = db ∧ r.2.2 = false ∧ (r.2.1 = phase ∨ r.2.1 = .finished)) := by
  simp only
  fun_cases advance proc db phase c with
  | case1 => exact Or.inr ⟨rfl, rfl, Or.inr rfl⟩
  | case2 => exact Or.inl ⟨rfl, rfl, Or.inr ⟨.clock, by decide, rfl⟩⟩
  | case3 => exact Or.inl ⟨rfl, rfl, Or.inr ⟨.judge, by decide, rfl⟩⟩
  | case4 => exact Or.inl ⟨rfl, rfl, Or.inr ⟨.clock, by decide, rfl⟩⟩
  | case5 => exact Or.inl ⟨rfl, rfl, Or.inl rfl⟩
  | case6 => exact Or.inl ⟨rfl, rfl, Or.inr ⟨.del, by decide, rfl⟩⟩
  | case7 => exact Or.inl ⟨rfl, rfl, Or.inr ⟨.clock, by decide, rfl⟩⟩
  | case8 str m sender canon hlt => exact absurd hlt (Int.not_lt.mpr htime)
  | case9 => exact Or.inl ⟨rfl, rfl, Or.inr ⟨.set, by decide, rfl⟩⟩
  | case10 => exact Or.inl ⟨rfl, rfl, Or.inr ⟨.expire, by decide, rfl⟩⟩
  | case11 => exact Or.inl ⟨rfl, rfl, Or.inr ⟨.send, by decide, rfl⟩⟩
  | case12 str m sender canon sending =>
    cases h : (sending.bind Sending.response).isSome with
    | false => exact Or.inr ⟨rfl, rfl, Or.inr rfl⟩
    | true => exact Or.inl ⟨rfl, rfl, Or.inl rfl⟩
  | case13 => exact Or.inr ⟨rfl, rfl, Or.inl rfl⟩

theorem advance_sound (h : phase.Sound proc) : (advance proc db phase c).2.1.Sound proc := by
  fun_cases advance proc db phase c with
  | case1 => trivial
  | case2 calls m sender canon hadmitted => exact hadmitted
  | case3 calls m sender canon hadmitted => exact hadmitted
  | case4 => exact h
  | case5 => trivial
  | case6 => exact h
  | case7 => exact h
  | case8 => exact h
  | case9 => exact h
  | case10 => exact h
  | case11 => exact h
  | case12 => trivial
  | case13 => exact h

/-- EXPIRE does nothing to other keys. -/
theorem expire_of_ne {now seconds : ℤ} {key other : Bytes} (h : other ≠ key) :
    db.expire now key seconds other = db other := by
  unfold RedisDb.expire
  cases db.lookup now key with
  | none => rfl
  | some e => exact Function.update_of_ne h _ _

/-- What a stage does to the store. -/
theorem advance_db (h : phase.Sound proc) :
    let db' := (advance proc db phase c).1
    db' = db ∨ ∃ str m sender canon, admitted proc.args proc.world = .ok (m, sender, canon) ∧
      phase = .doing c str m sender canon ∧
      ((c = .del ∧ db' = db.del (redisVdbKey m.vdbh.rcpt canon)) ∨
        (c = .set ∧ db' = db.set (redisVdbKey m.vdbh.rcpt canon)
          ((printInt proc.world.storeReply.time).take 15)) ∨
        (c = .expire ∧ db' = db.expire proc.world.storeReply.serverTime
          (redisVdbKey m.vdbh.rcpt canon) expiry)) := by
  simp only
  fun_cases advance proc db phase c with
  | case1 => exact Or.inl rfl
  | case2 => exact Or.inl rfl
  | case3 => exact Or.inl rfl
  | case4 => exact Or.inl rfl
  | case5 => exact Or.inl rfl
  | case6 => exact Or.inl rfl
  | case7 str m sender canon =>
    by_cases hdel : proc.world.recent.del = true
    · exact Or.inr ⟨str, m, sender, canon, h, rfl, Or.inl ⟨rfl, if_pos hdel⟩⟩
    · exact Or.inl (if_neg hdel)
  | case8 => exact Or.inl rfl
  | case9 => exact Or.inl rfl
  | case10 str m sender canon =>
    by_cases hset : proc.world.storeReply.set = true
    · exact Or.inr ⟨str, m, sender, canon, h, rfl, Or.inr (Or.inl ⟨rfl, if_pos hset⟩)⟩
    · exact Or.inl (if_neg hset)
  | case11 str m sender canon =>
    by_cases hexpire : proc.world.storeReply.expire = true
    · exact Or.inr ⟨str, m, sender, canon, h, rfl, Or.inr (Or.inr ⟨rfl, if_pos hexpire⟩)⟩
    · exact Or.inl (if_neg hexpire)
  | case12 => exact Or.inl rfl
  | case13 => exact Or.inl rfl

end

section

variable {procs : ℕ → Process L} {s : System L} {i : Step} {p : ℕ}

def System.Sound (procs : ℕ → Process L) (s : System L) : Prop := ∀ p, (s.phase p).Sound (procs p)

theorem sound_step (h : s.Sound procs) : ((scheduler procs).step s i).1.Sound procs := by
  intro p
  simp only [scheduler]
  by_cases hp : p = i.pid
  · subst hp
    rw [Function.update_self]
    exact advance_sound (h i.pid)
  · rw [Function.update_of_ne hp]
    exact h p

theorem sound_final {steps : List Step} (h : s.Sound procs) :
    ((scheduler procs).final s steps).Sound procs := by
  induction steps generalizing s with
  | nil => exact h
  | cons i steps ih => exact ih (sound_step h)

theorem step_eq_some {e : Step} (h : ((scheduler procs).step s i).2 = some e) :
    e = i ∧ (advance (procs i.pid) s.db (s.phase i.pid) i.stage).2.2 = true := by
  simp only [scheduler] at h
  split at h
  · rename_i heffect
    exact ⟨(Option.some.inj h).symm, heffect⟩
  · cases h

theorem phase_of_ne (h : p ≠ i.pid) : ((scheduler procs).step s i).1.phase p = s.phase p := by
  simp only [scheduler, Function.update_of_ne h]

theorem phase_of_pid : ((scheduler procs).step s i).1.phase i.pid =
    (advance (procs i.pid) s.db (s.phase i.pid) i.stage).2.1 := by
  simp only [scheduler, Function.update_self]

variable (htimes : ∀ p, 0 ≤ recordTime procs p)

include htimes

/-- A run takes its next stage, stops, or stays where it is. -/
theorem rank_step (s : System L) (i : Step) (p : ℕ) :
    let r := (scheduler procs).step s i
    (∃ c : Stage, r.2 = some ⟨p, c⟩ ∧ (s.phase p).rank = c.rank ∧
        (r.1.phase p = .finished ∨ ∃ d ∈ c.next, (r.1.phase p).rank = d.rank)) ∨
      ((∀ c, r.2 ≠ some ⟨p, c⟩) ∧ (r.1.phase p = s.phase p ∨ r.1.phase p = .finished)) := by
  simp only
  by_cases hp : p = i.pid
  · subst hp
    rcases @advance_rank _ _ s.db (s.phase i.pid) i.stage (htimes i.pid) with
      ⟨heffect, hbefore, hafter⟩ | ⟨-, heffect, hphase⟩
    · left
      refine ⟨i.stage, by simp only [scheduler, heffect, ite_true], hbefore, ?_⟩
      rw [phase_of_pid]
      exact hafter
    · right
      refine ⟨fun c hc => ?_, ?_⟩
      · rw [(step_eq_some hc).2] at heffect
        cases heffect
      · rw [phase_of_pid]
        exact hphase
  · right
    exact ⟨fun c hc => hp (congrArg Step.pid (step_eq_some hc).1), Or.inl (phase_of_ne hp)⟩

theorem rank_mono (s : System L) (i : Step) (p : ℕ) :
    (s.phase p).rank ≤ (((scheduler procs).step s i).1.phase p).rank := by
  rcases rank_step htimes s i p with ⟨d, -, hbefore, hafter⟩ | ⟨-, hphase⟩
  · have hlt := rank_lt d
    rcases hafter with hafter | ⟨e, he, hafter⟩
    · rw [hafter, Phase.rank]
      omega
    · have hnext := (rank_next d e he).1
      omega
  · rcases hphase with hphase | hphase
    · rw [hphase]
    · rw [hphase, Phase.rank]
      exact Phase.rank_le _

theorem rank_of_effect {c : Stage} (h : ((scheduler procs).step s i).2 = some ⟨p, c⟩) :
    (s.phase p).rank = c.rank := by
  rcases rank_step htimes s i p with ⟨d, heffect, hbefore, -⟩ | ⟨hnone, -⟩
  · rw [heffect] at h
    cases h
    exact hbefore
  · exact absurd h (hnone c)

/-- A stage takes effect only from its own place on. -/
theorem rank_le_of_mem_outputs {steps : List Step} {c : Stage}
    (h : ⟨p, c⟩ ∈ (scheduler procs).outputs s steps) : (s.phase p).rank ≤ c.rank :=
  place_le_of_mem_outputs (fun s : System L => (s.phase p).rank)
    (fun s i => rank_mono htimes s i p) (fun _ _ hc => (rank_of_effect htimes hc).le) h

/-- When a stage has taken effect, so have those before it that are always taken. -/
theorem always_mem_outputs {steps : List Step} {a c : Stage} (ha : a ∈ Stage.always)
    (h : ⟨p, c⟩ ∈ (scheduler procs).outputs s steps) (hleast : (s.phase p).rank ≤ a.rank)
    (hmost : a.rank ≤ c.rank) : ⟨p, a⟩ ∈ (scheduler procs).outputs s steps := by
  rcases hmost.eq_or_lt with heq | hlt
  · rwa [rank_injective heq]
  refine passed_mem_outputs (fun s : System L => (s.phase p).rank)
    (fun s i => rank_mono htimes s i p) (fun _ _ hc => rank_of_effect htimes hc) ?_ hlt hleast h
  intro s i hbefore hafter
  have hlast := rank_lt c
  rcases rank_step htimes s i p with ⟨d, heffect, hrank, hnext⟩ | ⟨-, hphase⟩
  · by_cases had : a.rank = d.rank
    · left
      rw [heffect, rank_injective had]
    · right
      rcases hnext with hnext | ⟨e, he, hnext⟩
      · rw [hnext, Phase.rank]
        exact hlast
      · have hskip := (rank_next d e he).2 a ha (by omega)
        omega
  · right
    rcases hphase with hphase | hphase
    · rw [hphase] at hafter
      omega
    · rw [hphase, Phase.rank]
      exact hlast

/-- A run that has not sent its GET has not begun, or will do nothing. -/
theorem phase_of_no_get {steps : List Step}
    (hphase : s.phase p = .start ∨ s.phase p = .finished)
    (h : ⟨p, .get⟩ ∉ (scheduler procs).outputs s steps) :
    ((scheduler procs).final s steps).phase p = .start ∨
      ((scheduler procs).final s steps).phase p = .finished := by
  induction steps generalizing s with
  | nil => exact hphase
  | cons i steps ih =>
    rw [outputs_cons, List.mem_append, Option.mem_toList, not_or] at h
    obtain ⟨hfirst, hrest⟩ := h
    apply ih _ hrest
    rcases rank_step htimes s i p with ⟨c, heffect, hbefore, -⟩ | ⟨-, hnext⟩
    · have hlt := rank_lt c
      rcases hphase with hphase | hphase
      · rw [hphase] at hbefore
        have hget : Stage.get = c := rank_injective hbefore
        rw [← hget] at heffect
        exact absurd heffect hfirst
      · rw [hphase, Phase.rank] at hbefore
        omega
    · rcases hnext with hnext | hnext
      · rw [hnext]
        exact hphase
      · exact Or.inr hnext

end

/-- A run that nobody interrupts. -/
def alone (proc : Process L) (x : RedisDb × Phase L) (stages : List Stage) : RedisDb × Phase L :=
  stages.foldl (fun x c => ((advance proc x.1 x.2 c).1, (advance proc x.1 x.2 c).2.1)) x

section

variable {proc : Process L} {db : RedisDb} {m : Accepted L} {sender canon str : Bytes}

/-- The stages of a query, with nothing between them, are `redis_vdb_recent`. -/
theorem query_alone (h : admitted proc.args proc.world = .ok (m, sender, canon)) :
    let r := alone proc (db, .start) [.get, .judge, .del]
    let recent := redisVdbRecent proc.world.recent db m.vdbh canon m.interval
    r.1 = recent.2 ∧
      if recent.1 = .recent then r.2 = .finished
      else ∃ str, r.2 = .doing .clock str m sender canon := by
  simp only [alone, List.foldl_cons, List.foldl_nil]
  have hget := advance.eq_1 proc db
  simp only [h] at hget
  have hquery := redisVdbRecent.eq_1 proc.world.recent db m.vdbh canon m.interval
  simp only at hquery
  rw [hget, hquery]
  generalize (if proc.world.recent.get = true then db.get proc.world.recent.serverTime
    (redisVdbKey m.vdbh.rcpt canon) else none) = found
  cases found with
  | none => simp [advance]
  | some str =>
    by_cases hneg : proc.world.recent.time < 0
    · simp [advance, hneg]
    · by_cases hrecent : proc.world.recent.time < addTime (strtoll str) m.interval
      · simp [advance, hneg, hrecent]
      · simp [advance, hneg, hrecent]

/-- The stages of a record are `redis_vdb_store_reply`. -/
theorem record_alone : alone proc (db, .doing .clock str m sender canon) [.clock, .set, .expire] =
    ((redisVdbStoreReply proc.world.storeReply db m.vdbh canon).2,
      .doing .send str m sender canon) := by
  unfold redisVdbStoreReply
  by_cases hneg : proc.world.storeReply.time < 0
  · simp [alone, advance, hneg]
  · simp [alone, advance, hneg]

end

section

variable {procs : ℕ → Process L} {p : ℕ}

theorem final_alone (s : System L) (stages : List Stage) :
    let s' := (scheduler procs).final s (stages.map fun c => ⟨p, c⟩)
    (s'.db, s'.phase p) = alone (procs p) (s.db, s.phase p) stages := by
  induction stages generalizing s with
  | nil => rfl
  | cons c stages ih =>
    have hstep := ih ((scheduler procs).step s ⟨p, c⟩).1
    have hphase := @phase_of_pid _ procs s ⟨p, c⟩
    simp only at hphase
    rw [hphase] at hstep
    exact hstep

theorem mem_of_mem_outputs {s : System L} {steps : List Step} {e : Step}
    (h : e ∈ (scheduler procs).outputs s steps) : e ∈ steps := by
  obtain ⟨before, i, after, rfl, heffect⟩ := mem_outputs h
  rw [(step_eq_some heffect).1]
  simp

/-- The last stage of a run that nobody interrupts. -/
theorem send_alone {s : System L} {stages : List Stage} (h : .send ∉ stages) :
    let x := alone (procs p) (s.db, s.phase p) stages
    ⟨p, .send⟩ ∈ (scheduler procs).outputs s ((stages ++ [Stage.send]).map fun c => ⟨p, c⟩) ↔
      (advance (procs p) x.1 x.2 .send).2.2 = true := by
  have hfinal := @final_alone _ procs p s stages
  simp only at hfinal ⊢
  rw [← hfinal, List.map_append, outputs_append, List.mem_append]
  have hfirst : ⟨p, .send⟩ ∉ (scheduler procs).outputs s (stages.map fun c => ⟨p, c⟩) := by
    intro hmem
    obtain ⟨c, hc, heq⟩ := List.mem_map.mp (mem_of_mem_outputs hmem)
    cases heq
    exact h hc
  rw [or_iff_right hfirst]
  generalize (scheduler procs).final s (stages.map fun c => ⟨p, c⟩) = s'
  simp [outputs, run, scheduler]

/-- A run that nobody interrupts does what `main` does. -/
theorem run_alone {store : Store}
    (hredis : ∀ m sender canon, admitted (procs p).args (procs p).world = .ok (m, sender, canon) →
      m.vdb = redisVdb) :
    let steps : List Step :=
      [.get, .judge, .del, .clock, .set, .expire, .send].map fun c => ⟨p, c⟩
    let outcome := main (procs p).args (procs p).world store
    ((scheduler procs).final (System.init store.redis) steps).db = outcome.store.redis ∧
      (⟨p, .send⟩ ∈ (scheduler procs).outputs (System.init store.redis) steps ↔
        outcome.response.isSome = true) := by
  have hsend := @send_alone _ procs p (System.init store.redis)
    [.get, .judge, .del, .clock, .set, .expire] (by decide)
  have hfinal := @final_alone _ procs p (System.init store.redis)
    [.get, .judge, .del, .clock, .set, .expire, .send]
  have hdb := congrArg Prod.fst hfinal
  simp only [List.cons_append, List.nil_append] at hsend
  simp only at hdb ⊢
  rw [hdb, hsend]
  have hsplit : alone (procs p) (store.redis, .start) [.get, .judge, .del, .clock, .set, .expire] =
      alone (procs p) (alone (procs p) (store.redis, .start) [.get, .judge, .del])
        [.clock, .set, .expire] := rfl
  have hlast : alone (procs p) (store.redis, .start)
      [.get, .judge, .del, .clock, .set, .expire, .send] =
      alone (procs p) (alone (procs p) (store.redis, .start)
        [.get, .judge, .del, .clock, .set, .expire]) [.send] := rfl
  simp only [System.init]
  rw [hlast, hsplit]
  cases h : admitted (procs p).args (procs p).world with
  | error ending => simp [alone, advance, h, main, Outcome.response]
  | ok admission =>
    obtain ⟨m, sender, canon⟩ := admission
    have hvdb := hredis m sender canon h
    have hmain : main (procs p).args (procs p).world store =
        m.respond (procs p).world store sender canon := by
      simp only [main, h]
    rw [hmain]
    obtain ⟨hquery, hphase⟩ := @query_alone _ (procs p) store.redis m sender canon h
    generalize alone (procs p) (store.redis, .start) [.get, .judge, .del] = x at hquery hphase
    obtain ⟨db, phase⟩ := x
    simp only at hquery hphase
    subst hquery
    by_cases hrecent : (redisVdbRecent (procs p).world.recent store.redis m.vdbh canon
        m.interval).1 = .recent
    · rw [if_pos hrecent] at hphase
      subst hphase
      have hstatus : (m.query (procs p).world.recent store canon).1 = .recent := by
        rw [Accepted.query, hvdb]
        exact hrecent
      rw [respond_of_recent hstatus, Accepted.query, hvdb]
      simp [alone, advance, Outcome.response, redisVdb]
    · rw [if_neg hrecent] at hphase
      obtain ⟨str, rfl⟩ := hphase
      have hstatus : (m.query (procs p).world.recent store canon).1 ≠ .recent := by
        rw [Accepted.query, hvdb]
        exact hrecent
      rw [respond_of_not_recent hstatus, record_alone, Accepted.query, Accepted.record, hvdb]
      simp [alone, advance, Outcome.response, redisVdb]

end

end Simvacation.RedisCommands
