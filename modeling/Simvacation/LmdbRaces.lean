import Simvacation.LmdbCalls

/-!
Races between runs on LMDB. A record that is committed stops every run whose query
begins while it counts, unless it is replaced by one with an older time: of a run that
has read the clock and then waited for the write transaction of another.
-/

namespace Simvacation.LmdbRaces

open CString Numerals Yasl Vutil SendMessage Vdb ReplyTable Backends Main Machine Spacing
open Transactions LmdbCalls
open Concurrent (Process)

variable {L : Type}

/-- The entry of the reply table that a run is about. -/
def key : Job L → Option Key
  | .reply proc => proc.target.map fun t => tableKey t.1 t.2
  | .collect _ => none

/-- The clock reading of a record or a cutoff. -/
def clock : Job L → ℤ
  | .reply proc => proc.world.storeReply.time
  | .collect calls => calls.time

/-- No call of a reply fails. -/
def Valid (jobs : ℕ → Job L) (interval : Bytes → ℤ) : Prop :=
  ∀ p proc, jobs p = .reply proc → RunValid .lmdb interval proc.args proc.world

/-- The clock does not go back. -/
def InOrder (jobs : ℕ → Job L) (e f : Step Action) : Prop :=
  e.name = .clock → f.name = .clock → clock (jobs e.pid) ≤ clock (jobs f.pid)

/-- A record of a time before `l`, or a collection for which the value of the record is
mapped too low. -/
inductive Interferes (jobs : ℕ → Job L) (k : Key) (l : ℤ) : Step Action → Prop
  | record {r : ℕ} (hkey : key (jobs r) = some k) (hearly : clock (jobs r) < l) :
    Interferes jobs k l ⟨r, .record⟩
  | collect {r : ℕ} {calls : Calls} (hjob : jobs r = .collect calls)
    (hlow : calls.address (lmdbKey k) < calls.time - expiry) : Interferes jobs k l ⟨r, .collect⟩

/-- The record of a key is of time `l` or later. -/
def Entry (k : Key) (l : ℤ) (db : LmdbDb) : Prop :=
  ∃ last, db.get (lmdbKey k) = some (toBytes64 last) ∧ InRange last ∧ l ≤ last

/-- The variables of a run are those of its own message. -/
def Sound (job : Job L) : Phase L → Prop
  | .queried m sender canon =>
    ∃ proc, job = .reply proc ∧ admitted proc.args proc.world = .ok (m, sender, canon)
  | .timed m sender canon =>
    ∃ proc, job = .reply proc ∧ admitted proc.args proc.world = .ok (m, sender, canon)
  | .recorded m sender canon =>
    ∃ proc, job = .reply proc ∧ admitted proc.args proc.world = .ok (m, sender, canon)
  | _ => True

def AllSound (jobs : ℕ → Job L) (s : Runs L) : Prop := ∀ p, Sound (jobs p) (s.vars p)

/-- The place of a phase on the way of a reply. -/
def place : Phase L → ℕ
  | .start => 0
  | .queried _ _ _ => 1
  | .timed _ _ _ => 2
  | .recorded _ _ _ => 3
  | .collecting => 4
  | .finished => 4

def rank : Action → ℕ
  | .query => 0
  | .clock => 1
  | .record => 2
  | .send => 3
  | .collect => 4

section

variable {job : Job L} {proc : Process L} {db db' : LmdbDb} {phase phase' : Phase L}
  {name : Action} {k : Key} {l : ℤ}

theorem rank_injective {c d : Action} (h : rank c = rank d) : c = d := by
  cases c <;> cases d <;> first
    | rfl
    | cases h

theorem rank_le (c : Action) : rank c ≤ 4 := by
  cases c <;> decide

/-- The functions of a reply come in their order. -/
theorem place_function (h : (Job.reply proc).function db phase = some (name, db', phase')) :
    place phase = rank name ∧ (place phase' = rank name + 1 ∨ place phase' = 4) := by
  unfold Job.function at h
  cases phase with
  | start =>
    simp only at h
    cases hadmitted : admitted proc.args proc.world with
    | error ending =>
      rw [hadmitted] at h
      cases h
      exact ⟨rfl, Or.inr rfl⟩
    | ok admission =>
      rw [hadmitted] at h
      cases h
      refine ⟨rfl, ?_⟩
      cases lmdbVdbRecent proc.world.recent db admission.1.vdbh admission.2.2
          admission.1.interval with
      | ok => exact Or.inl rfl
      | recent => exact Or.inr rfl
  | queried m sender canon =>
    cases h
    exact ⟨rfl, Or.inl rfl⟩
  | timed m sender canon =>
    cases h
    exact ⟨rfl, Or.inl rfl⟩
  | recorded m sender canon =>
    cases h
    exact ⟨rfl, Or.inr rfl⟩
  | collecting => cases h
  | finished => cases h

theorem sound_function (hsound : Sound job phase)
    (h : job.function db phase = some (name, db', phase')) : Sound job phase' := by
  revert h
  fun_cases Job.function job db phase with
  | case1 =>
    rintro ⟨⟩
    trivial
  | case2 proc _ m sender canon hadmitted status =>
    rintro ⟨⟩
    cases status with
    | ok => exact ⟨proc, rfl, hadmitted⟩
    | recent => trivial
  | case3 =>
    rintro ⟨⟩
    exact hsound
  | case4 =>
    rintro ⟨⟩
    exact hsound
  | case5 =>
    rintro ⟨⟩
    trivial
  | case6 =>
    rintro ⟨⟩
    trivial
  | case7 =>
    rintro ⟨⟩
    trivial
  | case8 => rintro ⟨⟩

/-- What a function does to the database. -/
theorem db_function (h : job.function db phase = some (name, db', phase')) :
    (db' = db ∧ name ≠ .record) ∨
      (∃ proc m sender canon, job = .reply proc ∧ phase = .timed m sender canon ∧ name = .record ∧
        db' = (lmdbVdbStoreReply proc.world.storeReply db m.vdbh canon).2) ∨
      ∃ calls, job = .collect calls ∧ name = .collect ∧ db' = lmdbVdbGc calls db := by
  revert h
  fun_cases Job.function job db phase with
  | case1 =>
    rintro ⟨⟩
    exact Or.inl ⟨rfl, by decide⟩
  | case2 =>
    rintro ⟨⟩
    exact Or.inl ⟨rfl, by decide⟩
  | case3 =>
    rintro ⟨⟩
    exact Or.inl ⟨rfl, by decide⟩
  | case4 proc _ m sender canon =>
    rintro ⟨⟩
    exact Or.inr (Or.inl ⟨proc, m, sender, canon, rfl, rfl, rfl, rfl⟩)
  | case5 =>
    rintro ⟨⟩
    exact Or.inl ⟨rfl, by decide⟩
  | case6 =>
    rintro ⟨⟩
    exact Or.inl ⟨rfl, by decide⟩
  | case7 calls =>
    rintro ⟨⟩
    exact Or.inr (Or.inr ⟨calls, rfl, rfl, rfl⟩)
  | case8 => rintro ⟨⟩

theorem get_gcLoop {calls : Calls} {expire : ℤ} {key data : Bytes} (fuel n : ℕ)
    (pos : Option Bytes) (h : db.get key = some data)
    (hkeep : gcExpired calls expire key data = false) :
    (gcLoop calls expire fuel n pos db).get key = some data := by
  induction fuel generalizing n pos db with
  | zero => exact h
  | succ fuel ih =>
    unfold gcLoop
    split
    · exact h
    · cases hnext : db.next pos with
      | none => exact h
      | some e =>
        apply ih
        split
        · next hdelete =>
          rw [SortedMap.get_erase]
          split
          · next heq =>
            have hget := (SortedMap.next_eq_some hnext).1
            rw [← heq, h] at hget
            rw [← heq, ← Option.some.inj hget, hkeep] at hdelete
            contradiction
          · exact h
        · exact h

/-- A collection keeps a record whose value is mapped high enough, whatever fails. -/
theorem entry_gc {calls : Calls} (h : Entry k l db)
    (hhigh : calls.time - expiry ≤ calls.address (lmdbKey k)) : Entry k l (lmdbVdbGc calls db) := by
  obtain ⟨last, hget, hrest⟩ := h
  refine ⟨last, ?_, hrest⟩
  have hkeep : gcExpired calls (calls.time - expiry) (lmdbKey k) (toBytes64 last) = false := by
    simp [gcExpired, not_lt.mpr hhigh]
  have hloop := get_gcLoop (db.entries.length + 1) 0 none hget hkeep
  unfold lmdbVdbGc
  split
  · exact hget
  · simp only
    split
    · exact hget
    · split
      · exact hget
      · split
        · exact hget
        · split
          · exact hloop
          · exact hget

end

section

variable {jobs : ℕ → Job L} {interval : Bytes → ℤ} {s : Runs L} {i : Step Action} {p q : ℕ}
  {proc : Process L} {m : Accepted L} {sender canon : Bytes} {k : Key} {l : ℤ}

/-- A step is the next function of its run, or nothing. -/
theorem step_cases (jobs : ℕ → Job L) (s : Runs L) (i : Step Action) :
    (functions jobs).step s i = (s, none) ∨
      ∃ db phase, (jobs i.pid).function s.db (s.vars i.pid) = some (i.name, db, phase) ∧
        (functions jobs).step s i = (⟨db, Function.update s.vars i.pid phase⟩, some i) := by
  cases h : (jobs i.pid).function s.db (s.vars i.pid) with
  | none => simp [functions, h]
  | some r =>
    obtain ⟨name, db, phase⟩ := r
    by_cases hname : name = i.name
    · subst hname
      exact Or.inr ⟨db, phase, rfl, by simp [functions, h]⟩
    · simp [functions, h, hname]

theorem step_eq_some {e : Step Action} (h : ((functions jobs).step s i).2 = some e) :
    e = i ∧ ∃ db phase, (jobs i.pid).function s.db (s.vars i.pid) = some (i.name, db, phase) ∧
      (functions jobs).step s i = (⟨db, Function.update s.vars i.pid phase⟩, some i) := by
  rcases step_cases jobs s i with hstep | ⟨db, phase, hfunction, hstep⟩
  · rw [hstep] at h
    contradiction
  · rw [hstep] at h
    exact ⟨(Option.some.inj h).symm, db, phase, hfunction, hstep⟩

theorem allSound_step (h : AllSound jobs s) : AllSound jobs ((functions jobs).step s i).1 := by
  rcases step_cases jobs s i with hstep | ⟨db, phase, hfunction, hstep⟩
  · rw [hstep]
    exact h
  · rw [hstep]
    intro p
    by_cases hp : p = i.pid
    · subst hp
      simp only [Function.update_self]
      exact sound_function (h i.pid) hfunction
    · simp only [Function.update_of_ne hp]
      exact h p

theorem allSound_final {steps : List (Step Action)} (h : AllSound jobs s) :
    AllSound jobs ((functions jobs).final s steps) := by
  induction steps generalizing s with
  | nil => exact h
  | cons i steps ih => exact ih (allSound_step h)

section

variable (hjob : jobs p = .reply proc)

include hjob

/-- A reply takes its next function, stops, or stays where it is. -/
theorem place_step (s : Runs L) (i : Step Action) :
    (∃ c, ((functions jobs).step s i).2 = some ⟨p, c⟩ ∧ place (s.vars p) = rank c ∧
        (place (((functions jobs).step s i).1.vars p) = rank c + 1 ∨
          place (((functions jobs).step s i).1.vars p) = 4)) ∨
      ((∀ c, ((functions jobs).step s i).2 ≠ some ⟨p, c⟩) ∧
        ((functions jobs).step s i).1.vars p = s.vars p) := by
  rcases step_cases jobs s i with hstep | ⟨db, phase, hfunction, hstep⟩
  · rw [hstep]
    exact Or.inr ⟨fun c h => by contradiction, rfl⟩
  · rw [hstep]
    by_cases hp : p = i.pid
    · subst hp
      rw [hjob] at hfunction
      obtain ⟨hplace, hnext⟩ := place_function hfunction
      refine Or.inl ⟨i.name, rfl, hplace, ?_⟩
      simp only [Function.update_self]
      exact hnext
    · refine Or.inr ⟨fun c h => ?_, Function.update_of_ne hp _ _⟩
      exact hp (congrArg Step.pid (Option.some.inj h)).symm

theorem place_mono (s : Runs L) (i : Step Action) :
    place (s.vars p) ≤ place (((functions jobs).step s i).1.vars p) := by
  rcases place_step hjob s i with ⟨d, -, hplace, hnext⟩ | ⟨-, hsame⟩
  · have hle := rank_le d
    rcases hnext with hnext | hnext <;> omega
  · rw [hsame]

theorem place_of_step {c : Action} (h : ((functions jobs).step s i).2 = some ⟨p, c⟩) :
    place (s.vars p) = rank c := by
  rcases place_step hjob s i with ⟨d, heffect, hplace, -⟩ | ⟨hnone, -⟩
  · rw [heffect] at h
    cases h
    exact hplace
  · exact absurd h (hnone c)

/-- When a function has been called, so have those before it. -/
theorem earlier_mem_outputs {steps : List (Step Action)} {a c : Action} (hrank : rank c < 4)
    (h : ⟨p, c⟩ ∈ (functions jobs).outputs s steps) (hs : place (s.vars p) ≤ rank a)
    (ha : rank a ≤ rank c) : ⟨p, a⟩ ∈ (functions jobs).outputs s steps := by
  rcases Nat.lt_or_ge (rank a) (rank c) with hlt | hge
  · refine passed_mem_outputs (fun s : Runs L => place (s.vars p)) (place_mono hjob)
      (fun s i => place_of_step hjob) ?_ hlt hs h
    intro s i hle hover
    rcases place_step hjob s i with ⟨d, heffect, hplace, hnext⟩ | ⟨-, hsame⟩
    · rcases hnext with hnext | hnext
      · have hda : rank d = rank a := by omega
        rw [heffect, rank_injective hda]
        exact Or.inl rfl
      · exact Or.inr (by omega)
    · rw [hsame] at hover
      omega
  · rw [rank_injective (Nat.le_antisymm ha hge)]
    exact h

end

theorem key_of_admitted (hadmitted : admitted proc.args proc.world = .ok (m, sender, canon)) :
    key (.reply proc) = some (tableKey m.rcpt canon) := by
  simp only [key, Concurrent.target_of_admitted hadmitted, Option.map_some]

section

variable (hvalid : RunValid .lmdb interval proc.args proc.world)
  (hadmitted : admitted proc.args proc.world = .ok (m, sender, canon))

include hvalid hadmitted

theorem storable_of_admitted : Storable (tableKey m.rcpt canon) ∧ m.vdbh = ⟨m.rcpt⟩ := by
  obtain ⟨hnul, hhandle⟩ := hvalid.handle hadmitted
  refine ⟨storable_of_validKey hnul ?_, hhandle⟩
  have htakes := (hvalid.uses m sender canon hadmitted).2.2
  rw [← lmdbVdbKey_eq]
  exact htakes

theorem storeReply_eq (db : LmdbDb) :
    (lmdbVdbStoreReply proc.world.storeReply db m.vdbh canon).2 =
      db.insert (lmdbKey (tableKey m.rcpt canon)) (toBytes64 proc.world.storeReply.time) := by
  obtain ⟨hstorable, hhandle⟩ := storable_of_admitted hvalid hadmitted
  have hcalls := hvalid.storeReply
  have htime := Int.not_lt.mpr hvalid.recordRange.1
  unfold lmdbVdbStoreReply
  simp [hhandle, lmdbVdbKey_eq, htime, hcalls.txnBegin, hcalls.dbiOpen, hcalls.mdbPut,
    hcalls.txnCommit, validKey_lmdbKey hstorable.2]

/-- A query that does not see a record of its key as recent comes an interval after it. -/
theorem recent_of_entry {db : LmdbDb} (hadd : Addable (interval m.rcpt))
    (h : Entry (tableKey m.rcpt canon) l db)
    (hclose : proc.world.recent.time < l + interval m.rcpt) :
    lmdbVdbRecent proc.world.recent db m.vdbh canon m.interval = .recent := by
  obtain ⟨hstorable, hhandle⟩ := storable_of_admitted hvalid hadmitted
  obtain ⟨last, hget, hrange, hlast⟩ := h
  have hcalls := hvalid.recent
  rw [hhandle, (hvalid.uses m sender canon hadmitted).2.1,
    lmdbVdbRecent_eq _ hstorable hcalls.txnBegin hcalls.dbiOpen hcalls.mdbGet hvalid.queryRange.1,
    hget]
  have hread := ofBytes64_of_lmdbHolds ⟨hrange, rfl⟩
  simp only [toBytes64_length, hread, addTime_eq hrange hadd]
  rw [if_neg (by simp), if_pos (by omega)]

end

/-- A step that does not interfere keeps the record. -/
theorem entry_step (hvalid : Valid jobs interval) (hsound : AllSound jobs s) (hk : Storable k)
    (h : Entry k l s.db)
    (hsafe : ((functions jobs).step s i).2 = some i → ¬ Interferes jobs k l i) :
    Entry k l ((functions jobs).step s i).1.db := by
  rcases step_cases jobs s i with hstep | ⟨db, phase, hfunction, hstep⟩
  · rw [hstep]
    exact h
  rw [hstep] at hsafe ⊢
  have hsafe' := hsafe rfl
  obtain ⟨r, name⟩ := i
  simp only at hfunction hsafe' ⊢
  rcases db_function hfunction with ⟨rfl, -⟩ | ⟨proc, m, sender, canon, hjob, hphase, rfl, rfl⟩ |
    ⟨calls, hjob, rfl, rfl⟩
  · exact h
  · have hown := hsound r
    rw [hphase] at hown
    obtain ⟨proc', hjob', hadmitted⟩ := hown
    rw [hjob] at hjob'
    cases hjob'
    have hrun := hvalid r proc hjob
    rw [storeReply_eq hrun hadmitted]
    by_cases hkey : tableKey m.rcpt canon = k
    · have hlate : ¬ proc.world.storeReply.time < l := by
        intro hearly
        apply hsafe'
        apply Interferes.record
        · rw [hjob, key_of_admitted hadmitted, hkey]
        · rw [hjob]
          exact hearly
      refine ⟨proc.world.storeReply.time, ?_, hrun.recordRange, not_lt.mp hlate⟩
      rw [hkey, SortedMap.get_insert, if_pos rfl]
    · obtain ⟨last, hget, hrest⟩ := h
      refine ⟨last, ?_, hrest⟩
      have hne : lmdbKey k ≠ lmdbKey (tableKey m.rcpt canon) := fun heq =>
        hkey (lmdbKey_inj hk (storable_of_admitted hrun hadmitted).1 heq).symm
      rw [SortedMap.get_insert, if_neg hne]
      exact hget
  · apply entry_gc h
    by_contra hlow
    exact hsafe' (Interferes.collect hjob (not_le.mp hlow))

end

section

variable {jobs : ℕ → Job L} {interval : Bytes → ℤ} {s : Runs L} {p q : ℕ} {proc : Process L}
  {k : Key} {l : ℤ}

/-- A query that begins while the record counts is the last function of its run. -/
theorem query_function {db db' : LmdbDb} {phase phase' : Phase L}
    (hvalid : RunValid .lmdb interval proc.args proc.world) (hadd : Addable (interval k.1))
    (hkey : key (.reply proc) = some k) (hentry : Entry k l db)
    (hclose : proc.world.recent.time < l + interval k.1)
    (h : (Job.reply proc).function db phase = some (.query, db', phase')) :
    phase' = .finished := by
  unfold Job.function at h
  cases phase with
  | start =>
    simp only at h
    cases hadmitted : admitted proc.args proc.world with
    | error ending =>
      rw [hadmitted] at h
      cases h
      rfl
    | ok admission =>
      obtain ⟨m, sender, canon⟩ := admission
      have hk := Option.some.inj ((key_of_admitted hadmitted).symm.trans hkey)
      subst hk
      have hrecent := recent_of_entry hvalid hadmitted hadd hentry hclose
      rw [hadmitted] at h
      simp only [hrecent] at h
      cases h
      rfl
  | _ => cases h

theorem send_notMem_outputs (hjob : jobs p = .reply proc) (hfinished : s.vars p = .finished)
    (steps : List (Step Action)) : ⟨p, .send⟩ ∉ (functions jobs).outputs s steps := by
  intro h
  have hle := place_le_of_mem_outputs (fun s : Runs L => place (s.vars p))
    (place_mono hjob) (fun s i hsome => (place_of_step hjob hsome).le) h
  rw [hfinished] at hle
  exact absurd hle (by simp [place, rank])

/-- A run whose query begins while the record counts does not come to send, so one that
does has its query behind an interference. -/
theorem interfered {steps : List (Step Action)} (hvalid : Valid jobs interval)
    (hadd : Addable (interval k.1)) (hsound : AllSound jobs s) (hk : Storable k)
    (hentry : Entry k l s.db) (hjob : jobs p = .reply proc) (hkey : key (jobs p) = some k)
    (hstart : place (s.vars p) = 0) (hclose : proc.world.recent.time < l + interval k.1)
    (hsend : ⟨p, .send⟩ ∈ (functions jobs).outputs s steps) :
    ∃ e, Interferes jobs k l e ∧ Precedes ((functions jobs).outputs s steps) e ⟨p, .query⟩ := by
  induction steps generalizing s with
  | nil => exact absurd hsend List.not_mem_nil
  | cons i steps ih =>
    have hquery := earlier_mem_outputs hjob (by decide) hsend (a := .query) hstart.le (by decide)
    have hentry' := entry_step hvalid hsound hk hentry (i := i)
    have hsound' := allSound_step (i := i) hsound
    rw [outputs_cons] at hsend hquery ⊢
    rcases step_cases jobs s i with hstep | ⟨db, phase, hfunction, hstep⟩
    · rw [hstep] at hsend ⊢
      exact ih hsound hentry hstart hsend
    rw [hstep] at hsend hquery hentry' hsound' ⊢
    simp only [Option.toList_some, List.singleton_append, List.mem_cons] at hsend hquery ⊢
    by_cases hself : i = ⟨p, .query⟩
    · subst hself
      simp only [hjob] at hfunction hkey
      have hfinished := query_function (hvalid p proc hjob) hadd hkey hentry hclose hfunction
      rcases hsend with hsend | hsend
      · cases hsend
      · refine absurd hsend (send_notMem_outputs hjob ?_ steps)
        simp only [Function.update_self, hfinished]
    · have hafter := hquery.resolve_left (Ne.symm hself)
      by_cases hbad : Interferes jobs k l i
      · exact ⟨i, hbad, (List.singleton_sublist.mpr hafter).cons_cons i⟩
      · have hother : p ≠ i.pid := by
          rintro rfl
          rw [hjob] at hfunction
          have hplace := (place_function hfunction).1
          rw [hstart] at hplace
          have hname : i.name = .query := rank_injective hplace.symm
          exact hself (by rw [← hname])
        have hlater : ⟨p, .send⟩ ∈ (functions jobs).outputs
            ⟨db, Function.update s.vars i.pid phase⟩ steps := by
          rcases hsend with hsend | hsend
          · exact absurd (congrArg Step.pid hsend) hother
          · exact hsend
        obtain ⟨e, hinterferes, hprecedes⟩ := ih hsound' (hentry' fun _ => hbad)
          (by simpa only [Function.update_of_ne hother] using hstart) hlater
        exact ⟨e, hinterferes, hprecedes.cons i⟩

/-- A run that has begun no query has begun nothing. -/
theorem place_of_no_query {steps : List (Step Action)} (hjob : jobs p = .reply proc)
    (hstart : place (s.vars p) = 0) (h : ⟨p, .query⟩ ∉ (functions jobs).outputs s steps) :
    place (((functions jobs).final s steps).vars p) = 0 := by
  induction steps generalizing s with
  | nil => exact hstart
  | cons i steps ih =>
    rw [outputs_cons, List.mem_append, Option.mem_toList, not_or] at h
    obtain ⟨hfirst, hrest⟩ := h
    apply ih _ hrest
    rcases place_step hjob s i with ⟨c, heffect, hplace, -⟩ | ⟨-, hsame⟩
    · rw [hstart] at hplace
      have hquery : c = .query := rank_injective hplace.symm
      rw [hquery] at heffect
      exact absurd heffect hfirst
    · rw [hsame]
      exact hstart

theorem reply_of_key (h : key (jobs p) = some k) : ∃ proc, jobs p = .reply proc := by
  cases hjob : jobs p with
  | reply proc => exact ⟨proc, rfl⟩
  | collect calls =>
    rw [hjob] at h
    contradiction

/-- A record of a reply is an entry for its key. -/
theorem entry_of_record (hvalid : Valid jobs interval) (hsound : AllSound jobs s)
    (hkey : key (jobs q) = some k)
    (h : ((functions jobs).step s ⟨q, .record⟩).2 = some ⟨q, .record⟩) :
    Storable k ∧ Entry k (clock (jobs q)) ((functions jobs).step s ⟨q, .record⟩).1.db := by
  obtain ⟨-, db, phase, hfunction, hstep⟩ := step_eq_some h
  rw [hstep]
  simp only at hfunction ⊢
  rcases db_function hfunction with ⟨-, hname⟩ | ⟨proc, m, sender, canon, hjob, hphase, -, rfl⟩ |
    ⟨calls, -, hname, -⟩
  · exact absurd rfl hname
  · have hown := hsound q
    rw [hphase] at hown
    obtain ⟨proc', hjob', hadmitted⟩ := hown
    rw [hjob] at hjob' hkey
    cases hjob'
    have hrun := hvalid q proc hjob
    have hk := Option.some.inj ((key_of_admitted hadmitted).symm.trans hkey)
    subst hk
    refine ⟨(storable_of_admitted hrun hadmitted).1, proc.world.storeReply.time, ?_,
      hrun.recordRange, ?_⟩
    · rw [storeReply_eq hrun hadmitted, SortedMap.get_insert, if_pos rfl]
    · rw [hjob]
      exact le_refl _
  · contradiction

variable {db : LmdbDb} {steps : List (Step Action)}

/-- Behind the record of a run for the same key, and less than an interval after its
time, another run comes to send only if the record was interfered with in between. -/
theorem interfered_after (hvalid : Valid jobs interval) (hadd : Addable (interval k.1))
    (hp : ⟨p, .send⟩ ∈ (functions jobs).outputs (Runs.init db) steps)
    (hq : ⟨q, .send⟩ ∈ (functions jobs).outputs (Runs.init db) steps)
    (hkp : key (jobs p) = some k) (hkq : key (jobs q) = some k)
    (hclose : clock (jobs p) < clock (jobs q) + interval k.1) :
    let trace := (functions jobs).outputs (Runs.init db) steps
    Precedes trace ⟨p, .query⟩ ⟨q, .record⟩ ∨
      ∃ e, Interferes jobs k (clock (jobs q)) e ∧ Precedes trace ⟨q, .record⟩ e ∧
        Precedes trace e ⟨p, .query⟩ := by
  simp only
  obtain ⟨procp, hjobp⟩ := reply_of_key hkp
  obtain ⟨procq, hjobq⟩ := reply_of_key hkq
  have hrecord : ⟨q, .record⟩ ∈ (functions jobs).outputs (Runs.init db) steps :=
    earlier_mem_outputs hjobq (by decide) hq (Nat.zero_le _) (by decide)
  obtain ⟨before, i, after, rfl, heffect⟩ := mem_outputs hrecord
  obtain rfl : ⟨q, .record⟩ = i := (step_eq_some heffect).1
  have hsound : AllSound jobs ((functions jobs).final (Runs.init db) before) :=
    allSound_final fun _ => trivial
  generalize hs : (functions jobs).final (Runs.init db) before = s at heffect hsound
  have hsplit : (functions jobs).outputs (Runs.init db) (before ++ ⟨q, .record⟩ :: after) =
      (functions jobs).outputs (Runs.init db) before ++ ⟨q, .record⟩ ::
        (functions jobs).outputs ((functions jobs).step s ⟨q, .record⟩).1 after := by
    rw [outputs_append, outputs_cons, hs, heffect]
    rfl
  rw [hsplit] at hp ⊢
  by_cases hquery : ⟨p, .query⟩ ∈ (functions jobs).outputs (Runs.init db) before
  · exact Or.inl ((List.singleton_sublist.mpr hquery).append
      (List.singleton_sublist.mpr List.mem_cons_self))
  right
  obtain ⟨hk, hentry⟩ := entry_of_record hvalid hsound hkq heffect
  have hplace : place (s.vars p) = 0 := by
    rw [← hs]
    exact place_of_no_query hjobp rfl hquery
  have hstart : place (((functions jobs).step s ⟨q, .record⟩).1.vars p) = 0 := by
    rcases place_step hjobp s ⟨q, .record⟩ with ⟨c, hc, hrank, -⟩ | ⟨-, hsame⟩
    · rw [heffect] at hc
      cases hc
      rw [hplace] at hrank
      contradiction
    · rw [hsame]
      exact hplace
  have hsend : ⟨p, .send⟩ ∈
      (functions jobs).outputs ((functions jobs).step s ⟨q, .record⟩).1 after := by
    rcases List.mem_append.mp hp with h | h
    · exact absurd (earlier_mem_outputs hjobp (by decide) h (Nat.zero_le _) (by decide)) hquery
    · simpa using h
  have hsoon : procp.world.recent.time < clock (jobs q) + interval k.1 := by
    have horder := (hvalid p procp hjobp).record
    rw [hjobp, clock] at hclose
    omega
  obtain ⟨e, hinterferes, hprecedes⟩ := interfered hvalid hadd (allSound_step hsound) hk hentry
    hjobp hkp hstart hsoon hsend
  refine ⟨e, hinterferes, ?_, (hprecedes.cons _).trans (List.sublist_append_right _ _)⟩
  have he := (List.Sublist.subset hprecedes) List.mem_cons_self
  exact List.Sublist.trans ((List.singleton_sublist.mpr he).cons_cons _)
    (List.sublist_append_right _ _)

/-- A run whose record is of an older time than another's has read the clock first. -/
theorem clock_precedes {r : ℕ}
    (hordered : ((functions jobs).outputs (Runs.init db) steps).Pairwise (InOrder jobs))
    (hr : ⟨r, .record⟩ ∈ (functions jobs).outputs (Runs.init db) steps)
    (hq : ⟨q, .record⟩ ∈ (functions jobs).outputs (Runs.init db) steps)
    (hkr : key (jobs r) = some k) (hkq : key (jobs q) = some k)
    (hearly : clock (jobs r) < clock (jobs q)) :
    Precedes ((functions jobs).outputs (Runs.init db) steps) ⟨r, .clock⟩ ⟨q, .clock⟩ := by
  obtain ⟨procr, hjobr⟩ := reply_of_key hkr
  obtain ⟨procq, hjobq⟩ := reply_of_key hkq
  have hclockr : ⟨r, .clock⟩ ∈ (functions jobs).outputs (Runs.init db) steps :=
    earlier_mem_outputs hjobr (by decide) hr (Nat.zero_le _) (by decide)
  have hclockq : ⟨q, .clock⟩ ∈ (functions jobs).outputs (Runs.init db) steps :=
    earlier_mem_outputs hjobq (by decide) hq (Nat.zero_le _) (by decide)
  have hne : (⟨r, .clock⟩ : Step Action) ≠ ⟨q, .clock⟩ := by
    intro heq
    cases heq
    exact lt_irrefl _ hearly
  rcases precedes_or_precedes hclockr hclockq hne with h | h
  · exact h
  · exact absurd (h.rel hordered rfl rfl) (not_le.mpr hearly)

end

section

variable {jobs : ℕ → Job L} {interval : Bytes → ℤ} {p q : ℕ} {k : Key} {db : LmdbDb}

/-- Whatever order the calls of the runs come in: two runs that come to send for the
same entry, the first with a record less than an interval after the other's, overlap,
the first beginning its query before the other commits its record; or in between a
record of an older time is committed, of a run that had read the clock first, or a
collection for which the record is mapped too low. -/
theorem sends_overlap {events : List Event} (hvalid : Valid jobs interval)
    (hkeeps : ∀ rcpt, Backend.lmdb.Keeps (interval rcpt)) :
    let trace := (Transactions.calls fun p => (jobs p).next).outputs
      ⟨db, none, fun _ => .outside .start⟩ events
    trace.Pairwise (InOrder jobs) → ⟨p, .send⟩ ∈ trace → ⟨q, .send⟩ ∈ trace →
      key (jobs p) = some k → key (jobs q) = some k →
      clock (jobs p) < clock (jobs q) + interval k.1 →
      Precedes trace ⟨p, .query⟩ ⟨q, .record⟩ ∨
        ∃ e, Interferes jobs k (clock (jobs q)) e ∧ Precedes trace ⟨q, .record⟩ e ∧
          Precedes trace e ⟨p, .query⟩ ∧
          (e.name = .record → Precedes trace ⟨e.pid, .clock⟩ ⟨q, .clock⟩) := by
  intro trace hordered hp hq hkp hkq hclose
  have houtputs : (functions jobs).outputs (Runs.init db) trace = trace := by
    rw [functions_eq_serial]
    exact (refines_run (refines_init db fun _ => Phase.start) events).2
  rw [← houtputs] at hordered hp hq ⊢
  have hadd : Addable (interval k.1) := ⟨(hkeeps k.1).1.le, (hkeeps k.1).2⟩
  rcases interfered_after hvalid hadd hp hq hkp hkq hclose with
    h | ⟨e, hinterferes, hafter, hbefore⟩
  · exact Or.inl h
  · refine Or.inr ⟨e, hinterferes, hafter, hbefore, ?_⟩
    have hrecord := (List.Sublist.subset hafter) List.mem_cons_self
    have he := (List.Sublist.subset hbefore) List.mem_cons_self
    cases hinterferes with
    | record hkey hearly =>
      exact fun _ => clock_precedes hordered he hrecord hkey hkq hearly
    | collect hjob hlow =>
      intro hname
      cases hname

end

/-- Three deliveries of one message to bob within an interval of each other. -/
def delivery (p : ℕ) : Process Unit :=
  let now := if p = 0 then 100 else if p = 1 then 130 else 165
  ⟨deliver (bytes "a@b") (bytes "bob"), toBob .lmdb 60 now⟩

def deliveries (p : ℕ) : Job Unit := .reply (delivery p)

/-- The first run has read the clock when the second begins to write, and waits. -/
def waiting : List Event :=
  List.replicate 5 (.call 0) ++ List.replicate 6 (.call 1) ++ [.call 0] ++
    List.replicate 3 (.call 1) ++ List.replicate 4 (.call 0) ++ List.replicate 11 (.call 2) ++
    [.call 1]

def waited : List (Step Action) :=
  [⟨0, .query⟩, ⟨0, .clock⟩, ⟨1, .query⟩, ⟨1, .clock⟩, ⟨1, .record⟩, ⟨0, .record⟩, ⟨2, .query⟩,
    ⟨2, .clock⟩, ⟨2, .record⟩, ⟨2, .send⟩, ⟨1, .send⟩]

theorem outputs_waiting : (Transactions.calls fun p => (deliveries p).next).outputs
    ⟨SortedMap.empty, none, fun _ => .outside .start⟩ waiting = waited := by
  decide +kernel

theorem valid_deliveries : Valid deliveries fun _ => 60 := by
  rintro p proc ⟨⟩
  apply runValid_toBob .lmdb 60
  constructor
  · exact Int.natCast_nonneg _
  · split
    · decide
    · split <;> decide

/-- The third run answers within an interval of the second, whose record is lost to that
of the first. -/
theorem sends_overlap_waiting : ∃ e, Interferes deliveries
      (tableKey (bytes "bob") (bytes "a@b")) 130 e ∧
    Precedes waited ⟨1, .record⟩ e ∧ Precedes waited e ⟨2, .query⟩ ∧
      (e.name = .record → Precedes waited ⟨e.pid, .clock⟩ ⟨1, .clock⟩) := by
  have hkeeps : ∀ _ : Bytes, Backend.lmdb.Keeps 60 := fun _ => ⟨by decide, by decide⟩
  have hordered : waited.Pairwise (InOrder deliveries) := by
    unfold InOrder
    decide
  have htarget : ∀ p < 3, (delivery p).target = some (bytes "bob", bytes "a@b") := by
    decide +kernel
  have hkey : ∀ p < 3, key (deliveries p) = some (tableKey (bytes "bob") (bytes "a@b")) := by
    intro p hp
    rw [deliveries, key, htarget p hp]
    rfl
  have hcases := @sends_overlap _ deliveries (fun _ => 60) 2 1
    (tableKey (bytes "bob") (bytes "a@b")) SortedMap.empty waiting valid_deliveries hkeeps
  simp only [outputs_waiting] at hcases
  have hapart : ¬ Precedes waited ⟨2, .query⟩ ⟨1, .record⟩ := by
    unfold Precedes
    decide
  exact (hcases hordered (by decide) (by decide) (hkey 2 (by decide)) (hkey 1 (by decide))
    (by decide)).resolve_left hapart

end Simvacation.LmdbRaces
