import Simvacation.Spacing

/-!
Runs of the two programs, one after another on one store. A response keeps the
configured interval to every earlier response for the same recipient and sender:
it is sent that long after the earlier one was recorded. Records must stay so
long, so the interval is at most 7 days where Redis or `simunvacation` removes
them; and `simunvacation` must remove none too early.
-/

namespace Simvacation.Intervals

open CString Numerals Yasl Vutil Vdb Vlu Expiring Machine ReplyTable Backends Main Spacing

/-- A completed run of `simvacation` or of `simunvacation`. -/
inductive Job (L : Type) where
  | vacation (args : Args) (world : World L)
  | unvacation (options : List Opt) (world : UnWorld L)

/-- A response, with the clock readings of the run that sent it. -/
structure Reply where
  rcpt : Bytes
  canon : Bytes
  queried : ℤ
  recorded : ℤ
  sent : ℤ
  deriving DecidableEq, Repr

def Reply.key (r : Reply) : Key := tableKey r.rcpt r.canon

variable {L : Type}

def reply (args : Args) (world : World L) (store : Store) : Option Reply :=
  match admitted args world with
  | .error _ => none
  | .ok (m, _, canon) =>
    if (main args world store).response.isSome then
      some ⟨m.rcpt, canon, world.recent.time, world.storeReply.time, world.host.time⟩
    else none

def jobMachine : Machine Store (Job L) (Option Reply) where
  step store
    | .vacation args world => ((main args world store).store, reply args world store)
    | .unvacation options world => ((unMain options world store).2, none)

def Job.span : Job L → Span
  | .vacation _ world => ⟨world.recent.serverTime, world.host.time⟩
  | .unvacation _ world => ⟨world.gc.time, world.gc.time⟩

def Job.Valid (b : Backend) (interval : Bytes → ℤ) : Job L → Prop
  | .vacation args world => RunValid b interval args world
  | .unvacation _ _ => True

/-- The values of LMDB are mapped above the number that is compared with their
address, and the configured intervals are such that records may go after 7 days. -/
def Job.Harmless (b : Backend) (interval : Bytes → ℤ) : Job L → Prop
  | .vacation _ _ => True
  | .unvacation _ world => b = .lmdb →
    (∀ key, world.gc.time - expiry ≤ world.gc.address key) ∧ ∀ rcpt, interval rcpt ≤ expiry

theorem gcLoop_eq_self {calls : Calls} {expire : ℤ} (h : ∀ key, expire ≤ calls.address key)
    (fuel n : ℕ) (pos : Option Bytes) (db : LmdbDb) : gcLoop calls expire fuel n pos db = db := by
  induction fuel generalizing n pos with
  | zero => rfl
  | succ fuel ih =>
    have hkeep : ∀ key data, gcExpired calls expire key data = false := by
      intro key data
      have haddress := h key
      simp only [gcExpired, Bool.and_eq_false_iff, decide_eq_false_iff_not]
      right
      omega
    unfold gcLoop
    split
    · rfl
    · cases db.next pos with
      | none => rfl
      | some e =>
        simp only [hkeep, Bool.false_and, Bool.false_eq_true, ite_false]
        exact ih _ _

theorem lmdbVdbGc_eq_self {calls : Calls} (h : ∀ key, calls.time - expiry ≤ calls.address key)
    (db : LmdbDb) : lmdbVdbGc calls db = db := by
  unfold lmdbVdbGc
  simp only [gcLoop_eq_self h]
  repeat' split
  all_goals rfl

variable {b : Backend} {interval : Bytes → ℤ} {args : Args} {world : World L} {store : Store}

/-- What a run does to the store, and when it sends a response. -/
theorem main_cases (args : Args) (world : World L) (store : Store) :
    ((main args world store).store = store ∧ reply args world store = none) ∨
    ∃ m sender canon, admitted args world = .ok (m, sender, canon) ∧
      (((main args world store).store = (m.query world.recent store canon).2 ∧
          reply args world store = none) ∨
        ((m.query world.recent store canon).1 ≠ .recent ∧
          (main args world store).store =
            m.record world.storeReply (m.query world.recent store canon).2 canon ∧
          ∀ r, reply args world store = some r → r =
            ⟨m.rcpt, canon, world.recent.time, world.storeReply.time, world.host.time⟩)) := by
  cases h : admitted args world with
  | error ending =>
    left
    simp only [main, reply, h, and_self]
  | ok admission =>
    obtain ⟨m, sender, canon⟩ := admission
    right
    refine ⟨m, sender, canon, rfl, ?_⟩
    have hmain : main args world store = m.respond world store sender canon := by
      simp only [main, h]
    by_cases hrecent : (m.query world.recent store canon).1 = .recent
    · left
      simp only [reply, h, hmain, respond_of_recent hrecent]
      exact ⟨trivial, rfl⟩
    · right
      simp only [reply, h, hmain, respond_of_not_recent hrecent]
      refine ⟨hrecent, trivial, fun r hr => ?_⟩
      split at hr
      · exact (Option.some.inj hr).symm
      · cases hr

variable {k : Key} {l t : ℤ}

section

variable (hv : RunValid b interval args world) (hkeeps : ∀ rcpt, b.Keeps (interval rcpt))

include hv hkeeps

theorem followed_main (ht : t ≤ world.recent.serverTime) (hf : Followed b interval t store) :
    Followed b interval world.host.time (main args world store).store := by
  have hquery := hv.query
  have hrecord := hv.record
  have hstored := hv.stored
  have hsent := hv.sent
  rcases main_cases args world store with ⟨hstore, -⟩ | ⟨m, sender, canon, h, ⟨hstore, -⟩ |
    ⟨-, hstore, -⟩⟩
  · rw [hstore]
    exact hf.mono (by omega)
  · rw [hstore]
    exact (hv.followed_query hkeeps h ht hf).mono (by omega)
  · rw [hstore]
    have hqueried := hv.followed_query hkeeps h ht hf
    exact (hv.note hkeeps h hv.record hqueried).followed.mono (by omega)

/-- A run keeps an entry, and answers no earlier than an interval after it. -/
theorem noted_main (ht : t ≤ world.recent.serverTime) (hn : Noted b interval k l t store) :
    Noted b interval k l world.host.time (main args world store).store ∧
      ∀ r, reply args world store = some r → r.key = k → l + interval r.rcpt ≤ r.queried := by
  have hquery := hv.query
  have hrecord := hv.record
  have hstored := hv.stored
  have hsent := hv.sent
  rcases main_cases args world store with ⟨hstore, hreply⟩ | ⟨m, sender, canon, h,
    ⟨hstore, hreply⟩ | ⟨hne, hstore, hreply⟩⟩
  · rw [hstore, hreply]
    exact ⟨hn.mono (by omega), fun r hr => nomatch hr⟩
  · rw [hstore, hreply]
    obtain ⟨hqueried, -⟩ := hv.noted_query hkeeps h ht hn
    exact ⟨hqueried.mono (by omega), fun r hr => nomatch hr⟩
  · rw [hstore]
    obtain ⟨hqueried, hlate⟩ := hv.noted_query hkeeps h ht hn
    refine ⟨(hv.noted_record hkeeps h hv.record hqueried).mono (by omega), fun r hr hk => ?_⟩
    obtain rfl := hreply r hr
    exact hlate hk hne

/-- A response leaves an entry for its key. -/
theorem note_main {r : Reply} (ht : t ≤ world.recent.serverTime)
    (hf : Followed b interval t store) (hr : reply args world store = some r) :
    Noted b interval r.key r.recorded world.host.time (main args world store).store := by
  have hsent := hv.sent
  rcases main_cases args world store with ⟨-, hreply⟩ | ⟨m, sender, canon, h, ⟨-, hreply⟩ |
    ⟨-, hstore, hreply⟩⟩
  · rw [hr] at hreply
    cases hreply
  · rw [hr] at hreply
    cases hreply
  · obtain rfl := hreply r hr
    rw [hstore]
    have hqueried := hv.followed_query hkeeps h ht hf
    exact (hv.note hkeeps h hv.record hqueried).mono hsent

end

/-- A run of `simunvacation` that removes nothing too early. -/
theorem follows_unMain {options : List Opt} {world : UnWorld L} {T : Table}
    (hharmless : (Job.unvacation options world).Harmless b interval)
    (h : b.Follows interval t store T) :
    b.Follows interval t (unMain options world store).2 T := by
  rcases unMain_store options world store with hstore | hstore
  · rwa [hstore]
  · rw [hstore]
    cases b with
    | redis => exact h
    | lmdb =>
      rw [lmdbVdbGc_eq_self (hharmless rfl).1]
      exact h

/-- The responses of a run, in the order in which they are sent. -/
def replies (store : Store) (jobs : List (Job L)) : List Reply := jobMachine.outputs store jobs

theorem replies_cons (store : Store) (job : Job L) (jobs : List (Job L)) :
    replies store (job :: jobs) =
      (jobMachine.step store job).2.toList ++ replies (jobMachine.step store job).1 jobs :=
  jobMachine.outputs_cons store job jobs

section

variable {job : Job L} {jobs : List (Job L)} (hkeeps : ∀ rcpt, b.Keeps (interval rcpt))

include hkeeps

theorem followed_job (hvalid : job.Valid b interval)
    (hharmless : job.Harmless b interval) (ht : t ≤ job.span.first)
    (hf : Followed b interval t store) :
    Followed b interval job.span.last (jobMachine.step store job).1 := by
  cases job with
  | vacation args world => exact followed_main hvalid hkeeps ht hf
  | unvacation options world =>
    obtain ⟨T, hT⟩ := hf
    exact ⟨T, (follows_unMain hharmless hT).mono ht⟩

theorem noted_job (hvalid : job.Valid b interval) (hharmless : job.Harmless b interval)
    (ht : t ≤ job.span.first) (hn : Noted b interval k l t store) :
    Noted b interval k l job.span.last (jobMachine.step store job).1 ∧
      ∀ r, (jobMachine.step store job).2 = some r → r.key = k →
        l + interval r.rcpt ≤ r.queried := by
  cases job with
  | vacation args world => exact noted_main hvalid hkeeps ht hn
  | unvacation options world =>
    obtain ⟨hl, T, hT, hlast⟩ := hn
    refine ⟨⟨hl.trans ht, T, (follows_unMain hharmless hT).mono ht, hlast⟩, fun r hr => ?_⟩
    cases hr

theorem note_job {r : Reply} (hvalid : job.Valid b interval) (ht : t ≤ job.span.first)
    (hf : Followed b interval t store) (hr : (jobMachine.step store job).2 = some r) :
    Noted b interval r.key r.recorded job.span.last (jobMachine.step store job).1 := by
  cases job with
  | vacation args world => exact note_main hvalid hkeeps ht hf hr
  | unvacation options world => cases hr

/-- Every later response keeps the interval to an entry of the store. -/
theorem replies_after (hvalid : ∀ job ∈ jobs, job.Valid b interval)
    (hharmless : ∀ job ∈ jobs, job.Harmless b interval)
    (hclock : Chronological Job.span t jobs) (hn : Noted b interval k l t store) :
    ∀ r ∈ replies store jobs, r.key = k → l + interval r.rcpt ≤ r.queried := by
  induction jobs generalizing t store with
  | nil => exact fun r hr => absurd hr List.not_mem_nil
  | cons job jobs ih =>
    obtain ⟨hfirst, -, hrest⟩ := hclock
    obtain ⟨hstep, hreply⟩ := noted_job hkeeps (hvalid job List.mem_cons_self)
      (hharmless job List.mem_cons_self) hfirst hn
    have hlater := ih (fun j hj => hvalid j (List.mem_cons_of_mem _ hj))
      (fun j hj => hharmless j (List.mem_cons_of_mem _ hj)) hrest hstep
    intro r hr
    rw [replies_cons, List.mem_append, Option.mem_toList] at hr
    rcases hr with hr | hr
    · exact hreply r hr
    · exact hlater r hr

/-- The same recipient and sender get the second response an interval or more
after the first was recorded. -/
def Apart (interval : Bytes → ℤ) (r s : Reply) : Prop :=
  r.rcpt = s.rcpt → r.canon = s.canon →
    r.recorded + interval r.rcpt ≤ s.recorded ∧ r.recorded + interval r.rcpt ≤ s.sent

/-- As `Apart`, at the time of the query. -/
def QueriedApart (interval : Bytes → ℤ) (r s : Reply) : Prop :=
  r.rcpt = s.rcpt → r.canon = s.canon → r.recorded + interval r.rcpt ≤ s.queried

theorem replies_pairwise (hvalid : ∀ job ∈ jobs, job.Valid b interval)
    (hharmless : ∀ job ∈ jobs, job.Harmless b interval)
    (hclock : Chronological Job.span t jobs) (hf : Followed b interval t store) :
    (replies store jobs).Pairwise (QueriedApart interval) := by
  induction jobs generalizing t store with
  | nil => exact List.Pairwise.nil
  | cons job jobs ih =>
    obtain ⟨hfirst, -, hrest⟩ := hclock
    have hjob := hvalid job List.mem_cons_self
    have hvalid' : ∀ j ∈ jobs, j.Valid b interval :=
      fun j hj => hvalid j (List.mem_cons_of_mem _ hj)
    have hharmless' : ∀ j ∈ jobs, j.Harmless b interval :=
      fun j hj => hharmless j (List.mem_cons_of_mem _ hj)
    have hlater := ih hvalid' hharmless' hrest
      (followed_job hkeeps hjob (hharmless job List.mem_cons_self) hfirst hf)
    rw [replies_cons]
    cases hr : (jobMachine.step store job).2 with
    | none => exact hlater
    | some r =>
      rw [Option.toList_some, List.singleton_append, List.pairwise_cons]
      refine ⟨fun s hs hrcpt hcanon => ?_, hlater⟩
      have hnoted := note_job hkeeps hjob hfirst hf hr
      have hkey : s.key = r.key := by
        unfold Reply.key
        rw [hrcpt, hcanon]
      rw [hrcpt]
      exact replies_after hkeeps hvalid' hharmless' hrest hnoted s hs hkey

end

/-- The readings of a run are in order. -/
theorem reply_ordered {jobs : List (Job L)} (hvalid : ∀ job ∈ jobs, job.Valid b interval)
    {r : Reply} (hr : r ∈ replies store jobs) : r.queried ≤ r.recorded ∧ r.recorded ≤ r.sent := by
  induction jobs generalizing store with
  | nil => exact absurd hr List.not_mem_nil
  | cons job jobs ih =>
    rw [replies_cons, List.mem_append, Option.mem_toList] at hr
    rcases hr with hr | hr
    · have hjob := hvalid job List.mem_cons_self
      cases job with
      | unvacation options world => cases hr
      | vacation args world =>
        have hstored := hjob.stored
        have hsent := hjob.sent
        rcases main_cases args world store with ⟨-, hreply⟩ | ⟨m, sender, canon, -, ⟨-, hreply⟩ |
          ⟨-, -, hreply⟩⟩
        · cases hreply.symm.trans hr
        · cases hreply.symm.trans hr
        · obtain rfl := hreply r hr
          exact ⟨hjob.record, hstored.trans hsent⟩
    · exact ih (fun j hj => hvalid j (List.mem_cons_of_mem _ hj)) hr

/-- Over any sequence of completed runs, from an empty store. -/
theorem responses_apart {jobs : List (Job L)} (hkeeps : ∀ rcpt, b.Keeps (interval rcpt))
    (hvalid : ∀ job ∈ jobs, job.Valid b interval)
    (hharmless : ∀ job ∈ jobs, job.Harmless b interval)
    (hclock : Chronological Job.span t jobs) :
    (replies Store.empty jobs).Pairwise (Apart interval) := by
  have hempty : Followed b interval t Store.empty := ⟨Table.empty, b.follows_empty t⟩
  have hqueried := replies_pairwise hkeeps hvalid hharmless hclock hempty
  refine hqueried.imp_of_mem fun {r s} _ hs hapart hrcpt hcanon => ?_
  obtain ⟨hquery, hsent⟩ := reply_ordered hvalid hs
  have h := hapart hrcpt hcanon
  omega

def visit (b : Backend) (u : ℤ) (now : ℕ) : Job Unit :=
  .vacation (deliver (bytes "a@b") (bytes "bob")) (toBob b u now)

def cleanup (b : Backend) (u : ℤ) (now : ℕ) : Job Unit :=
  .unvacation [] (UnWorld.succeed (storeConfig b.name u) now)

def quietDay : List (Job Unit) := [visit .lmdb 60 100, cleanup .lmdb 60 130, visit .lmdb 60 160]

theorem responses_apart_minute : (replies Store.empty quietDay).Pairwise (Apart fun _ => 60) := by
  have hvalid : ∀ job ∈ quietDay, job.Valid .lmdb fun _ => 60 := by
    intro job hjob
    simp only [quietDay, List.mem_cons, List.not_mem_nil, or_false] at hjob
    rcases hjob with rfl | rfl | rfl
    · exact runValid_toBob .lmdb 60 ⟨by decide, by decide⟩
    · trivial
    · exact runValid_toBob .lmdb 60 ⟨by decide, by decide⟩
  have hharmless : ∀ job ∈ quietDay, job.Harmless .lmdb fun _ => 60 := by
    intro job hjob
    simp only [quietDay, List.mem_cons, List.not_mem_nil, or_false] at hjob
    rcases hjob with rfl | rfl | rfl
    · trivial
    · have haddress : (130 : ℤ) - expiry ≤ 2 ^ 47 := by decide
      have hshort : (60 : ℤ) ≤ expiry := by decide
      exact fun _ => ⟨fun _ => haddress, fun _ => hshort⟩
    · trivial
  have hclock : Chronological Job.span 0 quietDay := by decide
  have hkeeps : Backend.lmdb.Keeps 60 := ⟨by decide, by decide⟩
  exact responses_apart (fun _ => hkeeps) hvalid hharmless hclock

/-- An interval between the times at which the responses are sent. -/
def SentApart (interval : Bytes → ℤ) (r s : Reply) : Prop :=
  r.rcpt = s.rcpt → r.canon = s.canon → r.sent + interval r.rcpt ≤ s.sent

instance (interval : Bytes → ℤ) : DecidableRel (SentApart interval) := fun r s =>
  inferInstanceAs
    (Decidable (r.rcpt = s.rcpt → r.canon = s.canon → r.sent + interval r.rcpt ≤ s.sent))

/-- Two weeks, more than Redis keeps a record. -/
def fortnight : List (Job Unit) := [visit .redis 1209600 100, visit .redis 1209600 604900]

/-- A value that is mapped at address zero. -/
def lowAddress : Job Unit :=
  .unvacation [] { UnWorld.succeed (storeConfig (bytes "lmdb") 60) 700010 with
    gc := { Calls.succeed 700010 with address := fun _ => 0 } }

def collected : List (Job Unit) := [visit .lmdb 60 700000, lowAddress, visit .lmdb 60 700020]

/-- Five seconds from the record to the response. -/
def slowVisit : Job Unit :=
  .vacation (deliver (bytes "a@b") (bytes "bob"))
    { toBob .redis 60 100 with host := ⟨bytes "mx", 105, 1⟩ }

theorem runValid_slow : slowVisit.Valid .redis fun _ => 60 where
  query := le_refl _
  record := le_refl _
  stored := le_refl _
  sent := by decide
  queryRange := ⟨by decide, by decide⟩
  recordRange := ⟨by decide, by decide⟩
  recent := noStorageError_succeed _
  storeReply := noStorageError_succeed _
  uses m sender canon h := by
    obtain ⟨hvdb, hinterval⟩ := uses_storeConfig rfl rfl h
    exact ⟨hvdb, hinterval, takes_bob h⟩

def delayed : List (Job Unit) := [slowVisit, visit .redis 60 160]

theorem interval_missed :
    ((∀ job ∈ fortnight, job.Valid .redis fun _ => 1209600) ∧ Chronological Job.span 0 fortnight ∧
      ¬ (replies Store.empty fortnight).Pairwise (SentApart fun _ => 1209600)) ∧
    ((∀ job ∈ collected, job.Valid .lmdb fun _ => 60) ∧ Chronological Job.span 0 collected ∧
      ¬ (replies Store.empty collected).Pairwise (SentApart fun _ => 60)) ∧
    ((∀ job ∈ delayed, job.Valid .redis fun _ => 60) ∧ Chronological Job.span 0 delayed ∧
      ¬ (replies Store.empty delayed).Pairwise (SentApart fun _ => 60)) := by
  refine ⟨⟨?_, by decide, by decide +kernel⟩, ⟨?_, by decide, by decide +kernel⟩,
    ⟨?_, by decide, by decide +kernel⟩⟩
  · intro job hjob
    simp only [fortnight, List.mem_cons, List.not_mem_nil, or_false] at hjob
    rcases hjob with rfl | rfl
    · exact runValid_toBob .redis _ ⟨by decide, by decide⟩
    · exact runValid_toBob .redis _ ⟨by decide, by decide⟩
  · intro job hjob
    simp only [collected, List.mem_cons, List.not_mem_nil, or_false] at hjob
    rcases hjob with rfl | rfl | rfl
    · exact runValid_toBob .lmdb _ ⟨by decide, by decide⟩
    · trivial
    · exact runValid_toBob .lmdb _ ⟨by decide, by decide⟩
  · intro job hjob
    simp only [delayed, List.mem_cons, List.not_mem_nil, or_false] at hjob
    rcases hjob with rfl | rfl
    · exact runValid_slow
    · exact runValid_toBob .redis _ ⟨by decide, by decide⟩

end Simvacation.Intervals
