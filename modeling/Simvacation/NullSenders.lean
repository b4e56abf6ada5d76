import Simvacation.Main

/-!
Mail from a null sender. Responders must not answer it. `check_from` stops the
address `<>` only: an empty address passes, also one that is empty behind its
tags, and a missing one is dereferenced. The run is silent exactly when it stops
before that test, when the address is `<>`, or when an empty address was
answered a short while ago.
-/

namespace Simvacation.NullSenders

open CString Yasl Vutil SendMessage Vdb Vlu Main

/-- No address at all, an empty one, `<>`, or nothing but tags. -/
def NullSender : Option Bytes → Prop
  | none => True
  | some s => s = [] ∨ s = bytes "<>" ∨ canonFrom s = []

/-- Every record was there before. -/
def NothingRecorded (store store' : Store) : Prop :=
  (∀ key e, store'.redis key = some e → store.redis key = some e) ∧ store'.lmdb = store.lmdb

/-- No response, no record, and a normal end. -/
structure Silent (store : Store) (o : Outcome) : Prop where
  response : o.response = none
  recorded : o.recorded = false
  nothing : NothingRecorded store o.store
  done : ∃ site, o.ending = .done site

theorem NothingRecorded.refl (store : Store) : NothingRecorded store store :=
  ⟨fun _ _ h => h, rfl⟩

theorem redisVdbRecent_cases (calls : Calls) (db : RedisDb) (vdb : VDB) (sender : Bytes)
    (interval : ℤ) : (redisVdbRecent calls db vdb sender interval).2 = db ∨
      (redisVdbRecent calls db vdb sender interval).2 = db.del (redisVdbKey vdb.rcpt sender) := by
  unfold redisVdbRecent
  simp only
  repeat' split
  all_goals first
    | exact Or.inl rfl
    | exact Or.inr rfl

variable {L : Type}

/-- A query deletes at most a stale record. -/
theorem query_nothingRecorded {args : Args} {world : World L} {m : Accepted L}
    (h : accept args world = .ok m) (store : Store) (canon : Bytes) :
    NothingRecorded store (m.query world.recent store canon).2 := by
  obtain ⟨-, -, ⟨provider, -, hvdb⟩, -⟩ := lookup_eq_ok (accept_eq_ok h).1
  unfold Accepted.query
  rcases vdbBackend_cases hvdb with hvdb | hvdb | hvdb
  · rw [hvdb]
    refine ⟨fun key e he => ?_, rfl⟩
    have he' : (redisVdbRecent world.recent store.redis m.vdbh canon m.interval).2 key =
        some e := he
    rcases redisVdbRecent_cases world.recent store.redis m.vdbh canon m.interval with heq | heq
    · rwa [heq] at he'
    · rw [heq, RedisDb.del, Function.update_apply] at he'
      split at he'
      · cases he'
      · exact he'
  · rw [hvdb]
    exact NothingRecorded.refl store
  · rw [hvdb]
    exact NothingRecorded.refl store

/-- An empty local part ends with none of the ignored names. -/
theorem checkFrom_of_canonFrom_nil {s : Bytes} (h : canonFrom s = []) : checkFrom s = some [] := by
  unfold checkFrom
  rw [h]
  decide

theorem canonFrom_angle_ne : canonFrom (bytes "<>") ≠ [] := by decide

/-- A null sender is passed on only as an empty address. -/
theorem checkSender_null {sender : Option Bytes} (h : NullSender sender) :
    (sender = none ∧ checkSender sender = .error .crashed) ∨
      (sender = some (bytes "<>") ∧ checkSender sender = .error (.done .badSender)) ∨
      ∃ s, sender = some s ∧ canonFrom s = [] ∧ checkSender sender = .ok (s, []) := by
  cases sender with
  | none => exact Or.inl ⟨rfl, rfl⟩
  | some s =>
    have hempty : canonFrom s = [] → checkSender (some s) = .ok (s, []) := by
      intro hs
      rw [checkSender_some, checkFrom_of_canonFrom_nil hs]
    right
    rcases h with rfl | rfl | hs
    · exact Or.inr ⟨[], rfl, rfl, hempty rfl⟩
    · exact Or.inl ⟨rfl, rfl⟩
    · exact Or.inr ⟨s, rfl, hs, hempty hs⟩

/-- A null sender is met with silence exactly when the run stops before it looks
at the sender, or gets an empty address that was answered recently, or `<>`. -/
theorem null_silent_iff {args : Args} (world : World L) (store : Store)
    (h : NullSender args.sender) : Silent store (main args world store) ↔
      (∃ site, accept args world = .error (.done site)) ∨
      ∃ m s, accept args world = .ok m ∧ args.sender = some s ∧
        (s = bytes "<>" ∨
          canonFrom s = [] ∧ (m.query world.recent store []).1 = .recent) := by
  cases haccept : accept args world with
  | error ending =>
    rw [main_of_accept_error haccept]
    constructor
    · intro hparts
      obtain ⟨-, -, -, site, hsite⟩ := hparts
      exact Or.inl ⟨site, congrArg Except.error hsite⟩
    · intro hcases
      rcases hcases with ⟨site, hsite⟩ | ⟨m, s, hm, -⟩
      · exact ⟨rfl, rfl, NothingRecorded.refl store, site, Except.error.inj hsite⟩
      · cases hm
  | ok m =>
    rcases checkSender_null h with ⟨hs, hcheck⟩ | ⟨hs, hcheck⟩ | ⟨s, hs, hcanon, hcheck⟩
    · -- a null pointer
      rw [main_of_sender_error haccept hcheck]
      constructor
      · intro hparts
        obtain ⟨-, -, -, site, hsite⟩ := hparts
        cases hsite
      · intro hcases
        rcases hcases with ⟨site, hsite⟩ | ⟨m', s, -, hs', -⟩
        · cases hsite
        · rw [hs] at hs'
          cases hs'
    · rw [main_of_sender_error haccept hcheck]
      constructor
      · intro _
        exact Or.inr ⟨m, _, rfl, hs, Or.inl rfl⟩
      · intro _
        exact ⟨rfl, rfl, NothingRecorded.refl store, _, rfl⟩
    · rw [main_of_ok haccept hcheck]
      have hne : s ≠ bytes "<>" := by
        rintro rfl
        exact canonFrom_angle_ne hcanon
      by_cases hrecent : (m.query world.recent store []).1 = .recent
      · rw [respond_of_recent hrecent]
        constructor
        · intro _
          exact Or.inr ⟨m, s, rfl, hs, Or.inr ⟨hcanon, hrecent⟩⟩
        · intro _
          exact ⟨rfl, rfl, query_nothingRecorded haccept store [], _, rfl⟩
      · rw [respond_of_not_recent hrecent]
        constructor
        · intro hparts
          obtain ⟨-, hrecorded, -, -⟩ := hparts
          cases hrecorded
        · intro hcases
          rcases hcases with ⟨site, hsite⟩ | ⟨m', s', hm, hs', hcase⟩
          · cases hsite
          · cases hm
            rw [hs] at hs'
            cases hs'
            rcases hcase with heq | ⟨-, hrec⟩
            · exact absurd heq hne
            · exact absurd hrec hrecent

/-- A message to bob, a minute after the epoch. -/
def toBob : World Unit := World.succeed (storeConfig (bytes "redis") 60) 60 (bytes "To: bob\n\n")

theorem angle_sender_silent :
    Silent Store.empty (main (deliver (bytes "<>") (bytes "bob")) toBob Store.empty) := by
  have hok : (accept (deliver (bytes "<>") (bytes "bob")) toBob).isOk = true := by decide +kernel
  have hnull : NullSender (deliver (bytes "<>") (bytes "bob")).sender := Or.inr (Or.inl rfl)
  apply (null_silent_iff toBob Store.empty hnull).mpr
  cases haccept : accept (deliver (bytes "<>") (bytes "bob")) toBob with
  | error ending =>
    rw [haccept] at hok
    cases hok
  | ok m => exact Or.inr ⟨m, bytes "<>", rfl, rfl, Or.inl rfl⟩

/-- An empty address is answered, and the answer is recorded. -/
theorem null_sender_answered : ¬ ∀ (args : Args) (world : World Unit) (store : Store),
    NullSender args.sender → Silent store (main args world store) := by
  intro h
  have hsilent := h (deliver [] (bytes "bob")) toBob Store.empty (Or.inl rfl)
  have hanswered : (main (deliver [] (bytes "bob")) toBob Store.empty).response.isSome = true := by
    decide +kernel
  rw [hsilent.response] at hanswered
  cases hanswered

end Simvacation.NullSenders
