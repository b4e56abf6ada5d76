import Simvacation.Machine
import Mathlib.Logic.Function.Basic

/-!
Transactions on a shared database. A reader works on the state that it finds; one
writer at a time works on a copy, which takes the place of the database when it is
committed. Clients make their calls in any order and are killed between any two of
them. What they come to is what they come to when every transaction is a single
step, a reader's where it begins and a writer's where it ends.
-/

namespace Simvacation.Transactions

/-- The calls of a transaction that are still to come. Only one that may write has
calls that change its copy. -/
inductive Script (δ σ : Type) : Bool → Type where
  | finish {write : Bool} (commit : Bool) (vars : σ) : Script δ σ write
  | look {write : Bool} (rest : δ → Script δ σ write) : Script δ σ write
  | edit (change : δ → δ) (rest : Script δ σ true) : Script δ σ true

/-- What a client does next, under a name; `σ` are its variables. -/
inductive Move (δ σ α : Type) where
  | stop
  | go (name : α) (vars : σ)
  | begin (name : α) (write : Bool) (body : Script δ σ write)

def Move.name {δ σ α : Type} : Move δ σ α → Option α
  | .stop => none
  | .go name _ => some name
  | .begin name _ _ => some name

/-- A client in a transaction keeps the variables with which it began. -/
inductive Client (δ σ : Type) where
  | outside (vars : σ)
  | inside (write : Bool) (vars : σ) (copy : δ) (rest : Script δ σ write)
  | killed

structure System (δ σ : Type) where
  db : δ
  writer : Option ℕ
  client : ℕ → Client δ σ

/-- With the transactions done at once. -/
structure Serial (δ σ : Type) where
  db : δ
  vars : ℕ → σ

inductive Event where
  | call (p : ℕ)
  | kill (p : ℕ)
  deriving DecidableEq, Repr

structure Step (α : Type) where
  pid : ℕ
  name : α
  deriving DecidableEq, Repr

section

variable {δ σ α : Type}

def System.set (s : System δ σ) (p : ℕ) (c : Client δ σ) : System δ σ :=
  { s with client := Function.update s.client p c }

variable (next : ℕ → σ → Move δ σ α)

/-- A call of a client, with the name of the step that takes place at it. Another
writer has to wait. -/
def System.call (s : System δ σ) (p : ℕ) : System δ σ × Option α :=
  match s.client p with
  | .killed => (s, none)
  | .outside vars =>
    match next p vars with
    | .stop => (s, none)
    | .go name vars' => (s.set p (.outside vars'), some name)
    | .begin name false body => (s.set p (.inside false vars s.db body), some name)
    | .begin _ true body =>
      if s.writer.isSome then (s, none)
      else ({ s with writer := some p }.set p (.inside true vars s.db body), none)
  | .inside write vars copy (.look rest) => (s.set p (.inside write vars copy (rest copy)), none)
  | .inside true vars copy (.edit change rest) =>
    (s.set p (.inside true vars (change copy) rest), none)
  | .inside false _ _ (.finish _ vars') => (s.set p (.outside vars'), none)
  | .inside true vars copy (.finish commit vars') =>
    ({ s with db := if commit then copy else s.db, writer := none }.set p (.outside vars'),
      (next p vars).name)

/-- Nothing is left of a transaction when its client is killed. -/
def System.kill (s : System δ σ) (p : ℕ) : System δ σ :=
  { s with writer := s.writer.filter (· ≠ p) }.set p .killed

/-- The answers are the steps that take place. -/
def calls : Machine (System δ σ) Event (Option (Step α)) where
  step
    | s, .call p => ((s.call next p).1, (s.call next p).2.map (⟨p, ·⟩))
    | s, .kill p => (s.kill p, none)

/-- A transaction from its copy on, with the database that it began with. -/
def Script.eval (base : δ) : {write : Bool} → Script δ σ write → δ → δ × σ
  | _, .finish commit vars, copy => (if commit then copy else base, vars)
  | _, .look rest, copy => (rest copy).eval base copy
  | _, .edit change rest, copy => rest.eval base (change copy)

/-- A move at once, with its name. -/
def Move.eval (db : δ) : Move δ σ α → Option (α × δ × σ)
  | .stop => none
  | .go name vars => some (name, db, vars)
  | .begin name _ body => some (name, body.eval db db)

/-- A step that is not the next one of its client does nothing. -/
def serial [DecidableEq α] : Machine (Serial δ σ) (Step α) (Option (Step α)) where
  step t i :=
    match (next i.pid (t.vars i.pid)).eval t.db with
    | none => (t, none)
    | some (name, db, vars) =>
      if name = i.name then (⟨db, Function.update t.vars i.pid vars⟩, some i) else (t, none)

/-- The variables of a client whose transactions are done at once: a reader is done
with its transaction when it begins it, a writer when it ends it. -/
def Matches (next : σ → Move δ σ α) (db : δ) (writing : Prop) (vars : σ) : Client δ σ → Prop
  | .outside v => vars = v
  | .inside false _ copy rest => vars = (rest.eval copy copy).2
  | .inside true v copy rest => vars = v ∧ writing ∧
      ∃ name body, next v = .begin name true body ∧ body.eval db db = rest.eval db copy
  | .killed => True

structure Refines (s : System δ σ) (t : Serial δ σ) : Prop where
  db : s.db = t.db
  vars : ∀ p, Matches (next p) s.db (s.writer = some p) (t.vars p) (s.client p)

end

section

variable {δ σ α : Type} {next : ℕ → σ → Move δ σ α} {s : System δ σ} {t : Serial δ σ} {p : ℕ}

/-- A reader leaves the database as it is. -/
theorem eval_reader (body : Script δ σ false) (db : δ) : (body.eval db db).1 = db := by
  generalize hwrite : false = write at body
  induction body with
  | finish commit vars => exact ite_self db
  | look rest ih => exact ih db hwrite
  | edit change rest ih => contradiction

/-- Only the writer depends on the database. -/
theorem Matches.of_not_writing {m : σ → Move δ σ α} {db db' : δ} {writing writing' : Prop}
    {vars : σ} {c : Client δ σ} (h : Matches m db writing vars c) (hnot : ¬ writing) :
    Matches m db' writing' vars c := by
  cases c with
  | outside v => exact h
  | killed => trivial
  | inside write v copy rest =>
    cases write with
    | false => exact h
    | true => exact absurd h.2.1 hnot

/-- A step of one client, which the others do not see. -/
theorem Refines.set {db : δ} {writer : Option ℕ} {c : Client δ σ} {vars : ℕ → σ}
    (h : Refines next s t) (hothers : ∀ q, q ≠ p → vars q = t.vars q)
    (hframe : ∀ q, q ≠ p → (db = s.db ∧ (s.writer = some q → writer = some q)) ∨
      s.writer ≠ some q)
    (hself : Matches (next p) db (writer = some p) (vars p) c) :
    Refines next (System.set ⟨db, writer, s.client⟩ p c) ⟨db, vars⟩ := by
  refine ⟨rfl, fun q => ?_⟩
  by_cases hq : q = p
  · subst hq
    simpa [System.set] using hself
  · have hold := h.vars q
    simp only [System.set, Function.update_of_ne hq, hothers q hq]
    rcases hframe q hq with ⟨rfl, hwriter⟩ | hnot
    · by_cases hwriting : s.writer = some q
      · rw [hwriter hwriting]
        rwa [hwriting] at hold
      · exact hold.of_not_writing hwriting
    · exact hold.of_not_writing hnot

theorem refines_kill (h : Refines next s t) : Refines next (s.kill p) t := by
  obtain ⟨db, vars⟩ := t
  obtain rfl : s.db = db := h.db
  refine h.set (c := .killed) (fun _ _ => rfl) (fun q hq => Or.inl ⟨rfl, fun hwriter => ?_⟩) ?_
  · rw [hwriter, Option.filter_some, if_pos (by simpa using hq)]
  · trivial

/-- A call does what is no step of its client yet, or the next one. -/
theorem refines_call (h : Refines next s t) :
    ((s.call next p).2 = none ∧ Refines next (s.call next p).1 t) ∨
      ∃ name db vars, (s.call next p).2 = some name ∧
        (next p (t.vars p)).eval t.db = some (name, db, vars) ∧
        Refines next (s.call next p).1 ⟨db, Function.update t.vars p vars⟩ := by
  obtain ⟨db, vars⟩ := t
  obtain rfl : s.db = db := h.db
  have hp := h.vars p
  have hothers : ∀ v q, q ≠ p → Function.update vars p v q = vars q :=
    fun v q hq => Function.update_of_ne hq v vars
  have hsame : ∀ q, q ≠ p → (s.db = s.db ∧ (s.writer = some q → s.writer = some q)) ∨
      s.writer ≠ some q := fun q _ => Or.inl ⟨rfl, id⟩
  fun_cases System.call next s p with
  | case1 hclient => exact Or.inl ⟨rfl, h⟩
  | case2 v hclient hmove => exact Or.inl ⟨rfl, h⟩
  | case3 v hclient name v' hmove =>
    rw [hclient] at hp
    obtain rfl : vars p = v := hp
    refine Or.inr ⟨name, s.db, v', rfl, by rw [hmove]; rfl, ?_⟩
    exact h.set (hothers v') hsame (Function.update_self _ _ _)
  | case4 v hclient name body hmove =>
    rw [hclient] at hp
    obtain rfl : vars p = v := hp
    refine Or.inr ⟨name, s.db, (body.eval s.db s.db).2, rfl, ?_, ?_⟩
    · rw [hmove]
      exact congrArg some (Prod.ext rfl (Prod.ext (eval_reader body s.db) rfl))
    · exact h.set (hothers _) hsame (Function.update_self _ _ _)
  | case5 v hclient name body hmove hbusy => exact Or.inl ⟨rfl, h⟩
  | case6 v hclient name body hmove hfree =>
    rw [hclient] at hp
    have hnone : s.writer = none := by simpa using hfree
    refine Or.inl ⟨rfl, h.set (fun _ _ => rfl) (fun q _ => Or.inr (by simp [hnone])) ?_⟩
    exact ⟨hp, rfl, name, body, hmove, rfl⟩
  | case7 write v copy rest hclient =>
    rw [hclient] at hp
    refine Or.inl ⟨rfl, h.set (fun _ _ => rfl) hsame ?_⟩
    cases write with
    | false => exact hp
    | true => exact hp
  | case8 v copy change rest hclient =>
    rw [hclient] at hp
    exact Or.inl ⟨rfl, h.set (fun _ _ => rfl) hsame hp⟩
  | case9 v copy commit v' hclient =>
    rw [hclient] at hp
    exact Or.inl ⟨rfl, h.set (fun _ _ => rfl) hsame hp⟩
  | case10 v copy commit v' hclient =>
    rw [hclient] at hp
    obtain ⟨rfl, hwriter, name, body, hmove, heval⟩ := hp
    have hother : ∀ q, q ≠ p → s.writer ≠ some q := fun q hq heq =>
      hq (Option.some.inj (heq.symm.trans hwriter))
    refine Or.inr ⟨name, if commit then copy else s.db, v', by rw [hmove]; rfl, ?_, ?_⟩
    · rw [hmove, Move.eval, heval]
      rfl
    · exact h.set (hothers v') (fun q hq => Or.inr (hother q hq)) (Function.update_self _ _ _)

theorem refines_init (db : δ) (vars : ℕ → σ) :
    Refines next ⟨db, none, fun p => .outside (vars p)⟩ ⟨db, vars⟩ := ⟨rfl, fun _ => rfl⟩

variable [DecidableEq α]

/-- What a client comes to does not depend on how the calls of its transactions lie
between those of the others: it is what comes of the steps in the order in which they
take place. -/
theorem refines_run (h : Refines next s t) (events : List Event) :
    let steps := (calls next).outputs s events
    Refines next ((calls next).final s events) ((serial next).final t steps) ∧
      (serial next).outputs t steps = steps := by
  simp only
  induction events generalizing s t with
  | nil => exact ⟨h, rfl⟩
  | cons e events ih =>
    rw [Machine.outputs_cons]
    cases e with
    | kill p => exact ih (refines_kill h)
    | call p =>
      rcases refines_call (p := p) h with ⟨hnone, hnext⟩ | ⟨name, db, vars, hname, hmove, hnext⟩
      · simp only [calls, hnone]
        exact ih hnext
      · have hstep : (serial next).step t ⟨p, name⟩ =
            (⟨db, Function.update t.vars p vars⟩, some ⟨p, name⟩) := by
          simp only [serial, hmove, ite_true]
        obtain ⟨hfinal, houtputs⟩ := ih hnext
        simp only [calls, hname, Option.map_some, Option.toList_some, List.singleton_append,
          Machine.final, Machine.outputs_cons, hstep]
        exact ⟨hfinal, congrArg _ houtputs⟩

end

end Simvacation.Transactions
