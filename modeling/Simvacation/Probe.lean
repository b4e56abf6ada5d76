import Mathlib.Logic.Basic
import Mathlib.Data.List.Basic

/-!
Computations that look at a memory place by place, where the next place may
depend on what was found. A computation has a result and a list of the places
it examines; two memories that agree on these places are the same to it.
-/

namespace Simvacation

universe w

inductive Probe (ι β α : Type*) where
  | done (a : α)
  | read (i : ι) (next : β → Probe ι β α)

namespace Probe

variable {ι β α γ : Type*}

def examine (i : ι) : Probe ι β β := .read i .done

/-- One computation after another. -/
def andThen : Probe ι β α → (α → Probe ι β γ) → Probe ι β γ
  | .done a, f => f a
  | .read i next, f => .read i fun b => andThen (next b) f

instance : Monad (Probe ι β) where
  pure := .done
  bind := andThen

def result (mem : ι → β) : Probe ι β α → α
  | .done a => a
  | .read i next => result mem (next (mem i))

/-- The places in the order in which they are examined. -/
def examined (mem : ι → β) : Probe ι β α → List ι
  | .done _ => []
  | .read i next => i :: examined mem (next (mem i))

/-- Whether all places a computation examines are of a kind. -/
def Within (mem : ι → β) (P : ι → Prop) (c : Probe ι β α) : Prop := ∀ i ∈ c.examined mem, P i

variable {mem mem' : ι → β} {P : ι → Prop}

@[simp] theorem result_pure (a : α) : (pure a : Probe ι β α).result mem = a := rfl

@[simp] theorem result_examine (i : ι) : (examine i : Probe ι β β).result mem = mem i := rfl

@[simp] theorem within_pure (a : α) : (pure a : Probe ι β α).Within mem P :=
  fun _ h => absurd h List.not_mem_nil

@[simp] theorem within_examine (i : ι) : (examine i : Probe ι β β).Within mem P ↔ P i :=
  List.forall_mem_singleton

section bind

variable {α γ : Type w}

@[simp] theorem result_bind (c : Probe ι β α) (f : α → Probe ι β γ) :
    (c >>= f).result mem = (f (c.result mem)).result mem := by
  induction c with
  | done a => rfl
  | read i next ih => exact ih (mem i)

theorem examined_bind (c : Probe ι β α) (f : α → Probe ι β γ) :
    (c >>= f).examined mem = c.examined mem ++ (f (c.result mem)).examined mem := by
  induction c with
  | done a => rfl
  | read i next ih => exact congrArg (List.cons i) (ih (mem i))

@[simp] theorem within_bind (c : Probe ι β α) (f : α → Probe ι β γ) :
    (c >>= f).Within mem P ↔ c.Within mem P ∧ (f (c.result mem)).Within mem P := by
  rw [Within, examined_bind, List.forall_mem_append]
  rfl

end bind

theorem Within.imp {Q : ι → Prop} {c : Probe ι β α} (h : c.Within mem P) (hPQ : ∀ i, P i → Q i) :
    c.Within mem Q := fun i hi => hPQ i (h i hi)

/-- Places that are not examined do not matter. -/
theorem result_congr (c : Probe ι β α) (h : c.Within mem fun i => mem i = mem' i) :
    c.result mem' = c.result mem := by
  induction c with
  | done a => rfl
  | read i next ih =>
    have hi : mem i = mem' i := h i List.mem_cons_self
    change (next (mem' i)).result mem' = (next (mem i)).result mem
    rw [← hi]
    exact ih (mem i) fun j hj => h j (List.mem_cons_of_mem i hj)

end Probe

end Simvacation
