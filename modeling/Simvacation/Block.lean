import Mathlib.Data.List.Basic
import Mathlib.Tactic.Common

/-!
Blocks of memory with checked access. A block is the list of its cells. A call
gives a result, returns a null pointer, stops at an assertion, or touches a cell
outside its block. Each access is described on a block that is written as the
concatenation of the parts in question.
-/

namespace Simvacation

inductive Failure where
  /-- a null pointer is returned -/
  | null
  /-- an assertion fails -/
  | abort
  /-- a cell outside the block is accessed -/
  | fault
  deriving DecidableEq, Repr

abbrev Checked := Except Failure

namespace Block

universe u

variable {α β γ : Type u}

def load (b : List α) (i : ℕ) : Checked α :=
  match b[i]? with
  | some a => .ok a
  | none => .error .fault

def store (b : List α) (i : ℕ) (a : α) : Checked (List α) :=
  if i < b.length then .ok (b.set i a) else .error .fault

/-- `memcpy` of `s` to an offset. -/
def write (b : List α) (i : ℕ) (s : List α) : Checked (List α) :=
  if i + s.length ≤ b.length then .ok (b.take i ++ s ++ b.drop (i + s.length))
  else .error .fault

/-- `n` cells of a block from an offset on. -/
def read (b : List α) (i n : ℕ) : Checked (List α) :=
  if i + n ≤ b.length then .ok ((b.drop i).take n) else .error .fault

/-- `memmove` within a block. -/
def move (b : List α) (target source n : ℕ) : Checked (List α) := do
  let s ← read b source n
  write b target s

/-- `memset` -/
def fill (b : List α) (i n : ℕ) (a : α) : Checked (List α) := write b i (List.replicate n a)

/-- `realloc`: the cells that are new hold what was there. -/
def resize (b : List α) (n : ℕ) (junk : ℕ → α) : List α :=
  b.take n ++ (List.range (n - b.length)).map junk

/-- The offset of the first zero, from the start of the block. -/
def strlen [OfNat α 0] [DecidableEq α] (b : List α) : Checked ℕ :=
  match b.idxOf? 0 with
  | some n => .ok n
  | none => .error .fault

/-- Replaces `n` cells one after another, from an offset on. -/
def replace (f : α → Checked α) : ℕ → ℕ → List α → Checked (List α)
  | 0, _, b => .ok b
  | n + 1, i, b => do
    let a ← load b i
    let a' ← f a
    let b ← store b i a'
    replace f n (i + 1) b

@[simp] theorem ok_bind (a : β) (f : β → Checked γ) : ((.ok a : Checked β) >>= f) = f a := rfl

@[simp] theorem error_bind (e : Failure) (f : β → Checked γ) :
    ((.error e : Checked β) >>= f) = .error e := rfl

theorem bind_eq_ok_iff {c : Checked β} {f : β → Checked γ} {b : γ} :
    (c >>= f) = .ok b ↔ ∃ a, c = .ok a ∧ f a = .ok b := by
  cases c <;> simp

theorem load_append (s t : List α) (a : α) : load (s ++ a :: t) s.length = .ok a := by
  simp [load]

theorem load_of_lt {b : List α} {i : ℕ} (h : i < b.length) : load b i = .ok b[i] := by
  simp [load, h]

theorem load_of_le {b : List α} {i : ℕ} (h : b.length ≤ i) : load b i = .error .fault := by
  simp [load, h]

theorem store_append (s : List α) {u : List α} (h : 0 < u.length) (a : α) :
    store (s ++ u) s.length a = .ok (s ++ a :: u.tail) := by
  cases u with
  | nil => exact absurd h (Nat.lt_irrefl 0)
  | cons b u => simp [store]

theorem write_append (s : List α) {t u : List α} (h : t.length ≤ u.length) :
    write (s ++ u) s.length t = .ok (s ++ t ++ u.drop t.length) := by
  have hdrop : (s ++ u).drop (s.length + t.length) = u.drop t.length := by
    rw [← List.drop_drop, List.drop_left]
  rw [write, if_pos (by rw [List.length_append]; omega), hdrop, List.take_left]

theorem read_append (s : List α) {u : List α} {n : ℕ} (h : n ≤ u.length) :
    read (s ++ u) s.length n = .ok (u.take n) := by
  rw [read, if_pos (by rw [List.length_append]; omega), List.drop_left]

theorem write_zero {t u : List α} (h : t.length ≤ u.length) :
    write u 0 t = .ok (t ++ u.drop t.length) := write_append [] h

theorem read_zero {u : List α} {n : ℕ} (h : n ≤ u.length) : read u 0 n = .ok (u.take n) :=
  read_append [] h

theorem move_zero (s : List α) {u : List α} {n : ℕ} (h : n ≤ u.length) :
    move (s ++ u) 0 s.length n = .ok (u.take n ++ (s ++ u).drop n) := by
  have hlen : (u.take n).length = n := List.length_take_of_le h
  have hwrite := write_zero (t := u.take n) (u := s ++ u) (by rw [hlen, List.length_append]; omega)
  rw [move, read_append s h, ok_bind, hwrite, hlen]

/-- A block that grows keeps its cells. -/
theorem resize_of_le {b : List α} {n : ℕ} (h : b.length ≤ n) (junk : ℕ → α) :
    resize b n junk = b ++ (List.range (n - b.length)).map junk := by
  rw [resize, List.take_of_length_le h]

theorem strlen_append [OfNat α 0] [DecidableEq α] {s : List α} (h : (0 : α) ∉ s) (t : List α) :
    strlen (s ++ 0 :: t) = .ok s.length := by
  have hidx : (s ++ (0 : α) :: t).idxOf? 0 = some s.length := by
    induction s with
    | nil => simp [List.idxOf?_cons]
    | cons a s ih =>
      have ha : a ≠ 0 := fun e => h (by simp [e])
      have hs : (0 : α) ∉ s := fun e => h (List.mem_cons_of_mem a e)
      simp [List.idxOf?_cons, ha, ih hs]
  rw [strlen, hidx]

/-- The loop maps the part of the block that it runs over. -/
theorem replace_append {f : α → Checked α} {g : α → α} (hf : ∀ a, f a = .ok (g a))
    (s t u : List α) : replace f t.length s.length (s ++ t ++ u) = .ok (s ++ t.map g ++ u) := by
  induction t generalizing s with
  | nil => simp [replace]
  | cons a t ih =>
    have hload := load_append s (t ++ u) a
    have hstore := store_append s (u := a :: (t ++ u)) (Nat.succ_pos _) (g a)
    have hrest := ih (s ++ [g a])
    rw [List.length_append, List.length_singleton] at hrest
    simp only [List.length_cons, replace, List.append_assoc, List.cons_append, hload, hf, hstore,
      ok_bind, List.map_cons, List.tail_cons]
    simpa using hrest

end Block

end Simvacation
