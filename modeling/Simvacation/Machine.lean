import Mathlib.Data.List.Basic
import Mathlib.Data.Int.Basic

/-!
Deterministic machines that answer each input. An input takes a span of time,
from its first clock reading to its last, and inputs follow each other in time.
Two machines that stay related step by step, while time goes on, answer alike.
-/

namespace Simvacation

structure Machine (σ ι ο : Type*) where
  step : σ → ι → σ × ο

namespace Machine

variable {σ τ ι ο : Type*}

/-- The answers to a list of inputs. -/
def run (m : Machine σ ι ο) : σ → List ι → List ο
  | _, [] => []
  | s, i :: is => (m.step s i).2 :: run m (m.step s i).1 is

def final (m : Machine σ ι ο) : σ → List ι → σ
  | s, [] => s
  | s, i :: is => final m (m.step s i).1 is

/-- The answers of a machine that does not answer every input. -/
def outputs (m : Machine σ ι (Option ο)) (s : σ) (is : List ι) : List ο := (m.run s is).filterMap id

theorem outputs_cons (m : Machine σ ι (Option ο)) (s : σ) (i : ι) (is : List ι) :
    m.outputs s (i :: is) = (m.step s i).2.toList ++ m.outputs (m.step s i).1 is := by
  have hrun : m.run s (i :: is) = (m.step s i).2 :: m.run (m.step s i).1 is := rfl
  unfold outputs
  rw [hrun]
  cases (m.step s i).2 with
  | none => rfl
  | some o => rfl

theorem outputs_append (m : Machine σ ι (Option ο)) (s : σ) (is js : List ι) :
    m.outputs s (is ++ js) = m.outputs s is ++ m.outputs (m.final s is) js := by
  induction is generalizing s with
  | nil => rfl
  | cons i is ih =>
    rw [List.cons_append, outputs_cons, outputs_cons, ih, List.append_assoc]
    rfl

/-- The input that an answer is for. -/
theorem mem_outputs {m : Machine σ ι (Option ο)} {s : σ} {is : List ι} {o : ο}
    (h : o ∈ m.outputs s is) :
    ∃ before i after, is = before ++ i :: after ∧ (m.step (m.final s before) i).2 = some o := by
  induction is generalizing s with
  | nil => exact absurd h List.not_mem_nil
  | cons i is ih =>
    rw [outputs_cons, List.mem_append, Option.mem_toList] at h
    rcases h with h | h
    · exact ⟨[], i, is, rfl, h⟩
    · obtain ⟨before, j, after, rfl, hj⟩ := ih h
      exact ⟨i :: before, j, after, rfl, hj⟩

section

variable {m : Machine σ ι (Option ο)} (place : σ → ℕ) {n : ℕ} {s : σ} {is : List ι} {o : ο}

/-- An answer that is given at one place is not given behind it. -/
theorem place_le_of_mem_outputs (hmono : ∀ s i, place s ≤ place (m.step s i).1)
    (hplace : ∀ s i, (m.step s i).2 = some o → place s ≤ n) (h : o ∈ m.outputs s is) :
    place s ≤ n := by
  induction is generalizing s with
  | nil => exact absurd h List.not_mem_nil
  | cons i is ih =>
    rw [outputs_cons, List.mem_append, Option.mem_toList] at h
    rcases h with h | h
    · exact hplace s i h
    · exact Nat.le_trans (hmono s i) (ih h)

/-- Before an answer comes one without which its place is not reached. -/
theorem passed_mem_outputs {a : ο} {j : ℕ} (hmono : ∀ s i, place s ≤ place (m.step s i).1)
    (hplace : ∀ s i, (m.step s i).2 = some o → place s = n)
    (hpass : ∀ s i, place s ≤ j → j < place (m.step s i).1 →
      (m.step s i).2 = some a ∨ n < place (m.step s i).1)
    (hj : j < n) (hs : place s ≤ j) (h : o ∈ m.outputs s is) : a ∈ m.outputs s is := by
  induction is generalizing s with
  | nil => exact absurd h List.not_mem_nil
  | cons i is ih =>
    rw [outputs_cons, List.mem_append, Option.mem_toList] at h ⊢
    rcases h with h | h
    · have heq := hplace s i h
      omega
    · by_cases hnext : place (m.step s i).1 ≤ j
      · exact Or.inr (ih hnext h)
      · rcases hpass s i hs (not_le.mp hnext) with ha | hover
        · exact Or.inl ha
        · have hle := place_le_of_mem_outputs place hmono
            (fun s i h => Nat.le_of_eq (hplace s i h)) h
          omega

end

/-- First and last clock reading of an input. -/
structure Span where
  first : ℤ
  last : ℤ

/-- From time `t` on, the spans of the inputs do not overlap. -/
def Chronological (span : ι → Span) : ℤ → List ι → Prop
  | _, [] => True
  | t, i :: is =>
    t ≤ (span i).first ∧ (span i).first ≤ (span i).last ∧ Chronological span (span i).last is

instance decidableChronological (span : ι → Span) :
    ∀ t is, Decidable (Chronological span t is)
  | _, [] => inferInstanceAs (Decidable True)
  | t, i :: is =>
    have := decidableChronological span (span i).last is
    inferInstanceAs (Decidable (t ≤ (span i).first ∧ (span i).first ≤ (span i).last ∧
      Chronological span (span i).last is))

theorem Chronological.mono {span : ι → Span} {t t' : ℤ} {is : List ι}
    (h : Chronological span t is) (ht : t' ≤ t) : Chronological span t' is := by
  cases is with
  | nil => trivial
  | cons i is => exact ⟨Int.le_trans ht h.1, h.2⟩

theorem Chronological.filter {span : ι → Span} {t : ℤ} {is : List ι} (p : ι → Bool)
    (h : Chronological span t is) : Chronological span t (is.filter p) := by
  induction is generalizing t with
  | nil => trivial
  | cons i is ih =>
    obtain ⟨hfirst, hspan, hrest⟩ := h
    rw [List.filter_cons]
    split
    · exact ⟨hfirst, hspan, ih hrest⟩
    · exact ih (hrest.mono (Int.le_trans hfirst hspan))

/-- One input keeps the states related and gets the same answer from both. -/
def Simulates (m : Machine σ ι ο) (n : Machine τ ι ο) (span : ι → Span) (Ok : ι → Prop)
    (R : ℤ → σ → τ → Prop) : Prop :=
  ∀ t s u i, R t s u → Ok i → t ≤ (span i).first → (span i).first ≤ (span i).last →
    R (span i).last (m.step s i).1 (n.step u i).1 ∧ (m.step s i).2 = (n.step u i).2

variable {m : Machine σ ι ο} {n : Machine τ ι ο} {span : ι → Span} {Ok : ι → Prop}
  {R : ℤ → σ → τ → Prop}

/-- Related machines answer a whole run alike. -/
theorem Simulates.run_eq (h : m.Simulates n span Ok R) {t : ℤ} {s : σ} {u : τ} {is : List ι}
    (hR : R t s u) (hok : ∀ i ∈ is, Ok i) (htime : Chronological span t is) :
    m.run s is = n.run u is := by
  induction is generalizing t s u with
  | nil => rfl
  | cons i is ih =>
    obtain ⟨hfirst, hspan, hrest⟩ := htime
    obtain ⟨hR', hanswer⟩ := h t s u i hR (hok i List.mem_cons_self) hfirst hspan
    unfold run
    rw [hanswer, ih hR' (fun j hj => hok j (List.mem_cons_of_mem i hj)) hrest]

/-- The first element occurs before the second. -/
def Precedes (l : List ο) (x y : ο) : Prop := [x, y].Sublist l

theorem precedes_or_precedes {l : List ο} {x y : ο} (hx : x ∈ l) (hy : y ∈ l) (hxy : x ≠ y) :
    Precedes l x y ∨ Precedes l y x := by
  induction l with
  | nil => exact absurd hx List.not_mem_nil
  | cons a l ih =>
    rcases List.mem_cons.mp hx with rfl | hx'
    · rcases List.mem_cons.mp hy with rfl | hy'
      · exact absurd rfl hxy
      · exact Or.inl ((List.singleton_sublist.mpr hy').cons_cons x)
    · rcases List.mem_cons.mp hy with rfl | hy'
      · exact Or.inr ((List.singleton_sublist.mpr hx').cons_cons y)
      · exact (ih hx' hy').imp (fun h => h.cons a) fun h => h.cons a

/-- What holds between any element and the later ones holds in that order. -/
theorem Precedes.rel {l : List ο} {x y : ο} {R : ο → ο → Prop} (h : Precedes l x y)
    (hl : l.Pairwise R) : R x y :=
  List.rel_of_pairwise_cons (hl.sublist h) List.mem_cons_self

end Machine

end Simvacation
