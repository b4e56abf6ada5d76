import Mathlib.Data.List.Basic
import Mathlib.Tactic.Common

/-!
Tables of file descriptors. A new descriptor is the lowest one that is closed;
`dup2` replaces whatever its second descriptor refers to. A table is known by
what each descriptor refers to.
-/

namespace Simvacation

/-- What the descriptors from 0 on refer to. -/
abbrev Descriptors (F : Type*) := List (Option F)

namespace Descriptors

variable {F G : Type*}

def get (t : Descriptors F) (n : ℕ) : Option F := t[n]?.join

/-- The lowest closed descriptor. -/
def lowest (t : Descriptors F) : ℕ := t.findIdx Option.isNone

def put (t : Descriptors F) (n : ℕ) (file : Option F) : Descriptors F :=
  (t ++ List.replicate (n + 1 - t.length) none).set n file

/-- Closing fails for a closed descriptor. -/
def close (t : Descriptors F) (n : ℕ) : Option (Descriptors F) :=
  (t.get n).map fun _ => t.put n none

/-- Nothing happens when both are the same. -/
def dup2 (t : Descriptors F) (old new : ℕ) : Option (Descriptors F) :=
  (t.get old).map fun file => if old = new then t else t.put new (some file)

/-- The descriptors of the ends, the first one lower in a table without gaps. -/
def pipe (t : Descriptors F) (readEnd writeEnd : F) : ℕ × ℕ × Descriptors F :=
  let r := t.lowest
  let t := t.put r (some readEnd)
  let w := t.lowest
  (r, w, t.put w (some writeEnd))

/-- The same descriptors, seen as files of another kind. -/
def embed (f : F → G) (t : Descriptors F) : Descriptors G := t.map (Option.map f)

theorem get_of_length_le {t : Descriptors F} {n : ℕ} (h : t.length ≤ n) : t.get n = none := by
  rw [get, List.getElem?_eq_none_iff.mpr h]
  rfl

theorem get_append_none (t : Descriptors F) (k n : ℕ) :
    Descriptors.get (t ++ List.replicate k none) n = t.get n := by
  by_cases h : n < t.length
  · rw [get, get, List.getElem?_append_left h]
  · rw [get_of_length_le (Nat.le_of_not_lt h), get, List.getElem?_append_right (Nat.le_of_not_lt h),
      List.getElem?_replicate]
    split <;> rfl

theorem get_put (t : Descriptors F) (n m : ℕ) (file : Option F) :
    (t.put n file).get m = if m = n then file else t.get m := by
  have hlen : n < (t ++ List.replicate (n + 1 - t.length) none).length := by
    rw [List.length_append, List.length_replicate]
    omega
  rw [put, get, List.getElem?_set]
  by_cases h : n = m
  · subst h
    rw [if_pos rfl, if_pos hlen, if_pos rfl]
    rfl
  · rw [if_neg h, if_neg fun e => h e.symm]
    exact get_append_none t _ m

theorem get_embed (f : F → G) (t : Descriptors F) (n : ℕ) :
    (t.embed f).get n = (t.get n).map f := by
  rw [get, get, embed, List.getElem?_map]
  cases t[n]? with
  | none => rfl
  | some file => rfl

theorem get_lowest (t : Descriptors F) : t.get t.lowest = none := by
  by_cases h : t.lowest < t.length
  · have hnone : (t[t.lowest]).isNone = true := List.findIdx_getElem
    rw [get, List.getElem?_eq_getElem h]
    exact Option.isNone_iff_eq_none.mp hnone
  · exact get_of_length_le (Nat.le_of_not_lt h)

theorem ne_none_of_lt_lowest {t : Descriptors F} {n : ℕ} (h : n < t.lowest) : t.get n ≠ none := by
  have hlen : n < t.length := Nat.lt_of_lt_of_le h List.findIdx_le_length
  have hsome : (t[n]).isNone = false := List.not_of_lt_findIdx h
  rw [get, List.getElem?_eq_getElem hlen]
  intro hnone
  have heq : t[n] = none := hnone
  rw [heq] at hsome
  contradiction

/-- The lowest closed descriptor is known by what it is lower than. -/
theorem lowest_eq_iff {t : Descriptors F} {n : ℕ} :
    t.lowest = n ↔ t.get n = none ∧ ∀ m < n, t.get m ≠ none := by
  constructor
  · rintro rfl
    exact ⟨get_lowest t, fun m hm => ne_none_of_lt_lowest hm⟩
  · rintro ⟨hn, hlt⟩
    rcases Nat.lt_trichotomy t.lowest n with h | h | h
    · exact absurd (get_lowest t) (hlt _ h)
    · exact h
    · exact absurd hn (ne_none_of_lt_lowest h)

theorem close_of_open {t : Descriptors F} {n : ℕ} (h : t.get n ≠ none) :
    t.close n = some (t.put n none) := by
  obtain ⟨file, hfile⟩ := Option.ne_none_iff_exists'.mp h
  rw [close, hfile, Option.map_some]

theorem dup2_of_open {t : Descriptors F} {old : ℕ} {file : F} (h : t.get old = some file)
    (new : ℕ) :
    ∃ t', t.dup2 old new = some t' ∧
      ∀ n, t'.get n = if n = new then some file else t.get n := by
  refine ⟨_, by rw [dup2, h, Option.map_some], fun n => ?_⟩
  by_cases hsame : old = new
  · subst hsame
    by_cases hn : n = old
    · rw [if_pos rfl, if_pos hn, hn, h]
    · rw [if_pos rfl, if_neg hn]
  · rw [if_neg hsame, get_put]

end Descriptors

end Simvacation
