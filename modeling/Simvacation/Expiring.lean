import Mathlib.Logic.Function.Basic
import Mathlib.Data.Int.Basic
import Mathlib.Tactic.Common

/-!
A table of times, and a store of records that stands for it. An entry of the
table counts for a limited time; the store may lose the record of an entry once
that time has passed, and does not lose or invent any other.
-/

namespace Simvacation.Expiring

variable {κ ρ : Type*}

/-- The entry counts at time `now`. -/
def Fresh (limit : κ → ℤ) (T : κ → Option ℤ) (k : κ) (now : ℤ) : Prop :=
  ∃ last ∈ T k, now < last + limit k

/-- What the store holds for one key, at time `t` or later. -/
def TracksAt (limit : ℤ) (Holds : ρ → ℤ → Prop) (t : ℤ) (record : Option ρ) :
    Option ℤ → Prop
  | none => record = none
  | some last => (∃ e ∈ record, Holds e last) ∨ (record = none ∧ last + limit ≤ t)

/-- The store follows the table on the keys in `P`. -/
def Tracks (P : κ → Prop) (limit : κ → ℤ) (Holds : ρ → ℤ → Prop) (t : ℤ) (record : κ → Option ρ)
    (T : κ → Option ℤ) : Prop :=
  ∀ k, P k → TracksAt (limit k) Holds t (record k) (T k)

variable {P : κ → Prop} {limit : κ → ℤ} {Holds : ρ → ℤ → Prop} {t : ℤ} {record : κ → Option ρ}
  {T : κ → Option ℤ}

theorem TracksAt.mono {l t' : ℤ} {r : Option ρ} {last : Option ℤ}
    (h : TracksAt l Holds t r last) (ht : t ≤ t') : TracksAt l Holds t' r last := by
  cases last with
  | none => exact h
  | some last => exact h.imp_right fun ⟨hr, hle⟩ => ⟨hr, Int.le_trans hle ht⟩

theorem Tracks.mono {t' : ℤ} (h : Tracks P limit Holds t record T) (ht : t ≤ t') :
    Tracks P limit Holds t' record T := fun k hk => (h k hk).mono ht

/-- Records of entries that no longer count may go. -/
theorem Tracks.lose {record' : κ → Option ρ} (h : Tracks P limit Holds t record T)
    (hlose : ∀ k, P k → record' k = record k ∨
      (record' k = none ∧ ∀ last ∈ T k, last + limit k ≤ t)) :
    Tracks P limit Holds t record' T := by
  intro k hk
  have hkeep := h k hk
  rcases hlose k hk with heq | ⟨hnone, hstale⟩
  · rwa [heq]
  · rw [hnone]
    cases hT : T k with
    | none => rfl
    | some last => exact Or.inr ⟨rfl, hstale last hT⟩

/-- A record under a key is the record of the table's entry. -/
theorem Tracks.holds_of_record {k : κ} {e : ρ} (h : Tracks P limit Holds t record T) (hk : P k)
    (he : record k = some e) : ∃ last, T k = some last ∧ Holds e last := by
  have hkeep := h k hk
  rw [he] at hkeep
  cases hT : T k with
  | none =>
    rw [hT] at hkeep
    cases hkeep
  | some last =>
    rw [hT] at hkeep
    rcases hkeep with ⟨e', he', hholds⟩ | ⟨hnone, -⟩
    · cases he'
      exact ⟨last, rfl, hholds⟩
    · cases hnone

/-- A new record and a new entry for one key. -/
theorem Tracks.put [DecidableEq κ] {record' : κ → Option ρ} {k : κ} {e : ρ} {now : ℤ}
    (h : Tracks P limit Holds t record T) (hother : ∀ j, P j → j ≠ k → record' j = record j)
    (hk : record' k = some e) (hholds : Holds e now) :
    Tracks P limit Holds t record' (Function.update T k (some now)) := by
  intro j hj
  by_cases hjk : j = k
  · subst hjk
    rw [Function.update_self, hk]
    exact Or.inl ⟨e, rfl, hholds⟩
  · rw [Function.update_of_ne hjk, hother j hj hjk]
    exact h j hj

/-- A lookup finds the record of the entry, unless the entry no longer counts. -/
theorem Tracks.fresh_iff {k : κ} {now : ℤ} {found : Option ρ} {time : ρ → ℤ}
    (h : Tracks P limit Holds t record T) (hk : P k) (ht : t ≤ now)
    (htime : ∀ e last, Holds e last → time e = last)
    (hfound : found = record k ∨ (found = none ∧ ∀ last ∈ T k, last + limit k ≤ now)) :
    Fresh limit T k now ↔ ∃ e ∈ found, now < time e + limit k := by
  have hkeep := h k hk
  unfold Fresh
  cases hT : T k with
  | none =>
    rw [hT] at hkeep
    have hrecord : record k = none := hkeep
    rcases hfound with hfound | ⟨hfound, -⟩ <;> simp [hfound, hrecord]
  | some last =>
    rw [hT] at hkeep hfound
    rcases hfound with rfl | ⟨rfl, hstale⟩
    · rcases hkeep with ⟨e, he, hholds⟩ | ⟨hnone, hle⟩
      · have he' : record k = some e := he
        rw [he']
        simp [htime e last hholds]
      · rw [hnone]
        have hle' : last + limit k ≤ now := Int.le_trans hle ht
        simp [Int.not_lt.mpr hle']
    · have hle : last + limit k ≤ now := hstale last rfl
      simp [Int.not_lt.mpr hle]

end Simvacation.Expiring
