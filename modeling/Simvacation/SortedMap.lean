import Mathlib.Data.List.Basic
import Mathlib.Order.Lattice

/-!
Finite maps as lists sorted by key, with a cursor that walks over them. The
cursor holds the last key it has seen, so it may be moved on after that key is
erased: it then finds the least key above it that remains.
-/

namespace Simvacation

structure SortedMap (α β : Type*) [LinearOrder α] where
  entries : List (α × β)
  sorted : entries.Pairwise fun x y => x.1 < y.1

namespace SortedMap

variable {α β : Type*} [LinearOrder α]

def empty : SortedMap α β := ⟨[], List.Pairwise.nil⟩

def get (m : SortedMap α β) (k : α) : Option β := (m.entries.find? (·.1 = k)).map Prod.snd

def insertEntry (k : α) (v : β) : List (α × β) → List (α × β)
  | [] => [(k, v)]
  | e :: l =>
    if k < e.1 then (k, v) :: e :: l
    else if k = e.1 then (k, v) :: l
    else e :: insertEntry k v l

theorem mem_insertEntry {k : α} {v : β} {l : List (α × β)} {e : α × β}
    (h : e ∈ insertEntry k v l) : e = (k, v) ∨ e ∈ l := by
  induction l with
  | nil => exact Or.inl (List.mem_singleton.mp h)
  | cons f l ih =>
    unfold insertEntry at h
    split at h
    · exact List.mem_cons.mp h
    · split at h
      · rcases List.mem_cons.mp h with h | h
        · exact Or.inl h
        · exact Or.inr (List.mem_cons_of_mem f h)
      · rcases List.mem_cons.mp h with rfl | h
        · exact Or.inr List.mem_cons_self
        · exact (ih h).imp_right (List.mem_cons_of_mem f)

theorem sorted_insertEntry {k : α} {v : β} {l : List (α × β)}
    (h : l.Pairwise fun x y => x.1 < y.1) :
    (insertEntry k v l).Pairwise fun x y => x.1 < y.1 := by
  induction l with
  | nil => exact List.pairwise_singleton _ _
  | cons e l ih =>
    obtain ⟨he, hl⟩ := List.pairwise_cons.mp h
    unfold insertEntry
    split
    · next hlt =>
      refine List.pairwise_cons.mpr ⟨fun f hf => ?_, h⟩
      rcases List.mem_cons.mp hf with rfl | hf
      · exact hlt
      · exact lt_trans hlt (he f hf)
    · next hge =>
      split
      · next heq =>
        refine List.pairwise_cons.mpr ⟨fun f hf => ?_, hl⟩
        rw [heq]
        exact he f hf
      · next hne =>
        refine List.pairwise_cons.mpr ⟨fun f hf => ?_, ih hl⟩
        rcases mem_insertEntry hf with rfl | hf
        · exact lt_of_le_of_ne (not_lt.mp hge) (Ne.symm hne)
        · exact he f hf

def insert (m : SortedMap α β) (k : α) (v : β) : SortedMap α β :=
  ⟨insertEntry k v m.entries, sorted_insertEntry m.sorted⟩

def erase (m : SortedMap α β) (k : α) : SortedMap α β :=
  ⟨m.entries.filter (·.1 ≠ k), m.sorted.filter _⟩

/-- The entry after the cursor position; `none` stands in front of all keys. -/
def next (m : SortedMap α β) (pos : Option α) : Option (α × β) :=
  m.entries.find? fun e => pos.all (· < e.1)

theorem get_insert (m : SortedMap α β) (k j : α) (v : β) :
    (m.insert k v).get j = if j = k then some v else m.get j := by
  obtain ⟨l, hl⟩ := m
  unfold get insert
  simp only
  induction l with
  | nil =>
    by_cases h : j = k
    · simp [insertEntry, h]
    · simp [insertEntry, h, Ne.symm h]
  | cons e l ih =>
    have ih' := ih (List.pairwise_cons.mp hl).2
    unfold insertEntry
    split
    · by_cases h : j = k
      · simp [h]
      · simp [h, Ne.symm h]
    · split
      · next heq =>
        by_cases h : j = k
        · simp [h]
        · simp [h, Ne.symm h, ← heq]
      · next hne =>
        by_cases he : e.1 = j
        · have hjk : j ≠ k := fun e' => hne (e' ▸ he.symm)
          simp [he, hjk]
        · simpa [he] using ih'

theorem get_erase (m : SortedMap α β) (k j : α) :
    (m.erase k).get j = if j = k then none else m.get j := by
  unfold get erase
  simp only [List.find?_filter]
  by_cases h : j = k
  · subst h
    rw [if_pos rfl, Option.map_eq_none_iff, List.find?_eq_none]
    simp
  · rw [if_neg h]
    congr 2
    funext e
    by_cases he : e.1 = j
    · simp [he, h]
    · simp [he]

theorem get_eq_some_iff {m : SortedMap α β} {k : α} {v : β} :
    m.get k = some v ↔ (k, v) ∈ m.entries := by
  obtain ⟨l, hl⟩ := m
  unfold get
  simp only
  induction l with
  | nil => simp
  | cons e l ih =>
    obtain ⟨he, hl'⟩ := List.pairwise_cons.mp hl
    by_cases hk : e.1 = k
    · have hnot : (k, v) ∉ l := fun hmem => absurd (he _ hmem) (by simp [hk])
      simp only [List.find?_cons, hk, decide_true, Option.map_some, Option.some_inj,
        List.mem_cons, hnot, or_false]
      constructor
      · rintro rfl
        rw [← hk]
      · intro heq
        rw [← heq]
    · have hne : (k, v) ≠ e := fun heq => hk (by rw [← heq])
      simp [hk, hne, ih hl']

theorem next_eq_none {m : SortedMap α β} {pos : Option α} (h : m.next pos = none) {k : α} {v : β}
    (hk : m.get k = some v) : pos.all (· < k) = false := by
  have hnone := List.find?_eq_none.mp h (k, v) (get_eq_some_iff.mp hk)
  simpa using hnone

/-- The cursor moves to the least entry of the map above its position. -/
theorem next_eq_some {m : SortedMap α β} {pos : Option α} {e : α × β} (h : m.next pos = some e) :
    m.get e.1 = some e.2 ∧ pos.all (· < e.1) = true ∧
      ∀ k v, m.get k = some v → pos.all (· < k) = true → e.1 ≤ k := by
  obtain ⟨habove, pre, post, heq, hpre⟩ := List.find?_eq_some_iff_append.mp h
  refine ⟨get_eq_some_iff.mpr (List.mem_of_find?_eq_some h), habove, ?_⟩
  intro k v hk hpos
  have hmem := get_eq_some_iff.mp hk
  have hsorted := m.sorted
  rw [heq] at hmem hsorted
  rcases List.mem_append.mp hmem with hmem | hmem
  · have hnot := hpre (k, v) hmem
    rw [hpos] at hnot
    contradiction
  · rcases List.mem_cons.mp hmem with hsame | hmem
    · rw [← hsame]
    · have htail := (List.pairwise_append.mp hsorted).2.1
      exact ((List.pairwise_cons.mp htail).1 _ hmem).le

/-- The number of entries that are still ahead of the cursor. -/
def ahead (m : SortedMap α β) (pos : Option α) : ℕ := m.entries.countP fun e => pos.all (· < e.1)

theorem ahead_le_length (m : SortedMap α β) (pos : Option α) : m.ahead pos ≤ m.entries.length :=
  List.countP_le_length

theorem ahead_erase_le (m : SortedMap α β) (k : α) (pos : Option α) :
    (m.erase k).ahead pos ≤ m.ahead pos :=
  List.filter_sublist.countP_le

/-- Each step of the cursor leaves fewer entries ahead of it. -/
theorem ahead_next_lt {m : SortedMap α β} {pos : Option α} {e : α × β} (h : m.next pos = some e) :
    m.ahead (some e.1) < m.ahead pos := by
  obtain ⟨habove, pre, post, heq, -⟩ := List.find?_eq_some_iff_append.mp h
  have hmono : ∀ l : List (α × β), l.countP (fun f => (some e.1).all (· < f.1)) ≤
      l.countP fun f => pos.all (· < f.1) := by
    intro l
    apply List.countP_mono_left
    intro f _ hf
    cases pos with
    | none => rfl
    | some p =>
      simp only [Option.all_some, decide_eq_true_eq] at habove hf ⊢
      exact lt_trans habove hf
  have hpre := hmono pre
  have hpost := hmono post
  have hself : (some e.1).all (· < e.1) = false := by simp
  unfold ahead
  rw [heq, List.countP_append, List.countP_append, List.countP_cons, List.countP_cons, hself,
    habove]
  simp only [Bool.false_eq_true, ite_false, ite_true]
  omega

/-- Walks over the map and erases the entries with `p`. -/
def sweep (p : α → β → Bool) : ℕ → Option α → SortedMap α β → SortedMap α β
  | 0, _, m => m
  | fuel + 1, pos, m =>
    match m.next pos with
    | none => m
    | some e => sweep p fuel (some e.1) (if p e.1 e.2 then m.erase e.1 else m)

/-- A sweep erases exactly the entries with `p` that were ahead of the cursor. -/
theorem get_sweep (p : α → β → Bool) {fuel : ℕ} {pos : Option α} {m : SortedMap α β}
    (hfuel : m.ahead pos < fuel) (k : α) :
    (sweep p fuel pos m).get k = (m.get k).filter fun v => !(pos.all (· < k) && p k v) := by
  induction fuel generalizing pos m with
  | zero => exact absurd hfuel (Nat.not_lt_zero _)
  | succ fuel ih =>
    unfold sweep
    cases hnext : m.next pos with
    | none =>
      cases hk : m.get k with
      | none => rfl
      | some v => simp [next_eq_none hnext hk, Option.filter_some]
    | some e =>
      obtain ⟨hget, habove, hleast⟩ := next_eq_some hnext
      have hlt := ahead_next_lt hnext
      have hstep : (if p e.1 e.2 then m.erase e.1 else m).ahead (some e.1) < fuel := by
        split
        · have hle := m.ahead_erase_le e.1 (some e.1)
          omega
        · omega
      simp only
      rw [ih hstep]
      by_cases hk : k = e.1
      · subst hk
        by_cases hp : p e.1 e.2 = true
        · simp [hp, get_erase, hget, habove, Option.filter_some]
        · simp [hp, hget, habove, Option.filter_some]
      · have hsame : (if p e.1 e.2 then m.erase e.1 else m).get k = m.get k := by
          split
          · rw [get_erase, if_neg hk]
          · rfl
        rw [hsame]
        cases hv : m.get k with
        | none => rfl
        | some v =>
          have hcursor : (some e.1).all (· < k) = pos.all (· < k) := by
            by_cases hpos : pos.all (· < k) = true
            · have hle := lt_of_le_of_ne (hleast k v hv hpos) (Ne.symm hk)
              simp [hpos, hle]
            · have hnot : ¬ e.1 < k := by
                intro hlt'
                apply hpos
                cases pos with
                | none => rfl
                | some q =>
                  simp only [Option.all_some, decide_eq_true_eq] at habove ⊢
                  exact lt_trans habove hlt'
              simp [hpos, hnot]
          rw [hcursor]

end SortedMap

end Simvacation
