import Mathlib.Data.Nat.Size
import Mathlib.Order.Monotone.Basic
import Mathlib.Tactic.Linarith

/-!
The cost of a buffer that is moved whenever it is too small. A policy says how
much room to take for a length. The moves of a run are the lengths that were
copied. A rank that goes up with every move bounds their number, and a policy
that takes twice the room needed bounds what is copied in all.
-/

namespace Simvacation.Growth

variable (room : ℕ → ℕ)

/-- The lengths copied while chunks of the given sizes arrive, from a length
and a capacity on. -/
def moves : ℕ → ℕ → List ℕ → List ℕ
  | _, _, [] => []
  | len, cap, k :: ks =>
    if cap < len + k then len :: moves (len + k) (room (len + k)) ks
    else moves (len + k) cap ks

variable {room}

/-- Each move goes one rank up. -/
theorem moves_length_le {rank : ℕ → ℕ} (hmono : Monotone rank)
    (hrank : ∀ n n', room n < n' → rank n + 1 ≤ rank n') (ks : List ℕ) {len cap n : ℕ}
    (hcap : room n ≤ cap) (hn : n ≤ len + ks.sum) :
    (moves room len cap ks).length + rank n ≤ rank (len + ks.sum) := by
  induction ks generalizing len cap n with
  | nil =>
    rw [moves, List.length_nil, Nat.zero_add]
    exact hmono hn
  | cons k ks ih =>
    rw [List.sum_cons, ← Nat.add_assoc] at hn ⊢
    unfold moves
    by_cases hmove : cap < len + k
    · have hstep : rank n + 1 ≤ rank (len + k) := hrank n (len + k) (by omega)
      have hrest := ih (le_refl (room (len + k))) (Nat.le_add_right _ _)
      rw [if_pos hmove, List.length_cons]
      omega
    · rw [if_neg hmove]
      exact ih hcap hn

/-- While the room is at least doubled, less than twice the final length is copied. -/
theorem moves_sum_le {bound : ℕ} (hdouble : ∀ n < bound, 2 * n ≤ room n) (ks : List ℕ)
    {len cap n : ℕ} (hcap : 2 * n ≤ cap) (hn : n ≤ len + ks.sum) (hbound : len + ks.sum < bound) :
    (moves room len cap ks).sum + 2 * n ≤ 2 * (len + ks.sum) := by
  induction ks generalizing len cap n with
  | nil =>
    rw [List.sum_nil] at hn
    rw [moves, List.sum_nil]
    omega
  | cons k ks ih =>
    rw [List.sum_cons, ← Nat.add_assoc] at hn hbound ⊢
    unfold moves
    by_cases hmove : cap < len + k
    · have hroom : 2 * (len + k) ≤ room (len + k) := hdouble _ (by omega)
      have hrest := ih hroom (Nat.le_add_right _ _) hbound
      rw [if_pos hmove, List.sum_cons]
      omega
    · rw [if_neg hmove]
      exact ih hcap hn hbound

end Simvacation.Growth
