import Simvacation.YaslRefine
import Simvacation.Growth

/-!
How yasl strings grow. `yaslMakeRoomFor` doubles short strings and adds a
megabyte to long ones, so that a string built by appending is moved a
logarithmic number of times while it is short. Near the end of `size_t` the
sizes wrap; it is said exactly from where on the promised room is not there.
-/

namespace Simvacation.YaslHeap

open CString Block Yasl Growth

/-- One more for each doubling, and later for each megabyte. -/
def rank (n : ℕ) : ℕ := if n < YASL_MAX_PREALLOC then n.size else 20 + n / YASL_MAX_PREALLOC

theorem size_le_of_short {n : ℕ} (h : n < YASL_MAX_PREALLOC) : n.size ≤ 20 :=
  Nat.size_le.mpr (by unfold YASL_MAX_PREALLOC at h; omega)

theorem one_le_div_of_long {n : ℕ} (h : ¬ n < YASL_MAX_PREALLOC) : 1 ≤ n / YASL_MAX_PREALLOC :=
  (Nat.one_le_div_iff (by decide)).mpr (by omega)

theorem size_succ_le {n n' : ℕ} (h : n * 2 < n') : n.size + 1 ≤ n'.size := by
  apply Nat.lt_size.mpr
  cases hn : n.size with
  | zero => omega
  | succ k =>
    have hpow : 2 ^ k ≤ n := Nat.lt_size.mp (hn ▸ Nat.lt_succ_self k)
    rw [Nat.pow_succ]
    omega

theorem rank_monotone : Monotone rank := by
  intro n n' h
  unfold rank
  by_cases hn' : n' < YASL_MAX_PREALLOC
  · rw [if_pos (by omega), if_pos hn']
    exact Nat.size_le_size h
  · rw [if_neg hn']
    by_cases hn : n < YASL_MAX_PREALLOC
    · have hsize := size_le_of_short hn
      rw [if_pos hn]
      exact hsize.trans (Nat.le_add_right _ _)
    · rw [if_neg hn]
      exact Nat.add_le_add_left (Nat.div_le_div_right h) 20

/-- A length beyond the room for another one ranks above it. -/
theorem rank_succ_le (n n' : ℕ) (h : roomFor n < n') : rank n + 1 ≤ rank n' := by
  unfold roomFor at h
  unfold rank
  by_cases hn : n < YASL_MAX_PREALLOC
  · rw [if_pos hn] at h ⊢
    by_cases hn' : n' < YASL_MAX_PREALLOC
    · rw [if_pos hn']
      exact size_succ_le h
    · have hsize := size_le_of_short hn
      have hdiv := one_le_div_of_long hn'
      rw [if_neg hn']
      omega
  · rw [if_neg hn] at h ⊢
    rw [if_neg (by omega)]
    have hdiv : n / YASL_MAX_PREALLOC + 1 ≤ n' / YASL_MAX_PREALLOC := by
      rw [← Nat.add_div_right n (by decide : 0 < YASL_MAX_PREALLOC)]
      exact Nat.div_le_div_right h.le
    omega

section

variable {m : Malloc} {str : Yastrhdr} {s : Bytes}

/-- Strings appended one after another, with the answers of the allocator: at each call of
`realloc`, the bytes of the string that are in the block. The header, the NUL and the free
room, which are moved with them, are not counted. -/
def copies : List (Malloc × Bytes) → Yastrhdr → List ℕ
  | [], _ => []
  | (m, t) :: ts, str =>
    let rest := match yaslcatlen m str t t.length with
      | .ok str' => copies ts str'
      | .error _ => []
    if str.free < t.length then str.len :: rest else rest

/-- The capacity behind an appended string. -/
theorem yaslcatlen_capacity (m : Malloc) {t : Bytes} (h : Holds str s) (hfits : Fits t.length) :
    yaslcatlen m str t t.length = .error .null ∨
      ∃ str', yaslcatlen m str t t.length = .ok str' ∧ Holds str' (s ++ t) ∧
        str'.len + str'.free = if str.free < t.length then roomFor (str.len + t.length)
          else str.len + str.free := by
  have hbound := h.bound
  have htake : t.take t.length = t := List.take_of_length_le le_rfl
  unfold Fits at hfits
  by_cases hfree : str.free < t.length
  · have hsize : str.len + t.length + YASL_MAX_PREALLOC + hdrSize + 1 < 2 ^ 64 := by
      unfold YASL_MAX_PREALLOC
      omega
    rcases yaslMakeRoomFor_room m h hsize hfree with ⟨hnull, -⟩ | ⟨str', hok, hholds, hroom⟩
    · left
      rw [yaslcatlen, hnull]
      rfl
    · have hlen := h.len
      have hlen' := hholds.len
      have hlow := le_roomFor (str.len + t.length)
      obtain ⟨str'', hcat, hholds', hcap⟩ :=
        yaslcatlen_of_room h le_rfl hok hholds (show t.length ≤ str'.free by omega)
      rw [htake] at hholds'
      rw [if_pos hfree]
      exact Or.inr ⟨str'', hcat, hholds', hcap.trans hroom⟩
  · have hok : yaslMakeRoomFor m str t.length = .ok str := if_pos (by omega)
    obtain ⟨str'', hcat, hholds', hcap⟩ := yaslcatlen_of_room h le_rfl hok h (by omega)
    rw [htake] at hholds'
    rw [if_neg hfree]
    exact Or.inr ⟨str'', hcat, hholds', hcap⟩

/-- The copies are moves of a buffer that takes room by `roomFor`. They stop
where an allocation fails. -/
theorem copies_prefix {ts : List (Malloc × Bytes)} (h : Holds str s)
    (hfits : ∀ x ∈ ts, Fits x.2.length) :
    copies ts str <+:
      moves roomFor str.len (str.len + str.free) (ts.map fun x => x.2.length) := by
  induction ts generalizing str s with
  | nil => exact List.nil_prefix
  | cons x ts ih =>
    obtain ⟨m, t⟩ := x
    have hfits' : ∀ y ∈ ts, Fits y.2.length := fun y hy => hfits y (List.mem_cons_of_mem _ hy)
    have hmove : str.len + str.free < str.len + t.length ↔ str.free < t.length := by omega
    rw [copies, List.map_cons, moves]
    simp only [hmove]
    rcases yaslcatlen_capacity m h (hfits (m, t) List.mem_cons_self) with
      hnull | ⟨str', hok, hholds, hcap⟩
    · rw [hnull]
      split_ifs
      · exact List.cons_prefix_cons.mpr ⟨rfl, List.nil_prefix⟩
      · exact List.nil_prefix
    · have hlen : str'.len = str.len + t.length := by
        rw [hholds.len, List.length_append, h.len]
      have hrest := ih hholds hfits'
      rw [hcap, hlen] at hrest
      rw [hok]
      split_ifs at hrest ⊢
      · exact List.cons_prefix_cons.mpr ⟨rfl, hrest⟩
      · exact hrest

/-- A string that is built by appending is moved at most once for each doubling
of a short length and for each megabyte of a long one. While it is short, all
the moves together copy less than twice its bytes. -/
theorem copies_bound {ts : List (Malloc × Bytes)} (h : Holds str s)
    (hfits : ∀ x ∈ ts, Fits x.2.length) :
    (copies ts str).length ≤ rank (s.length + (ts.map fun x => x.2.length).sum) ∧
    (s.length + (ts.map fun x => x.2.length).sum < YASL_MAX_PREALLOC →
      (copies ts str).sum ≤ 2 * (s.length + (ts.map fun x => x.2.length).sum)) := by
  obtain ⟨rest, hrest⟩ := copies_prefix h hfits
  rw [← h.len]
  generalize (ts.map fun x => x.2.length) = ks at hrest ⊢
  have hroom : roomFor 0 ≤ str.len + str.free := Nat.zero_le _
  have htotal : 0 ≤ str.len + ks.sum := Nat.zero_le _
  constructor
  · have hmoves := moves_length_le rank_monotone rank_succ_le ks hroom htotal
    rw [← hrest, List.length_append] at hmoves
    omega
  · intro hshort
    have hdouble : ∀ n < YASL_MAX_PREALLOC, 2 * n ≤ roomFor n := by
      intro n hn
      rw [roomFor, if_pos hn]
      omega
    have hmoves := moves_sum_le hdouble ks hroom htotal hshort
    rw [← hrest, List.sum_append] at hmoves
    omega

theorem copies_bound_abc :
    (copies [(plenty, bytes "ab"), (plenty, bytes "c")] ⟨0, 0, [0]⟩).length ≤ rank 3 ∧
    (3 < YASL_MAX_PREALLOC →
      (copies [(plenty, bytes "ab"), (plenty, bytes "c")] ⟨0, 0, [0]⟩).sum ≤ 2 * 3) := by
  have hholds : Holds ⟨0, 0, [0]⟩ [] := ⟨rfl, ⟨[], rfl, rfl⟩, by decide⟩
  exact copies_bound hholds (by simp [Fits, bytes])

/-- Where a size wraps, a small block is asked for, and there is one. -/
theorem yaslMakeRoomFor_plenty {addlen : ℕ} (hlen : Fits str.len) (hadd : addlen < 2 ^ 64)
    (hfree : str.free < addlen)
    (hwrap : 2 ^ 64 ≤ str.len + addlen + YASL_MAX_PREALLOC + hdrSize + 1) :
    yaslMakeRoomFor plenty str addlen ≠ .error .null := by
  unfold yaslMakeRoomFor
  rw [if_neg (by omega)]
  simp only
  generalize hw : sizeT (str.len + addlen) = w
  generalize hr : sizeT (if w < YASL_MAX_PREALLOC then w * 2 else w + YASL_MAX_PREALLOC) = r
  have hsize : sizeT (hdrSize + r + 1) < 2 ^ 63 := by
    rw [← hr]
    unfold sizeT YASL_MAX_PREALLOC hdrSize Fits at *
    split <;> omega
  have hsucceeds : plenty.succeeds (sizeT (hdrSize + r + 1)) = true := by
    simpa [plenty] using hsize
  rw [Malloc.realloc, if_pos hsucceeds]
  by_cases hhdr : hdrSize ≤ sizeT (hdrSize + r + 1)
  · rw [if_pos hhdr]
    simp
  · rw [if_neg hhdr]
    simp

/-- The promised room is there, whatever the allocator answers, exactly as long
as no size wraps. -/
theorem yaslMakeRoomFor_room_iff {addlen : ℕ} (h : Holds str s) (hlen : Fits str.len)
    (hadd : addlen < 2 ^ 64) :
    (∀ m, yaslMakeRoomFor m str addlen = .error .null ∨
      ∃ str', yaslMakeRoomFor m str addlen = .ok str' ∧ Holds str' s ∧ addlen ≤ str'.free) ↔
    addlen ≤ str.free ∨ str.len + addlen + YASL_MAX_PREALLOC + hdrSize + 1 < 2 ^ 64 := by
  constructor
  · intro hroom
    by_contra hno
    rw [not_or, not_le, not_lt] at hno
    obtain ⟨hfree, hwrap⟩ := hno
    rcases hroom plenty with hnull | ⟨str', -, hholds, hfree'⟩
    · exact yaslMakeRoomFor_plenty hlen hadd hfree hwrap hnull
    · have hbound := hholds.bound
      unfold YASL_MAX_PREALLOC hdrSize Fits at *
      omega
  · intro hsize m
    by_cases hfree : addlen ≤ str.free
    · exact Or.inr ⟨str, if_pos hfree, h, hfree⟩
    · have hlt := hsize.resolve_left hfree
      rcases yaslMakeRoomFor_room m h hlt (by omega) with ⟨hnull, -⟩ | ⟨str', hok, hholds, hcap⟩
      · exact Or.inl hnull
      · have hlow := le_roomFor (str.len + addlen)
        have hlen' : str'.len = str.len := hholds.len.trans h.len.symm
        exact Or.inr ⟨str', hok, hholds, by omega⟩

/-- The largest request wraps, for any string. -/
theorem yaslMakeRoomFor_room_wraps :
    ¬ ∀ m, yaslMakeRoomFor m ⟨1, 0, [97, 0]⟩ (2 ^ 64 - 1) = .error .null ∨
      ∃ str', yaslMakeRoomFor m ⟨1, 0, [97, 0]⟩ (2 ^ 64 - 1) = .ok str' ∧ Holds str' [97] ∧
        2 ^ 64 - 1 ≤ str'.free := by
  have hholds : Holds ⟨1, 0, [97, 0]⟩ [97] := ⟨rfl, ⟨[], rfl, rfl⟩, by decide⟩
  have hfits : Fits 1 := by
    unfold Fits
    decide
  intro hroom
  have hsize := (yaslMakeRoomFor_room_iff hholds hfits (by decide)).mp hroom
  revert hsize
  decide

/-- The whole output is appended, up to its first NUL. The call fails only with
an allocation: of scratch space within twice the output, or of room for the result. -/
theorem yaslcatvprintf_spec (m m' : Malloc) (h : Holds str s) (out : Bytes) :
    Gives (yaslcatvprintf m m' str out) (s ++ cstr out) ∧
    (yaslcatvprintf m m' str out = .error .null →
      (∃ k ≤ max 16 (2 * out.length + 2), m.succeeds k = false) ∨
      m'.succeeds (hdrSize + roomFor (str.len + (cstr out).length) + 1) = false) := by
  refine ⟨yaslcatvprintf_gives m m' h out, fun hnull => ?_⟩
  have hloop := printLoop_cases m out (show 0 < 60 by omega) le_rfl
  rw [show 2 ^ (64 - 60) = 16 from rfl] at hloop
  rcases hloop with ⟨-, hfail⟩ | ⟨b, hok, hfits, hnul, hcstr⟩
  · exact Or.inl hfail
  · right
    have hle : (cstr b).length ≤ b.length := (prefix_of_cstr b).length_le
    have hbound := h.bound
    rw [yaslcatvprintf, hok, ok_bind, yaslcat, strlen_cells hnul, ok_bind, hcstr] at hnull
    rw [hcstr] at hle
    have hsize : str.len + (cstr out).length + YASL_MAX_PREALLOC + hdrSize + 1 < 2 ^ 64 := by
      unfold Fits at hfits
      unfold YASL_MAX_PREALLOC
      omega
    by_cases hfree : str.free < (cstr out).length
    · rcases yaslMakeRoomFor_room m' h hsize hfree with ⟨-, hfail⟩ | ⟨str', hroom, hholds, hcap⟩
      · exact hfail
      · have hlen := h.len
        have hlen' := hholds.len
        have hlow := le_roomFor (str.len + (cstr out).length)
        obtain ⟨str'', hcat, -, -⟩ := yaslcatlen_of_room h hle hroom hholds (by omega)
        rw [hcat] at hnull
        contradiction
    · have hroom : yaslMakeRoomFor m' str (cstr out).length = .ok str := if_pos (by omega)
      obtain ⟨str'', hcat, -, -⟩ := yaslcatlen_of_room h hle hroom h (by omega)
      rw [hcat] at hnull
      contradiction

theorem yaslcatvprintf_spec_letters :
    Gives (yaslcatvprintf plenty plenty ⟨1, 0, [97, 0]⟩ (bytes "bcdefghijklmnopqrs"))
      (bytes "abcdefghijklmnopqrs") := by
  have hholds : Holds ⟨1, 0, [97, 0]⟩ [97] := ⟨rfl, ⟨[], rfl, rfl⟩, by decide⟩
  have htext : [97] ++ cstr (bytes "bcdefghijklmnopqrs") = bytes "abcdefghijklmnopqrs" := by
    decide +kernel
  rw [← htext]
  exact (yaslcatvprintf_spec plenty plenty hholds (bytes "bcdefghijklmnopqrs")).1

end

end Simvacation.YaslHeap
