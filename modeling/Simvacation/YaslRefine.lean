import Simvacation.YaslHeap

/-!
The heap strings hold the byte strings of the rest of the program. Each function
of `yasl.c` keeps the counters of its header in step with the bytes behind it,
stays within the allocated block, and leaves the contents that the function on
byte strings gives. `yaslstrip` is the exception: it reads the byte behind the
NUL, which is only there when the string has free space.
-/

namespace Simvacation.YaslHeap

open CString Block Yasl

/-- The header counts the bytes behind it: the string, its NUL, and free space. -/
structure Holds (str : Yastrhdr) (s : Bytes) : Prop where
  len : str.len = s.length
  buf : ∃ rest, str.buf = s ++ 0 :: rest ∧ rest.length = str.free
  size : hdrSize + str.buf.length < 2 ^ 63

/-- A call that edits in place. -/
def Leaves (c : Checked Yastrhdr) (s : Bytes) : Prop := ∃ str, c = .ok str ∧ Holds str s

/-- A call that allocates ends in a null pointer or in a string. -/
def Gives (c : Checked Yastrhdr) (s : Bytes) : Prop := c = .error .null ∨ Leaves c s

/-- The sizes of objects in memory, as far as growing by them does not wrap. -/
def Fits (n : ℕ) : Prop := n + 2 ^ 21 ≤ 2 ^ 63

section

variable {m : Malloc} {str : Yastrhdr} {s : Bytes}

/-- A failed step ends the call, and the next one starts from what was left. -/
theorem Gives.bind {c : Checked Yastrhdr} {f : Yastrhdr → Checked Yastrhdr} {t : Bytes}
    (h : Gives c s) (hf : ∀ str, Holds str s → Gives (f str) t) : Gives (c >>= f) t := by
  rcases h with hnull | ⟨str, hok, hholds⟩
  · rw [hnull]
    exact Or.inl rfl
  · rw [hok]
    exact hf str hholds

theorem sizeT_of_lt {n : ℕ} (h : n < 2 ^ 64) : sizeT n = n := Nat.mod_eq_of_lt h

theorem sizeSub_of_le {a b : ℕ} (h : b ≤ a) (ha : a < 2 ^ 64) : sizeSub a b = a - b := by
  unfold sizeSub sizeT
  omega

theorem Holds.buf_length (h : Holds str s) : str.buf.length = str.len + 1 + str.free := by
  obtain ⟨rest, hbuf, hrest⟩ := h.buf
  rw [hbuf, List.length_append, List.length_cons, h.len, hrest]
  omega

/-- The counters and the block stay far from the bounds of `size_t`. -/
theorem Holds.bound (h : Holds str s) : hdrSize + str.len + 1 + str.free < 2 ^ 63 := by
  have hsize := h.size
  rw [h.buf_length] at hsize
  omega

theorem Holds.of_cells {len free : ℕ} {rest : Bytes} (hlen : len = s.length)
    (hfree : rest.length = free) (hsize : hdrSize + (len + 1 + free) < 2 ^ 63) :
    Holds ⟨len, free, s ++ 0 :: rest⟩ s := by
  refine ⟨hlen, ⟨rest, rfl, hfree⟩, ?_⟩
  rw [List.length_append, List.length_cons, ← hlen, hfree]
  omega

/-- A shorter string in the cells of a longer one. -/
theorem Holds.shrink {t rest : Bytes} (h : Holds str s) (ht : t.length ≤ s.length)
    (hrest : t.length + rest.length = str.len + str.free) :
    Holds ⟨t.length, sizeT (str.free + sizeSub str.len t.length), t ++ 0 :: rest⟩ t := by
  have hbound := h.bound
  have hle : t.length ≤ str.len := h.len ▸ ht
  unfold hdrSize at hbound
  rw [sizeSub_of_le hle (by omega), sizeT_of_lt (by omega)]
  apply Holds.of_cells rfl
  · omega
  · unfold hdrSize
    omega

theorem malloc_cases (m : Malloc) {size : ℕ} (h : hdrSize ≤ size) :
    m.malloc size = .error .null ∨ size < 2 ^ 63 ∧
      ∃ b : Bytes, m.malloc size = .ok b ∧ b.length = size - hdrSize := by
  unfold Malloc.malloc
  by_cases hm : m.succeeds size = true
  · rw [if_pos hm, if_pos h]
    exact Or.inr ⟨m.limit size hm, _, rfl, by simp⟩
  · rw [if_neg hm]
    exact Or.inl rfl

theorem realloc_cases (m : Malloc) (buf : Bytes) {size : ℕ} (h : hdrSize ≤ size) :
    m.realloc buf size = .error .null ∧ m.succeeds size = false ∨ size < 2 ^ 63 ∧
      m.realloc buf size = .ok (resize buf (size - hdrSize) m.junk) := by
  unfold Malloc.realloc
  by_cases hm : m.succeeds size = true
  · rw [if_pos hm, if_pos h]
    exact Or.inr ⟨m.limit size hm, rfl⟩
  · rw [if_neg hm]
    exact Or.inl ⟨rfl, Bool.eq_false_iff.mpr hm⟩

/-- The room that is taken for a length. -/
def roomFor (n : ℕ) : ℕ := if n < YASL_MAX_PREALLOC then n * 2 else n + YASL_MAX_PREALLOC

theorem le_roomFor (n : ℕ) : n ≤ roomFor n := by
  unfold roomFor
  split <;> omega

theorem roomFor_lt {n : ℕ} (h : n + YASL_MAX_PREALLOC + hdrSize + 1 < 2 ^ 64) :
    roomFor n + hdrSize + 1 < 2 ^ 64 := by
  unfold roomFor YASL_MAX_PREALLOC hdrSize at *
  split <;> omega

/-- As long as no size wraps, the block grows to the room for the length asked for. -/
theorem yaslMakeRoomFor_room (m : Malloc) {addlen : ℕ} (h : Holds str s)
    (hadd : str.len + addlen + YASL_MAX_PREALLOC + hdrSize + 1 < 2 ^ 64)
    (hfree : str.free < addlen) :
    yaslMakeRoomFor m str addlen = .error .null ∧
      m.succeeds (hdrSize + roomFor (str.len + addlen) + 1) = false ∨
      ∃ str', yaslMakeRoomFor m str addlen = .ok str' ∧ Holds str' s ∧
        str'.len + str'.free = roomFor (str.len + addlen) := by
  have hlow := le_roomFor (str.len + addlen)
  have hhigh := roomFor_lt hadd
  unfold yaslMakeRoomFor
  rw [if_neg (by omega)]
  have hsum : sizeT (str.len + addlen) = str.len + addlen := sizeT_of_lt (by omega)
  simp only [hsum]
  rw [show (if str.len + addlen < YASL_MAX_PREALLOC then (str.len + addlen) * 2
    else str.len + addlen + YASL_MAX_PREALLOC) = roomFor (str.len + addlen) from rfl]
  generalize roomFor (str.len + addlen) = room at hlow hhigh ⊢
  have hsize : sizeT (hdrSize + sizeT room + 1) = hdrSize + room + 1 := by
    rw [sizeT_of_lt (n := room) (by omega), sizeT_of_lt (by omega)]
  rw [hsize, sizeT_of_lt (n := room) (by omega), sizeSub_of_le (by omega) (by omega)]
  have hhdr : hdrSize ≤ hdrSize + room + 1 := by omega
  rcases realloc_cases m str.buf hhdr with ⟨hnull, hfail⟩ | ⟨hlt, hok⟩
  · rw [hnull]
    exact Or.inl ⟨rfl, hfail⟩
  · have hcells : hdrSize + room + 1 - hdrSize = room + 1 := by omega
    rw [hcells] at hok
    have hgrow : str.buf.length ≤ room + 1 := by
      rw [h.buf_length]
      omega
    rw [hok, resize_of_le hgrow]
    refine Or.inr ⟨_, rfl, ?_, by show str.len + (room - str.len) = room; omega⟩
    obtain ⟨rest, hbuf, hrest⟩ := h.buf
    have hlen := h.buf_length
    rw [hbuf, List.append_assoc, List.cons_append] at *
    apply Holds.of_cells h.len
    · simp only [List.length_append, List.length_map, List.length_range, hrest] at *
      omega
    · omega

theorem yaslMakeRoomFor_cases (m : Malloc) {addlen : ℕ} (h : Holds str s) (hadd : Fits addlen) :
    yaslMakeRoomFor m str addlen = .error .null ∨
      ∃ str', yaslMakeRoomFor m str addlen = .ok str' ∧ Holds str' s ∧ addlen ≤ str'.free := by
  have hbound := h.bound
  unfold Fits at hadd
  by_cases hfree : addlen ≤ str.free
  · exact Or.inr ⟨str, if_pos hfree, h, hfree⟩
  · have hsize : str.len + addlen + YASL_MAX_PREALLOC + hdrSize + 1 < 2 ^ 64 := by
      unfold YASL_MAX_PREALLOC
      omega
    rcases yaslMakeRoomFor_room m h hsize (by omega) with ⟨hnull, -⟩ | ⟨str', hok, hholds, hroom⟩
    · exact Or.inl hnull
    · have hlen := h.len
      have hlen' := hholds.len
      have hlow := le_roomFor (str.len + addlen)
      exact Or.inr ⟨str', hok, hholds, by omega⟩

/-- Once there is room, the bytes are copied into it. -/
theorem yaslcatlen_of_room {src : Bytes} {len : ℕ} {str' : Yastrhdr} (h : Holds str s)
    (hlen : len ≤ src.length) (hok : yaslMakeRoomFor m str len = .ok str') (hholds : Holds str' s)
    (hfree : len ≤ str'.free) :
    ∃ str'', yaslcatlen m str src len = .ok str'' ∧ Holds str'' (s ++ src.take len) ∧
      str''.len + str''.free = str'.len + str'.free := by
  have htake : (src.take len).length = len := List.length_take_of_le hlen
  obtain ⟨rest, hbuf, hrest⟩ := hholds.buf
  have hbound := hholds.bound
  unfold hdrSize at hbound
  have hcur : str.len = s.length := h.len
  have hcur' : str'.len = s.length := hholds.len
  have hwrite := write_append s (t := src.take len) (u := 0 :: rest)
    (by rw [htake, List.length_cons]; omega)
  have hstore := store_append (s ++ src.take len) (u := (0 :: rest).drop len)
    (by rw [List.length_drop, List.length_cons]; omega) (0 : UInt8)
  rw [List.length_append, htake, List.tail_drop] at hstore
  rw [htake] at hwrite
  unfold yaslcatlen
  simp only [hok, ok_bind, read_zero hlen, hbuf, hcur, hwrite]
  rw [sizeT_of_lt (n := s.length + len) (by omega), hstore, ok_bind]
  rw [sizeSub_of_le hfree (by omega)]
  refine ⟨_, rfl, ?_, by show s.length + len + (str'.free - len) = str'.len + str'.free; omega⟩
  apply Holds.of_cells
  · rw [List.length_append, htake]
  · rw [List.length_drop, List.length_cons, hrest]
    omega
  · unfold hdrSize
    omega

theorem yaslcatlen_gives (m : Malloc) {src : Bytes} {len : ℕ} (h : Holds str s) (hfits : Fits len)
    (hlen : len ≤ src.length) : Gives (yaslcatlen m str src len) (s ++ src.take len) := by
  rcases yaslMakeRoomFor_cases m h hfits with hnull | ⟨str', hok, hholds, hfree⟩
  · left
    rw [yaslcatlen, hnull]
    rfl
  · obtain ⟨str'', hcat, hholds', -⟩ := yaslcatlen_of_room h hlen hok hholds hfree
    exact Or.inr ⟨str'', hcat, hholds'⟩

theorem cstr_cells {mem : Bytes} (h : 0 ∈ mem) : ∃ rest, mem = cstr mem ++ 0 :: rest := by
  obtain ⟨i, hi⟩ := Option.ne_none_iff_exists'.mp fun e => strchr_eq_none_iff.mp e h
  obtain ⟨pre, post, rfl, -, hpre⟩ := strchr_eq_some_iff.mp hi
  exact ⟨post, by rw [cstr_append_zero, cstr_eq_self hpre]⟩

/-- The last step of an edit that shortens a string. -/
theorem Holds.finish {t u : Bytes} (h : Holds str s) (ht : t.length ≤ s.length)
    (hcells : t.length + u.length = str.buf.length) :
    Leaves (do
      let buf ← store (t ++ u) t.length 0
      .ok ⟨t.length, sizeT (str.free + sizeSub str.len t.length), buf⟩) t := by
  have hlen := h.buf_length
  have hle : t.length ≤ str.len := h.len ▸ ht
  rw [store_append t (by omega), ok_bind]
  refine ⟨_, rfl, h.shrink ht ?_⟩
  rw [List.length_tail]
  omega

theorem Holds.move_cells (h : Holds str s) {i n : ℕ} (hin : i + n ≤ s.length) :
    ∃ u, move str.buf 0 i n = .ok ((s.drop i).take n ++ u) ∧
      ((s.drop i).take n).length + u.length = str.buf.length := by
  obtain ⟨rest, hbuf, hrest⟩ := h.buf
  have hi : (s.take i).length = i := List.length_take_of_le (by omega)
  have hn : n ≤ (s.drop i).length := by
    rw [List.length_drop]
    omega
  have hsplit : str.buf = s.take i ++ (s.drop i ++ 0 :: rest) := by
    rw [← List.append_assoc, List.take_append_drop, hbuf]
  have hmove := move_zero (s.take i) (u := s.drop i ++ 0 :: rest) (n := n) (by
    rw [List.length_append]
    omega)
  rw [hi, ← hsplit, List.take_append_of_le_length hn] at hmove
  refine ⟨_, hmove, ?_⟩
  have hlen := h.buf_length
  have hs := h.len
  rw [List.length_take_of_le hn, List.length_drop]
  omega

theorem Holds.take_cells (h : Holds str s) (n : ℕ) :
    ∃ u, str.buf = s.take n ++ u ∧ (s.take n).length + u.length = str.buf.length := by
  obtain ⟨rest, hbuf, -⟩ := h.buf
  refine ⟨s.drop n ++ 0 :: rest, ?_, ?_⟩
  · rw [← List.append_assoc, List.take_append_drop, hbuf]
  · rw [hbuf, ← List.length_append, ← List.append_assoc, List.take_append_drop]

/-- `n` bytes from offset `i` on come to the front. -/
theorem Holds.cut (h : Holds str s) {i n : ℕ} {p : Prop} [Decidable p]
    (hin : p ∨ n ≠ 0 → i + n ≤ s.length) (hp : ¬ p → i = 0 ∨ n = 0) :
    Leaves (do
      let buf ← (if p then move str.buf 0 i n else .ok str.buf)
      let buf ← store buf n 0
      .ok ⟨n, sizeT (str.free + sizeSub str.len n), buf⟩) ((s.drop i).take n) := by
  have hn : ((s.drop i).take n).length = n := by
    rw [List.length_take, List.length_drop]
    omega
  obtain ⟨u, hbuf, hcells⟩ : ∃ u, (if p then move str.buf 0 i n else .ok str.buf) =
      .ok ((s.drop i).take n ++ u) ∧ ((s.drop i).take n).length + u.length = str.buf.length := by
    by_cases hmove : p
    · rw [if_pos hmove]
      exact h.move_cells (hin (Or.inl hmove))
    · rw [if_neg hmove]
      rcases hp hmove with rfl | rfl
      · obtain ⟨u, hbuf, hcells⟩ := h.take_cells n
        exact ⟨u, by rw [List.drop_zero, hbuf], by rw [List.drop_zero, hcells]⟩
      · exact ⟨str.buf, by simp, by simp⟩
  have hfinish := h.finish (t := (s.drop i).take n) (u := u) (by omega) hcells
  rw [hn] at hfinish
  simpa only [hbuf, ok_bind] using hfinish

theorem yaslnew_gives (m : Malloc) {init : Bytes} {n : ℕ} (hlt : n < 2 ^ 63)
    (hn : n ≤ init.length) : Gives (yaslnew m (some init) n) (init.take n) := by
  have htake : (init.take n).length = n := List.length_take_of_le hn
  have hsize : sizeT (hdrSize + n + 1) = hdrSize + n + 1 := by
    unfold hdrSize
    rw [sizeT_of_lt (by omega)]
  have hhdr : hdrSize ≤ hdrSize + n + 1 := by omega
  unfold yaslnew
  simp only [hsize]
  rcases malloc_cases m hhdr with hnull | ⟨hlt, b, hok, hb⟩
  · rw [hnull]
    exact Or.inl rfl
  · have hstore := store_append (init.take n) (u := b.drop n)
      (by rw [List.length_drop]; omega) (0 : UInt8)
    rw [htake] at hstore
    rw [hok, ok_bind, read_zero hn, ok_bind, write_zero (by omega), htake, ok_bind, hstore]
    refine Or.inr ⟨_, rfl, Holds.of_cells htake.symm ?_ (by omega)⟩
    rw [List.length_tail, List.length_drop]
    omega

theorem yaslnew_zeroes (m : Malloc) {n : ℕ} (hlt : n < 2 ^ 63) :
    Gives (yaslnew m none n) (List.replicate n 0) := by
  have hsize : sizeT (hdrSize + n + 1) = hdrSize + n + 1 := by
    unfold hdrSize
    rw [sizeT_of_lt (by omega)]
  have hhdr : hdrSize ≤ hdrSize + n + 1 := by omega
  have hcells : hdrSize + n + 1 - hdrSize = n + 1 := by omega
  unfold yaslnew Malloc.calloc
  simp only [hsize, hhdr, ite_true, hcells]
  by_cases hm : m.succeeds (hdrSize + n + 1) = true
  · have hlt := m.limit _ hm
    have hstore := store_append (List.replicate n (0 : UInt8)) (u := [0]) (by simp) 0
    rw [List.length_replicate] at hstore
    rw [if_pos hm, ok_bind, List.replicate_succ', hstore]
    exact Or.inr ⟨_, rfl, Holds.of_cells (List.length_replicate).symm rfl (by omega)⟩
  · rw [if_neg hm]
    exact Or.inl rfl

theorem yasldup_gives (m : Malloc) (h : Holds str s) : Gives (yasldup m str) s := by
  have hbound := h.bound
  obtain ⟨rest, hbuf, -⟩ := h.buf
  have hle : str.len ≤ str.buf.length := by
    rw [h.buf_length]
    omega
  have hnew := yaslnew_gives m (show str.len < 2 ^ 63 by omega) hle
  have htake : str.buf.take str.len = s := by rw [hbuf, h.len, List.take_left]
  rwa [htake] at hnew

theorem yaslempty_gives (m : Malloc) : Gives (yaslempty m) [] :=
  yaslnew_gives m (by omega) (Nat.zero_le _)

/-- A new string has no free space. -/
theorem yaslnew_free {init : Option Bytes} {n : ℕ} (h : yaslnew m init n = .ok str) :
    str.free = 0 := by
  cases init with
  | none =>
    obtain ⟨_, -, h⟩ := bind_eq_ok_iff.mp h
    obtain ⟨_, -, h⟩ := bind_eq_ok_iff.mp h
    rw [← Except.ok.inj h]
  | some init =>
    obtain ⟨_, -, h⟩ := bind_eq_ok_iff.mp h
    obtain ⟨_, -, h⟩ := bind_eq_ok_iff.mp h
    obtain ⟨_, -, h⟩ := bind_eq_ok_iff.mp h
    obtain ⟨_, -, h⟩ := bind_eq_ok_iff.mp h
    rw [← Except.ok.inj h]

theorem yaslRemoveFreeSpace_leaves (m : Malloc) (h : Holds str s) :
    Leaves (yaslRemoveFreeSpace m str) s := by
  have hbound := h.bound
  obtain ⟨rest, hbuf, hrest⟩ := h.buf
  have hsize : sizeT (hdrSize + str.len + 1) = hdrSize + str.len + 1 := sizeT_of_lt (by omega)
  have hhdr : hdrSize ≤ hdrSize + str.len + 1 := by omega
  have hcells : hdrSize + str.len + 1 - hdrSize = (s ++ [0]).length := by
    rw [List.length_append, List.length_singleton, ← h.len]
    omega
  unfold yaslRemoveFreeSpace
  rw [hsize]
  rcases realloc_cases m str.buf hhdr with ⟨hnull, -⟩ | ⟨-, hok⟩
  · rw [hnull]
    exact ⟨str, rfl, h⟩
  · have hresize : resize str.buf (s ++ [0]).length m.junk = s ++ [0] := by
      have hle : (s ++ [0]).length - str.buf.length = 0 := by
        rw [h.buf_length, List.length_append, List.length_singleton, ← h.len]
        omega
      rw [resize, hle, hbuf, List.append_cons s 0 rest, List.take_left]
      simp
    rw [hok, hcells, hresize]
    exact ⟨_, rfl, Holds.of_cells h.len rfl (by omega)⟩

theorem yaslclear_leaves (h : Holds str s) : Leaves (yaslclear str) [] := by
  have hbound := h.bound
  have hfinish := h.finish (t := []) (u := str.buf) (Nat.zero_le _) (by simp)
  have hsub : sizeSub str.len 0 = str.len := sizeSub_of_le (Nat.zero_le _) (by omega)
  rw [List.length_nil, hsub] at hfinish
  exact hfinish

theorem yaslgrowzero_gives (m : Malloc) {len : ℕ} (h : Holds str s) (hfits : Fits len) :
    Gives (yaslgrowzero m str len) (s ++ List.replicate (len - s.length) 0) := by
  have hs := h.len
  unfold yaslgrowzero
  by_cases hle : len ≤ str.len
  · have hzero : len - s.length = 0 := by omega
    rw [if_pos hle, hzero, List.replicate_zero, List.append_nil]
    exact Or.inr ⟨str, rfl, h⟩
  · rw [if_neg hle]
    unfold Fits at hfits
    have hsub : sizeSub len str.len = len - str.len := sizeSub_of_le (by omega) (by omega)
    have hadd : sizeT (len - str.len + 1) = len - str.len + 1 := sizeT_of_lt (by omega)
    simp only [hsub, hadd]
    have hadd' : Fits (len - str.len) := by
      unfold Fits
      omega
    rcases yaslMakeRoomFor_cases m h hadd' with hnull | ⟨str', hok, hholds, hfree⟩
    · rw [hnull]
      exact Or.inl rfl
    · obtain ⟨rest, hbuf, hrest⟩ := hholds.buf
      have hbound := hholds.bound
      have hs' := hholds.len
      have hwrite := write_append s (t := List.replicate (len - str.len + 1) (0 : UInt8))
        (u := 0 :: rest) (by rw [List.length_replicate, List.length_cons]; omega)
      rw [List.length_replicate, List.drop_succ_cons, ← hs, ← hbuf] at hwrite
      have hcells : s ++ List.replicate (len - str.len + 1) 0 ++ rest.drop (len - str.len) =
          s ++ List.replicate (len - str.len) 0 ++ 0 :: rest.drop (len - str.len) := by
        rw [List.replicate_succ', List.append_assoc, List.append_assoc, List.append_assoc,
          List.singleton_append]
      simp only [hok, ok_bind, fill, hwrite, hcells]
      rw [sizeT_of_lt (n := str'.len + str'.free) (by omega),
        sizeSub_of_le (b := len) (by omega) (by omega), ← hs]
      refine Or.inr ⟨_, rfl, Holds.of_cells ?_ ?_ (by omega)⟩
      · rw [List.length_append, List.length_replicate]
        omega
      · rw [List.length_drop]
        omega

theorem yaslcpylen_gives (m : Malloc) {src : Bytes} {len : ℕ} (h : Holds str s) (hfits : Fits len)
    (hlen : len ≤ src.length) : Gives (yaslcpylen m str src len) (src.take len) := by
  have htake : (src.take len).length = len := List.length_take_of_le hlen
  have hbound := h.bound
  unfold Fits at hfits
  unfold yaslcpylen
  rw [sizeT_of_lt (n := str.free + str.len) (by omega)]
  obtain hnull | ⟨str', hok, hholds, hroom⟩ :
      (if str.free + str.len < len then yaslMakeRoomFor m str (sizeSub len str.len)
        else .ok str) = .error .null ∨
      ∃ str', (if str.free + str.len < len then yaslMakeRoomFor m str (sizeSub len str.len)
        else .ok str) = .ok str' ∧ Holds str' s ∧ len ≤ str'.free + str'.len := by
    by_cases hless : str.free + str.len < len
    · rw [if_pos hless, sizeSub_of_le (by omega) (by omega)]
      have hadd : Fits (len - str.len) := by
        unfold Fits
        omega
      rcases yaslMakeRoomFor_cases m h hadd with hnull | ⟨str', hok, hholds, hfree⟩
      · exact Or.inl hnull
      · have hs := h.len
        have hs' := hholds.len
        exact Or.inr ⟨str', hok, hholds, by omega⟩
    · rw [if_neg hless]
      exact Or.inr ⟨str, rfl, h, by omega⟩
  · rw [hnull]
    exact Or.inl rfl
  · have hbound' := hholds.bound
    have hcells := hholds.buf_length
    have hstore := store_append (src.take len) (u := str'.buf.drop len)
      (by rw [List.length_drop]; omega) (0 : UInt8)
    rw [htake, List.tail_drop] at hstore
    have hwrite := write_zero (t := src.take len) (u := str'.buf) (by omega)
    rw [htake] at hwrite
    simp only [hok, ok_bind, read_zero hlen, hwrite, hstore]
    rw [sizeT_of_lt (n := str'.free + str'.len) (by omega), sizeSub_of_le hroom (by omega)]
    refine Or.inr ⟨_, rfl, Holds.of_cells htake.symm ?_ (by omega)⟩
    rw [List.length_drop]
    omega

theorem strlen_cells {mem : Bytes} (h : 0 ∈ mem) : strlen mem = .ok (cstr mem).length := by
  obtain ⟨rest, hmem⟩ := cstr_cells h
  have hlen := strlen_append (nul_notMem_cstr mem) rest
  rwa [← hmem] at hlen

theorem take_cstr_length (mem : Bytes) : mem.take (cstr mem).length = cstr mem :=
  (List.prefix_iff_eq_take.mp (prefix_of_cstr mem)).symm

theorem yaslcpy_gives (m : Malloc) {src : Bytes} (h : Holds str s) (hfits : Fits src.length)
    (hnul : 0 ∈ src) : Gives (yaslcpy m str src) (cstr src) := by
  have hle : (cstr src).length ≤ src.length := (prefix_of_cstr src).length_le
  have hfits' : Fits (cstr src).length := by
    unfold Fits at *
    omega
  have hcpy := yaslcpylen_gives m h hfits' hle
  rw [take_cstr_length] at hcpy
  rwa [yaslcpy, strlen_cells hnul, ok_bind]

theorem yaslcat_gives (m : Malloc) {src : Bytes} (h : Holds str s) (hfits : Fits src.length)
    (hnul : 0 ∈ src) : Gives (yaslcat m str src) (Yasl.yaslcat s src) := by
  have hle : (cstr src).length ≤ src.length := (prefix_of_cstr src).length_le
  have hfits' : Fits (cstr src).length := by
    unfold Fits at *
    omega
  have hcat := yaslcatlen_gives m h hfits' hle
  rw [take_cstr_length] at hcat
  rwa [yaslcat, strlen_cells hnul, ok_bind]

theorem yaslcatyasl_gives (m : Malloc) {src : Yastrhdr} {t : Bytes} (h : Holds str s)
    (ht : Holds src t) (hfits : Fits src.len) : Gives (yaslcatyasl m str src) (s ++ t) := by
  obtain ⟨rest, hbuf, -⟩ := ht.buf
  have hle : src.len ≤ src.buf.length := by
    rw [ht.buf_length]
    omega
  have hcat := yaslcatlen_gives m h hfits hle
  have htake : src.buf.take src.len = t := by rw [hbuf, ht.len, List.take_left]
  rwa [htake] at hcat

theorem Holds.replace {f : UInt8 → Checked UInt8} {g : UInt8 → UInt8} (h : Holds str s)
    (hf : ∀ c, f c = .ok (g c)) : Leaves (do
      let buf ← replace f str.len 0 str.buf
      .ok { str with buf := buf }) (s.map g) := by
  obtain ⟨rest, hbuf, hrest⟩ := h.buf
  have hbound := h.bound
  have hmap := replace_append hf [] s (0 :: rest)
  rw [List.length_nil, List.nil_append, List.nil_append, ← hbuf, ← h.len] at hmap
  rw [hmap, ok_bind]
  refine ⟨_, rfl, Holds.of_cells ?_ hrest (by omega)⟩
  rw [List.length_map, h.len]

theorem yasltolower_leaves (h : Holds str s) : Leaves (yasltolower str) (Yasl.yasltolower s) :=
  h.replace fun _ => rfl

theorem yasltoupper_leaves (h : Holds str s) : Leaves (yasltoupper str) (s.map toupper) :=
  h.replace fun _ => rfl

theorem mapcharFrom_eq {source target : Bytes} {n i : ℕ} (hs : i + n ≤ source.length)
    (ht : i + n ≤ target.length) (c : UInt8) : mapcharFrom source target c n i =
      .ok (mapchar ((source.drop i).take n) ((target.drop i).take n) c) := by
  induction n generalizing i with
  | zero => simp [mapcharFrom, mapchar]
  | succ n ih =>
    have hi : i < source.length := by omega
    have hi' : i < target.length := by omega
    rw [mapcharFrom, load_of_lt hi, load_of_lt hi', ok_bind, List.drop_eq_getElem_cons hi,
      List.drop_eq_getElem_cons hi', List.take_succ_cons, List.take_succ_cons, mapchar]
    by_cases hc : c = source[i]
    · rw [if_pos hc, if_pos hc]
    · rw [if_neg hc, if_neg hc, ih (by omega) (by omega)]

theorem yaslmapchars_leaves {source target : Bytes} {setlen : ℕ} (h : Holds str s)
    (hsource : setlen ≤ source.length) (htarget : setlen ≤ target.length) :
    Leaves (yaslmapchars str source target setlen)
      (Yasl.yaslmapchars s source target setlen) := by
  apply h.replace
  intro c
  rw [mapcharFrom_eq (by omega) (by omega), List.drop_zero, List.drop_zero]

theorem yaslupdatelen_leaves (h : Holds str s) : Leaves (yaslupdatelen str) (cstr s) := by
  obtain ⟨rest, hbuf, -⟩ := h.buf
  have hmem : 0 ∈ str.buf := by
    rw [hbuf]
    exact List.mem_append_right s List.mem_cons_self
  have hcstr : cstr str.buf = cstr s := by rw [hbuf, cstr_append_zero]
  obtain ⟨rest', hbuf'⟩ := cstr_cells hmem
  rw [hcstr] at hbuf'
  rw [yaslupdatelen, strlen_cells hmem, ok_bind, hcstr, hbuf']
  refine ⟨_, rfl, h.shrink (prefix_of_cstr s).length_le ?_⟩
  have hlen := h.buf_length
  rw [hbuf', List.length_append, List.length_cons] at hlen
  omega

/-- `stop` is a `ptrdiff_t`, so that its distance from an offset is a `size_t`. -/
theorem yaslrange_leaves {start stop : ℤ} (h : Holds str s) (hstop : stop < 2 ^ 63 - 1) :
    Leaves (yaslrange str start stop) (Yasl.yaslrange s start stop) := by
  have hs := h.len
  have hbound := h.bound
  unfold yaslrange Yasl.yaslrange
  rw [← hs]
  by_cases hnil : s = []
  · subst hnil
    have hzero : str.len = 0 := hs
    simp only [hzero, ite_true]
    exact ⟨str, rfl, h⟩
  · have hpos : 0 < s.length := List.length_pos_iff.mpr hnil
    have hne : ¬ str.len = 0 := by omega
    simp only [hnil, hne, ite_false]
    generalize hi : (if start < 0 then max ((str.len : ℤ) + start) 0 else start) = i
    generalize hj : (if stop < 0 then max ((str.len : ℤ) + stop) 0 else stop) = j
    have hi0 : 0 ≤ i := by
      rw [← hi]
      split <;> omega
    have hj0 : j < 2 ^ 63 := by
      rw [← hj]
      split <;> omega
    generalize hnew : (if i > j then 0 else sizeT (j - i + 1).toNat) = newlen
    generalize hn : (if newlen = 0 then 0 else if i ≥ str.len then 0 else if j ≥ str.len then
      (if i > (str.len : ℤ) - 1 then 0 else sizeT ((str.len : ℤ) - 1 - i + 1).toNat)
      else newlen) = n
    generalize hk : (if newlen = 0 then 0 else i.toNat) = k
    have hcut := h.cut (i := k) (n := n) (p := k ≠ 0 ∧ n ≠ 0)
    by_cases hgt : i > j
    · simp only [hgt, ite_true] at hnew ⊢
      rw [← hnew, if_pos rfl] at hn hk
      have htext : (s.drop k).take n = [] := by rw [← hn, List.take_zero]
      rw [← htext]
      exact hcut (by omega) (by omega)
    · have hsize : sizeT (j - i + 1).toNat = (j - i + 1).toNat := sizeT_of_lt (by omega)
      rw [if_neg hgt, hsize] at hnew
      have hnew0 : ¬ newlen = 0 := by omega
      rw [if_neg hnew0] at hn hk
      simp only [hgt, ite_false]
      by_cases hige : i ≥ str.len
      · simp only [hige, ite_true] at hn ⊢
        have htext : (s.drop k).take n = [] := by rw [← hn, List.take_zero]
        rw [← htext]
        exact hcut (by omega) (by omega)
      · have hlast : ¬ i > (str.len : ℤ) - 1 := by omega
        have hrest : sizeT ((str.len : ℤ) - 1 - i + 1).toNat = str.len - i.toNat := by
          rw [sizeT_of_lt (by omega)]
          omega
        simp only [hige, ite_false, hlast, hrest] at hn ⊢
        by_cases hjge : j ≥ str.len
        · simp only [hjge, ite_true, hlast, ite_false] at hn ⊢
          have htake : ((str.len : ℤ) - 1 - i + 1).toNat = n := by omega
          rw [htake, hk]
          exact hcut (by omega) (by omega)
        · simp only [hjge, ite_false, hgt] at hn ⊢
          have htake : (j - i + 1).toNat = n := by omega
          rw [htake, hk]
          exact hcut (by omega) (by omega)

theorem skipFront_eq {buf pre t tail : Bytes} (cset : Bytes) (hbuf : buf = pre ++ t ++ tail) :
    skipFront buf cset t.length pre.length =
      .ok (pre.length + (t.takeWhile (inSet cset)).length) := by
  induction t generalizing pre with
  | nil => simp [skipFront]
  | cons c t ih =>
    have hload := load_append pre (t ++ tail) c
    rw [List.length_cons, skipFront, hbuf, List.append_assoc, List.cons_append, hload, ok_bind]
    by_cases hc : inSet cset c = true
    · have hcells : buf = pre ++ [c] ++ t ++ tail := by simp [hbuf]
      have hrest := ih hcells
      rw [List.length_append, List.length_singleton, hbuf, List.append_assoc,
        List.cons_append] at hrest
      rw [if_pos hc, hrest, List.takeWhile_cons_of_pos hc, List.length_cons]
      congr 1
      omega
    · rw [if_neg hc, List.takeWhile_cons_of_neg hc]
      rfl

theorem skipBack_eq {buf t tail : Bytes} (cset : Bytes) (hbuf : buf = t ++ tail) (ht : t ≠ []) :
    skipBack buf cset t.length = .ok (max 1 (t.rdropWhile (inSet cset)).length) := by
  induction t using List.reverseRecOn generalizing tail with
  | nil => exact absurd rfl ht
  | append_singleton t c ih =>
    rw [List.length_append, List.length_singleton]
    cases hlen : t.length with
    | zero =>
      obtain rfl := List.length_eq_zero_iff.mp hlen
      have hle := (List.rdropWhile_prefix (inSet cset) [c]).length_le
      rw [List.length_singleton] at hle
      rw [skipBack, List.nil_append, max_eq_left hle]
    | succ n =>
      have hne : t ≠ [] := by
        rintro rfl
        contradiction
      have hcells : buf = t ++ c :: tail := by rw [hbuf, List.append_assoc, List.singleton_append]
      have hload : load buf (n + 1) = .ok c := by rw [hcells, ← hlen, load_append]
      rw [skipBack, hload, ok_bind]
      by_cases hc : inSet cset c = true
      · rw [if_pos hc, List.rdropWhile_concat_pos _ _ _ hc, ← hlen]
        exact ih hcells hne
      · rw [if_neg hc, List.rdropWhile_concat_neg _ _ _ hc, List.length_append,
          List.length_singleton, hlen, max_eq_right (by omega)]

theorem rdropWhile_append {p : UInt8 → Bool} {w d : Bytes} (h : d.rdropWhile p ≠ []) :
    (w ++ d).rdropWhile p = w ++ d.rdropWhile p := by
  induction d using List.reverseRecOn with
  | nil => exact absurd (List.rdropWhile_nil p) h
  | append_singleton d c ih =>
    rw [← List.append_assoc]
    by_cases hc : p c = true
    · rw [List.rdropWhile_concat_pos _ _ _ hc] at h ⊢
      rw [List.rdropWhile_concat_pos _ _ _ hc, ih h]
    · rw [List.rdropWhile_concat_neg _ _ _ hc, List.rdropWhile_concat_neg _ _ _ hc,
        List.append_assoc]

/-- The loops stop as far from each other as the trimmed string is long. -/
theorem skipBack_sub {buf t tail : Bytes} (cset : Bytes) (hbuf : buf = t ++ tail) :
    ∃ e, skipBack buf cset t.length = .ok e ∧ e ≤ t.length ∧
      e - (t.takeWhile (inSet cset)).length =
        ((t.dropWhile (inSet cset)).rdropWhile (inSet cset)).length := by
  have happ := List.takeWhile_append_dropWhile (p := inSet cset) (l := t)
  by_cases ht : t = []
  · subst ht
    exact ⟨0, rfl, le_rfl, rfl⟩
  · have hpos : 0 < t.length := List.length_pos_iff.mpr ht
    have hle : (t.rdropWhile (inSet cset)).length ≤ t.length :=
      (List.rdropWhile_prefix (inSet cset) t).length_le
    refine ⟨_, skipBack_eq cset hbuf ht, max_le hpos hle, ?_⟩
    by_cases hd : t.dropWhile (inSet cset) = []
    · have hall : ∀ c ∈ t, inSet cset c = true := List.dropWhile_eq_nil_iff.mp hd
      have hw : t.takeWhile (inSet cset) = t := by rwa [hd, List.append_nil] at happ
      have hr : t.rdropWhile (inSet cset) = [] := List.rdropWhile_eq_nil_iff.mpr hall
      rw [hd, hw, hr, List.rdropWhile_nil, List.length_nil]
      omega
    · have hr : (t.dropWhile (inSet cset)).rdropWhile (inSet cset) ≠ [] := by
        intro hnil
        have hhead := List.head_dropWhile_not (inSet cset) hd
        rw [List.rdropWhile_eq_nil_iff.mp hnil _ (List.head_mem hd)] at hhead
        contradiction
      have hsplit := rdropWhile_append (w := t.takeWhile (inSet cset)) hr
      rw [happ] at hsplit
      have hpos' : 0 < ((t.dropWhile (inSet cset)).rdropWhile (inSet cset)).length :=
        List.length_pos_iff.mpr hr
      rw [hsplit, List.length_append]
      omega

theorem yasltrim_leaves (cset : Bytes) (h : Holds str s) :
    Leaves (yasltrim str cset) (Yasl.yasltrim s cset) := by
  have hs := h.len
  obtain ⟨rest, hbuf, -⟩ := h.buf
  have hcells : str.buf = [] ++ s ++ 0 :: rest := hbuf
  have hfront := skipFront_eq cset hcells
  obtain ⟨e, hback, hle, hsub⟩ := skipBack_sub cset hbuf
  rw [List.length_nil, Nat.zero_add, ← hs] at hfront
  rw [← hs] at hback
  have hdrop : s.drop (s.takeWhile (inSet cset)).length = s.dropWhile (inSet cset) := by
    have happ := List.takeWhile_append_dropWhile (p := inSet cset) (l := s)
    calc s.drop (s.takeWhile (inSet cset)).length
      _ = (s.takeWhile (inSet cset) ++ s.dropWhile (inSet cset)).drop
          (s.takeWhile (inSet cset)).length := by rw [happ]
      _ = s.dropWhile (inSet cset) := List.drop_left
  have htext : (s.drop (s.takeWhile (inSet cset)).length).take
      (e - (s.takeWhile (inSet cset)).length) = Yasl.yasltrim s cset := by
    rw [hdrop, hsub]
    exact (List.prefix_iff_eq_take.mp (List.rdropWhile_prefix _ _)).symm
  have hsp : (s.takeWhile (inSet cset)).length ≤ s.length := (List.takeWhile_prefix _).length_le
  unfold yasltrim
  rw [hfront, ok_bind, hback, ok_bind, ← htext]
  exact h.cut (by omega) (by omega)

theorem cstr_take {out : Bytes} {n : ℕ} (h : out[n]? = some 0) :
    cstr (out.take (n + 1)) = cstr out := by
  obtain ⟨hn, h0⟩ := List.getElem?_eq_some_iff.mp h
  have hsplit : out = out.take n ++ 0 :: out.drop (n + 1) := by
    rw [← h0, ← List.drop_eq_getElem_cons hn, List.take_append_drop]
  have htake : out.take (n + 1) = out.take n ++ [0] := by
    rw [← h0, List.take_append_getElem hn]
  rw [htake, cstr_append_zero]
  nth_rewrite 2 [hsplit]
  rw [cstr_append_zero]

/-- The byte before the last one tells whether the output fitted. -/
theorem vsnprintf_cells {b : Bytes} {n : ℕ} (out : Bytes) (hb : b.length = n + 2)
    (hzero : b[n]? = some 0) :
    ∃ b', vsnprintf b (n + 2) out = .ok b' ∧ b'.length = n + 2 ∧ 0 ∈ b' ∧
      (b'[n]? = some 0 → cstr b' = cstr out) ∧ (out.length ≤ n → b'[n]? = some 0) := by
  have hlen : (out.take (n + 1)).length = min (n + 1) out.length := List.length_take
  have hwrite := write_zero (t := out.take (n + 1) ++ [0]) (u := b)
    (by rw [List.length_append, List.length_singleton]; omega)
  refine ⟨_, hwrite, ?_, by simp, ?_, ?_⟩
  · simp only [List.length_append, List.length_singleton, List.length_drop]
    omega
  · intro h0
    rw [List.append_assoc, List.singleton_append, cstr_append_zero]
    by_cases hfit : out.length ≤ n
    · rw [List.take_of_length_le (by omega)]
    · apply cstr_take
      rw [List.append_assoc, List.getElem?_append_left (by omega),
        List.getElem?_take_of_lt (Nat.lt_succ_self n)] at h0
      exact h0
  · intro hfit
    have htake : out.take (n + 1) = out := List.take_of_length_le (by omega)
    rw [htake, List.length_append, List.length_singleton]
    by_cases heq : n = out.length
    · rw [List.append_assoc, List.getElem?_append_right (by omega), heq, Nat.sub_self]
      rfl
    · rw [List.getElem?_append_right (by rw [List.length_append, List.length_singleton]; omega),
        List.getElem?_drop, List.length_append, List.length_singleton,
        Nat.add_sub_cancel' (by omega), hzero]

/-- The loop ends with the output, or with an allocation that is not much larger
than the output. -/
theorem printLoop_cases (m : Malloc) (out : Bytes) {fuel : ℕ} (hpos : 0 < fuel)
    (hfuel : fuel ≤ 60) :
    (printLoop m out fuel (2 ^ (64 - fuel)) = .error .null ∧
      ∃ k ≤ max (2 ^ (64 - fuel)) (2 * out.length + 2), m.succeeds k = false) ∨
    ∃ buf, printLoop m out fuel (2 ^ (64 - fuel)) = .ok buf ∧ Fits buf.length ∧ 0 ∈ buf ∧
      cstr buf = cstr out := by
  induction fuel with
  | zero => exact absurd hpos (lt_irrefl 0)
  | succ fuel ih =>
    have htwo : 2 ^ 1 ≤ 2 ^ (64 - (fuel + 1)) := Nat.pow_le_pow_right (by omega) (by omega)
    obtain ⟨n, hn⟩ : ∃ n, 2 ^ (64 - (fuel + 1)) = n + 2 := ⟨2 ^ (64 - (fuel + 1)) - 2, by omega⟩
    unfold printLoop
    rw [hn]
    by_cases hm : m.succeeds (n + 2) = true
    · have hlt : 2 ^ (64 - (fuel + 1)) < 2 ^ 63 := by
        rw [hn]
        exact m.limit _ hm
      have hexp : 64 - (fuel + 1) < 63 := (Nat.pow_lt_pow_iff_right (by omega)).mp hlt
      have hpow : 2 ^ (64 - (fuel + 1)) ≤ 2 ^ 62 := Nat.pow_le_pow_right (by omega) (by omega)
      have hfits : Fits (n + 2) := by
        unfold Fits
        omega
      have hdouble : 2 ^ (64 - fuel) = (n + 2) * 2 := by
        have hexp' : 64 - fuel = 64 - (fuel + 1) + 1 := by omega
        rw [hexp', Nat.pow_succ, hn]
      have hnext : sizeT ((n + 2) * 2) = 2 ^ (64 - fuel) := by
        rw [hdouble, sizeT_of_lt (by omega)]
      have hroom : n < ((List.range (n + 2)).map m.junk).length := by simp
      have hstore : store ((List.range (n + 2)).map m.junk) n 0 =
          .ok (((List.range (n + 2)).map m.junk).set n 0) := if_pos hroom
      have hzero : (((List.range (n + 2)).map m.junk).set n 0)[n]? = some 0 :=
        List.getElem?_set_self hroom
      obtain ⟨b, hprint, hlen, hnul, hcstr, hfit⟩ := vsnprintf_cells
        (b := ((List.range (n + 2)).map m.junk).set n 0) (n := n) out (by simp) hzero
      have hin : n < b.length := by omega
      rw [if_pos hm, Nat.add_sub_cancel, hstore, ok_bind, hprint, ok_bind, load_of_lt hin, ok_bind]
      by_cases hc : b[n] = 0
      · rw [if_neg (by simp [hc])]
        refine Or.inr ⟨b, rfl, hlen ▸ hfits, hnul, hcstr ?_⟩
        rw [List.getElem?_eq_getElem hin, hc]
      · have hlong : n < out.length := by
          by_contra hshort
          have h0 := hfit (by omega)
          rw [List.getElem?_eq_getElem hin, Option.some.injEq] at h0
          exact hc h0
        rw [if_pos hc, hnext]
        rcases ih (by omega) (by omega) with ⟨hnull, k, hk, hfail⟩ | hok
        · rw [hdouble] at hk
          exact Or.inl ⟨hnull, k, by omega, hfail⟩
        · exact Or.inr hok
    · rw [if_neg hm]
      exact Or.inl ⟨rfl, n + 2, le_max_left _ _, by simpa using hm⟩

/-- The whole output is appended, however long it is. -/
theorem yaslcatvprintf_gives (m m' : Malloc) (h : Holds str s) (out : Bytes) :
    Gives (yaslcatvprintf m m' str out) (s ++ cstr out) := by
  unfold yaslcatvprintf
  have hloop := printLoop_cases m out (show 0 < 60 by omega) le_rfl
  rw [show 2 ^ (64 - 60) = 16 from rfl] at hloop
  rcases hloop with ⟨hnull, -⟩ | ⟨b, hok, hfits, hnul, hcstr⟩
  · rw [hnull]
    exact Or.inl rfl
  · have hcat := yaslcat_gives m' h hfits hnul
    rw [hok, ok_bind, ← hcstr]
    exact hcat

theorem yaslAllocSize_eq (h : Holds str s) : yaslAllocSize str = hdrSize + str.buf.length := by
  have hbound := h.bound
  rw [yaslAllocSize, h.buf_length, sizeT_of_lt (by omega)]
  omega

/-- Bytes that a caller stored behind the string become part of it. -/
theorem yaslIncrLen_leaves {t buf : Bytes} (h : Holds str s) (ht : t.length ≤ str.free)
    (hwrite : write str.buf str.len t = .ok buf) :
    Leaves (yaslIncrLen { str with buf := buf } t.length) (s ++ t) := by
  have hbound := h.bound
  obtain ⟨rest, hbuf, hrest⟩ := h.buf
  have hstored := write_append s (t := t) (u := 0 :: rest) (by rw [List.length_cons]; omega)
  rw [← h.len, ← hbuf, hwrite] at hstored
  obtain rfl := Except.ok.inj hstored
  have hstore := store_append (s ++ t) (u := (0 :: rest).drop t.length)
    (by rw [List.length_drop, List.length_cons]; omega) (0 : UInt8)
  rw [List.length_append, List.tail_drop, ← h.len] at hstore
  have hnot : ¬ str.free < t.length := by omega
  simp only [yaslIncrLen, hnot, ite_false]
  rw [sizeT_of_lt (n := str.len + t.length) (by omega), hstore, ok_bind,
    sizeSub_of_le ht (by omega)]
  refine ⟨_, rfl, Holds.of_cells ?_ ?_ (by omega)⟩
  · rw [List.length_append, h.len]
  · rw [List.length_drop, List.length_cons, hrest]
    omega

end

end Simvacation.YaslHeap
