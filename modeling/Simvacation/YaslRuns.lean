import Simvacation.YaslRepr
import Simvacation.YaslSplit

/-!
Runs of edits on a heap string. `yaslstrip` is looked at first: it reads on
behind the NUL, so that it leaves the block exactly when a nonempty string has
no free space. Then the edits are put together: over any run, a string keeps
its invariant and the contents of the same edits on byte strings, until an
allocation fails or `yaslstrip` leaves the block.
-/

namespace Simvacation.YaslHeap

open CString Block Yasl

variable {m : Malloc} {str : Yastrhdr} {s : Bytes}

/-- The bytes that `yaslstrip` keeps. -/
def strip (cset s : Bytes) : Bytes := s.filter fun c => !inSet cset c

theorem stripSkip_eq (cset : Bytes) {buf w t rest : Bytes} (hbuf : buf = w ++ t ++ 0 :: rest) :
    stripSkip buf cset (w.length + t.length) (t.length + 2) w.length =
      if t.all (inSet cset) = true then
        if rest = [] then .error .fault else .ok (w.length + t.length + 1)
      else .ok (w.length + (t.takeWhile (inSet cset)).length) := by
  induction t generalizing w with
  | nil =>
    have hnul : load buf w.length = .ok 0 := by rw [hbuf, List.append_nil, load_append]
    have hcond : inSet cset 0 = true ∧ w.length ≤ w.length := ⟨rfl, le_rfl⟩
    rw [List.length_nil, stripSkip, hnul, ok_bind, Nat.add_zero, if_pos hcond, stripSkip]
    cases rest with
    | nil =>
      have hend : load buf (w.length + 1) = .error .fault := load_of_le (by simp [hbuf])
      rw [hend]
      simp
    | cons d rest =>
      have hcells : buf = (w ++ [0]) ++ d :: rest := by simp [hbuf]
      have hnext : load buf (w.length + 1) = .ok d := by
        have hload := load_append (w ++ [0]) rest d
        rwa [List.length_append, List.length_singleton, ← hcells] at hload
      have hout : ¬ (inSet cset d = true ∧ w.length + 1 ≤ w.length) := fun e => by omega
      rw [hnext, ok_bind, if_neg hout]
      simp
  | cons c t ih =>
    have hload : load buf w.length = .ok c := by
      rw [hbuf, List.append_assoc, List.cons_append, load_append]
    have hlen : w.length + (c :: t).length = (w ++ [c]).length + t.length := by
      rw [List.length_cons, List.length_append, List.length_singleton]
      omega
    have hcells : buf = w ++ [c] ++ t ++ 0 :: rest := by simp [hbuf]
    have hrest := ih hcells
    rw [List.length_cons, stripSkip, hload, ok_bind]
    rw [List.length_cons] at hlen
    rw [hlen]
    by_cases hc : inSet cset c = true
    · have hcond : inSet cset c = true ∧ w.length ≤ (w ++ [c]).length + t.length :=
        ⟨hc, by rw [← hlen]; omega⟩
      rw [List.length_append, List.length_singleton] at hrest ⊢
      rw [List.length_append, List.length_singleton] at hcond
      rw [if_pos hcond, hrest, List.takeWhile_cons_of_pos hc, List.length_cons]
      have hall : (c :: t).all (inSet cset) = t.all (inSet cset) := by
        rw [List.all_cons, hc, Bool.true_and]
      simp only [hall]
      split
      · rfl
      · congr 1
        omega
    · have hcond : ¬ (inSet cset c = true ∧ w.length ≤ (w ++ [c]).length + t.length) :=
        fun e => hc e.1
      have hall : ¬ (c :: t).all (inSet cset) = true := fun e =>
        hc (List.all_eq_true.mp e c List.mem_cons_self)
      rw [if_neg hcond, if_neg hall, List.takeWhile_cons_of_neg hc]
      rfl

theorem take_set_succ {l : Bytes} {n : ℕ} (h : n < l.length) (c : UInt8) :
    (l.set n c).take (n + 1) = l.take n ++ [c] := by
  have hset : n < (l.set n c).length := by rwa [List.length_set]
  rw [← List.take_append_getElem hset, List.getElem_set_self, List.take_set_of_le le_rfl]

theorem strip_append_cons {cset a t : Bytes} {c : UInt8} (ha : ∀ d ∈ a, inSet cset d = true)
    (hc : ¬ inSet cset c = true) : strip cset (a ++ c :: t) = c :: strip cset t := by
  have hnil : a.filter (fun d => !inSet cset d) = [] := by
    apply List.filter_eq_nil_iff.mpr
    intro d hd
    simp [ha d hd]
  rw [strip, List.filter_append, hnil, List.nil_append, List.filter_cons_of_pos (by simpa using hc)]
  rfl

/-- The loop reads behind the NUL of the string, and it fails if nothing is there. -/
theorem stripLoop_eq (cset : Bytes) {buf w t rest : Bytes} {newlen fuel : ℕ}
    (hbuf : buf = w ++ t ++ 0 :: rest) (hnew : newlen ≤ w.length) (hfuel : t.length + 2 ≤ fuel) :
    (rest = [] →
      stripLoop cset (w.length + t.length) fuel buf w.length newlen = .error .fault) ∧
    (rest ≠ [] → ∃ u, stripLoop cset (w.length + t.length) fuel buf w.length newlen =
        .ok (w.take newlen ++ strip cset t ++ u, newlen + (strip cset t).length) ∧
      newlen + (strip cset t).length + u.length = buf.length) := by
  induction hn : t.length using Nat.strong_induction_on generalizing w t buf newlen fuel with
  | h n ih =>
    subst hn
    obtain ⟨f, rfl⟩ : ∃ f, fuel = f + 1 := ⟨fuel - 1, by omega⟩
    have hskip := stripSkip_eq cset hbuf
    have hroom : w.length + t.length + 2 - w.length = t.length + 2 := by omega
    unfold stripLoop
    rw [if_pos (Nat.le_add_right _ _), hroom, hskip]
    by_cases hall : t.all (inSet cset) = true
    · have hstrip : strip cset t = [] := by
        apply List.filter_eq_nil_iff.mpr
        intro c hc
        simp [List.all_eq_true.mp hall c hc]
      rw [if_pos hall]
      constructor
      · intro hrest
        rw [if_pos hrest]
        rfl
      · intro hrest
        obtain ⟨f, rfl⟩ : ∃ f', f = f' + 1 := ⟨f - 1, by omega⟩
        have hend : ¬ w.length + t.length + 1 ≤ w.length + t.length := by omega
        rw [if_neg hrest, ok_bind, if_neg hend, stripLoop, if_neg hend, hstrip]
        refine ⟨buf.drop newlen, ?_, ?_⟩
        · have htake : w.take newlen = buf.take newlen := by
            rw [hbuf, List.append_assoc, List.take_append_of_le_length hnew]
          rw [List.append_nil, htake, List.take_append_drop]
          rfl
        · have hlen : newlen ≤ buf.length := by
            simp only [hbuf, List.length_append]
            omega
          simp only [List.length_nil, List.length_drop]
          omega
    · obtain ⟨a, c, t', ht, ha, hc⟩ : ∃ a c t', t = a ++ c :: t' ∧
          a = t.takeWhile (inSet cset) ∧ ¬ inSet cset c = true := by
        cases hdrop : t.dropWhile (inSet cset) with
        | nil => exact absurd (List.all_eq_true.mpr (List.dropWhile_eq_nil_iff.mp hdrop)) hall
        | cons c t' =>
          have hhead := List.head_dropWhile_not (inSet cset) (hdrop ▸ List.cons_ne_nil c t')
          simp only [hdrop, List.head_cons] at hhead
          have happ := List.takeWhile_append_dropWhile (p := inSet cset) (l := t)
          rw [hdrop] at happ
          exact ⟨_, c, t', happ.symm, rfl, by simp [hhead]⟩
      have hset : ∀ d ∈ a, inSet cset d = true := fun d hd => by
        rw [ha] at hd
        exact List.mem_takeWhile_imp hd
      have hin : w.length + a.length ≤ w.length + t.length := by
        simp only [ht, List.length_append]
        omega
      have hcells : buf = (w ++ a) ++ c :: (t' ++ 0 :: rest) := by simp [hbuf, ht]
      have hload : load buf (w.length + a.length) = .ok c := by
        rw [hcells, ← List.length_append, load_append]
      have hnew' : newlen < (w ++ a ++ [c]).length := by
        simp only [List.length_append, List.length_singleton]
        omega
      have hstore : store buf newlen c =
          .ok ((w ++ a ++ [c]).set newlen c ++ t' ++ 0 :: rest) := by
        have hsplit : buf = (w ++ a ++ [c]) ++ (t' ++ 0 :: rest) := by simp [hcells]
        have hroom' : newlen < (w ++ a ++ [c] ++ (t' ++ 0 :: rest)).length := by
          rw [List.length_append]
          omega
        rw [store, hsplit, if_pos hroom', List.set_append_left _ _ hnew',
          List.append_assoc _ t' (0 :: rest)]
      have hlen : ((w ++ a ++ [c]).set newlen c).length = w.length + a.length + 1 := by
        rw [List.length_set, List.length_append, List.length_append, List.length_singleton]
      have htotal : w.length + t.length = ((w ++ a ++ [c]).set newlen c).length + t'.length := by
        simp only [hlen, ht, List.length_append, List.length_cons]
        omega
      have htake : ((w ++ a ++ [c]).set newlen c).take (newlen + 1) = w.take newlen ++ [c] := by
        rw [take_set_succ hnew', List.append_assoc w, List.take_append_of_le_length hnew]
      have hstrip : strip cset t = c :: strip cset t' := by rw [ht, strip_append_cons hset hc]
      have hless : t'.length < t.length := by
        simp only [ht, List.length_append, List.length_cons]
        omega
      have hle : newlen + 1 ≤ ((w ++ a ++ [c]).set newlen c).length := by omega
      have hloop := ih t'.length hless rfl hle (show t'.length + 2 ≤ f by omega) rfl
      rw [if_neg hall, ← ha, ok_bind, if_pos hin, hload, ok_bind, hstore, ok_bind, htotal, ← hlen]
      refine ⟨hloop.1, fun hrest => ?_⟩
      obtain ⟨u, hok, hu⟩ := hloop.2 hrest
      refine ⟨u, ?_, ?_⟩
      · rw [hok, htake, hstrip, List.length_cons, List.append_assoc (w.take newlen) [c],
          List.singleton_append]
        congr 2
        omega
      · rw [hstrip, List.length_cons]
        have hsame : ((w ++ a ++ [c]).set newlen c ++ t' ++ 0 :: rest).length = buf.length := by
          simp [hcells]
          omega
        omega

theorem strip_length_le (cset s : Bytes) : (strip cset s).length ≤ s.length :=
  List.length_filter_le _ s

theorem yaslstrip_leaves (cset : Bytes) (h : Holds str s) (hroom : s = [] ∨ 0 < str.free) :
    Leaves (yaslstrip str cset) (strip cset s) := by
  have hs := h.len
  unfold yaslstrip
  by_cases hnil : s = []
  · subst hnil
    have hzero : str.len = 0 := hs
    rw [if_pos hzero]
    exact ⟨str, rfl, h⟩
  · obtain ⟨rest, hbuf, hrest⟩ := h.buf
    have hpos : 0 < s.length := List.length_pos_iff.mpr hnil
    have hne : rest ≠ [] := by
      rintro rfl
      rw [List.length_nil] at hrest
      rcases hroom with hs | hfree
      · exact hnil hs
      · omega
    have hcells : str.buf = [] ++ s ++ 0 :: rest := hbuf
    obtain ⟨u, hok, hu⟩ := (stripLoop_eq cset hcells le_rfl le_rfl).2 hne
    simp only [List.length_nil, Nat.zero_add, List.take_nil, List.nil_append, ← hs] at hok hu
    rw [if_neg (by omega), hok, ok_bind]
    exact h.finish (strip_length_le cset s) hu

/-- The read behind the NUL leaves the block when nothing is allocated there. -/
theorem yaslstrip_eq_fault_iff (cset : Bytes) (h : Holds str s) :
    yaslstrip str cset = .error .fault ↔ s ≠ [] ∧ str.free = 0 := by
  constructor
  · intro hfault
    by_contra hno
    obtain ⟨str', hok, -⟩ := yaslstrip_leaves cset h (by
      by_cases hnil : s = []
      · exact Or.inl hnil
      · exact Or.inr (by by_contra hfree; exact hno ⟨hnil, by omega⟩))
    rw [hok] at hfault
    contradiction
  · rintro ⟨hnil, hfree⟩
    have hs := h.len
    obtain ⟨rest, hbuf, hrest⟩ := h.buf
    have hpos : 0 < s.length := List.length_pos_iff.mpr hnil
    have hend : rest = [] := List.length_eq_zero_iff.mp (by omega)
    have hcells : str.buf = [] ++ s ++ 0 :: rest := hbuf
    have hloop := (stripLoop_eq cset hcells le_rfl le_rfl).1 hend
    rw [List.length_nil, Nat.zero_add, ← hs] at hloop
    rw [yaslstrip, if_neg (by omega), hloop]
    rfl

/-- A duplicate has no free space. -/
theorem yasldup_fresh {str' : Yastrhdr} (h : Holds str s) (hdup : yasldup m str = .ok str') :
    Holds str' s ∧ str'.free = 0 := by
  rcases yasldup_gives m h with hnull | ⟨str'', hok, hholds⟩
  · rw [hnull] at hdup
    contradiction
  · rw [hok] at hdup
    obtain rfl := Except.ok.inj hdup
    exact ⟨hholds, yaslnew_free hok⟩

/-- What `yaslstrip` does to any string, and that it fails on one just made. -/
theorem yaslstrip_spec (cset : Bytes) (h : Holds str s) :
    (yaslstrip str cset = .error .fault ↔ s ≠ [] ∧ str.free = 0) ∧
    (¬ (s ≠ [] ∧ str.free = 0) → Leaves (yaslstrip str cset) (strip cset s)) ∧
    ∀ m str', s ≠ [] → yasldup m str = .ok str' → yaslstrip str' cset = .error .fault := by
  refine ⟨yaslstrip_eq_fault_iff cset h, fun hno => ?_, fun m str' hs hdup => ?_⟩
  · by_cases hnil : s = []
    · exact yaslstrip_leaves cset h (Or.inl hnil)
    · exact yaslstrip_leaves cset h
        (Or.inr (Nat.pos_of_ne_zero fun hfree => hno ⟨hnil, hfree⟩))
  · obtain ⟨hholds, hfree⟩ := yasldup_fresh h hdup
    exact (yaslstrip_eq_fault_iff cset hholds).mpr ⟨hs, hfree⟩

theorem yaslstrip_spec_blanks :
    yaslstrip ⟨4, 0, bytes "a b " ++ [0]⟩ (bytes " ") = .error .fault ∧
    Leaves (yaslstrip ⟨4, 1, bytes "a b " ++ [0, 7]⟩ (bytes " ")) (bytes "ab") := by
  have htight : Holds ⟨4, 0, bytes "a b " ++ [0]⟩ (bytes "a b ") :=
    ⟨rfl, ⟨[], rfl, rfl⟩, by decide⟩
  have hroomy : Holds ⟨4, 1, bytes "a b " ++ [0, 7]⟩ (bytes "a b ") :=
    ⟨rfl, ⟨[7], rfl, rfl⟩, by decide⟩
  have hstrip : strip (bytes " ") (bytes "a b ") = bytes "ab" := by decide +kernel
  have hleaves := (yaslstrip_spec (bytes " ") hroomy).2.1 (by decide)
  rw [hstrip] at hleaves
  exact ⟨(yaslstrip_spec (bytes " ") htight).1.mpr ⟨by decide +kernel, rfl⟩, hleaves⟩

/-- The functions that edit a string. -/
inductive Edit where
  | makeRoomFor (addlen : ℕ)
  | removeFreeSpace
  | clear
  | growzero (len : ℕ)
  | cpylen (src : Bytes) (len : ℕ)
  | cpy (src : Bytes)
  | mapchars (source target : Bytes) (setlen : ℕ)
  | range (start stop : ℤ)
  | strip (cset : Bytes)
  | tolower
  | toupper
  | trim (cset : Bytes)
  | updatelen
  | cat (src : Bytes)
  | catyasl (src : Yastrhdr)
  | catlen (src : Bytes) (len : ℕ)
  | catrepr (src : Bytes) (len : ℕ)
  | catvprintf (out : Bytes)

namespace Edit

/-- The call, with the answers of the allocator during it. -/
def call (m m' : ℕ → Malloc) (str : Yastrhdr) : Edit → Checked Yastrhdr
  | makeRoomFor addlen => yaslMakeRoomFor (m 0) str addlen
  | removeFreeSpace => yaslRemoveFreeSpace (m 0) str
  | clear => yaslclear str
  | growzero len => yaslgrowzero (m 0) str len
  | cpylen src len => yaslcpylen (m 0) str src len
  | cpy src => yaslcpy (m 0) str src
  | mapchars source target setlen => yaslmapchars str source target setlen
  | range start stop => yaslrange str start stop
  | strip cset => yaslstrip str cset
  | tolower => yasltolower str
  | toupper => yasltoupper str
  | trim cset => yasltrim str cset
  | updatelen => yaslupdatelen str
  | cat src => yaslcat (m 0) str src
  | catyasl src => yaslcatyasl (m 0) str src
  | catlen src len => yaslcatlen (m 0) str src len
  | catrepr src len => yaslcatrepr m m' str src len
  | catvprintf out => yaslcatvprintf (m 0) (m' 0) str out

/-- The same edit of a byte string. -/
def text (s : Bytes) : Edit → Bytes
  | makeRoomFor _ => s
  | removeFreeSpace => s
  | clear => []
  | growzero len => s ++ List.replicate (len - s.length) 0
  | cpylen src len => src.take len
  | cpy src => cstr src
  | mapchars source target setlen => Yasl.yaslmapchars s source target setlen
  | range start stop => Yasl.yaslrange s start stop
  | strip cset => YaslHeap.strip cset s
  | tolower => Yasl.yasltolower s
  | toupper => s.map YaslHeap.toupper
  | trim cset => Yasl.yasltrim s cset
  | updatelen => cstr s
  | cat src => Yasl.yaslcat s src
  | catyasl src => s ++ src.buf.take src.len
  | catlen src len => Yasl.yaslcatlen s src len
  | catrepr src len => s ++ quoted (src.take len)
  | catvprintf out => s ++ cstr out

/-- What a caller owes: arguments that are as long as it says, C strings that
end, and sizes of objects in memory. The last index of a range is short of the
greatest, to which one is added. -/
def Sound : Edit → Prop
  | makeRoomFor addlen => Fits addlen
  | growzero len => Fits len
  | cpylen src len => len ≤ src.length ∧ Fits src.length
  | cpy src => 0 ∈ src ∧ Fits src.length
  | mapchars source target setlen => setlen ≤ source.length ∧ setlen ≤ target.length
  | range _ stop => stop < 2 ^ 63 - 1
  | cat src => 0 ∈ src ∧ Fits src.length
  | catyasl src => (∃ t, Holds src t) ∧ Fits src.len
  | catlen src len => len ≤ src.length ∧ Fits src.length
  | catrepr src len => len ≤ src.length
  | _ => True

/-- The one read outside the block. -/
def Overreads (str : Yastrhdr) : Edit → Prop
  | strip _ => str.len ≠ 0 ∧ str.free = 0
  | _ => False

end Edit

theorem Holds.take_buf (h : Holds str s) : str.buf.take str.len = s := by
  obtain ⟨rest, hbuf, -⟩ := h.buf
  rw [hbuf, h.len, List.take_left]

/-- One edit keeps the string whole and does to its contents what it does to a
byte string. -/
theorem Edit.call_gives (m m' : ℕ → Malloc) {e : Edit} (h : Holds str s) (hsound : e.Sound)
    (hin : ¬ e.Overreads str) : Gives (e.call m m' str) (e.text s) := by
  cases e with
  | makeRoomFor addlen =>
    rcases yaslMakeRoomFor_cases (m 0) h hsound with hnull | ⟨str', hok, hholds, -⟩
    · exact Or.inl hnull
    · exact Or.inr ⟨str', hok, hholds⟩
  | removeFreeSpace => exact Or.inr (yaslRemoveFreeSpace_leaves (m 0) h)
  | clear => exact Or.inr (yaslclear_leaves h)
  | growzero len => exact yaslgrowzero_gives (m 0) h hsound
  | cpylen src len =>
    have hfits : Fits len := by
      have hle := hsound.1
      have hsrc := hsound.2
      unfold Fits at *
      omega
    exact yaslcpylen_gives (m 0) h hfits hsound.1
  | cpy src => exact yaslcpy_gives (m 0) h hsound.2 hsound.1
  | mapchars source target setlen => exact Or.inr (yaslmapchars_leaves h hsound.1 hsound.2)
  | range start stop => exact Or.inr (yaslrange_leaves h hsound)
  | strip cset =>
    refine Or.inr (yaslstrip_leaves cset h ?_)
    by_cases hnil : s = []
    · exact Or.inl hnil
    · have hpos : 0 < s.length := List.length_pos_iff.mpr hnil
      have hs := h.len
      refine Or.inr (Nat.pos_of_ne_zero fun hfree => hin ⟨by omega, hfree⟩)
  | tolower => exact Or.inr (yasltolower_leaves h)
  | toupper => exact Or.inr (yasltoupper_leaves h)
  | trim cset => exact Or.inr (yasltrim_leaves cset h)
  | updatelen => exact Or.inr (yaslupdatelen_leaves h)
  | cat src => exact yaslcat_gives (m 0) h hsound.2 hsound.1
  | catyasl src =>
    obtain ⟨⟨t, ht⟩, hfits⟩ := hsound
    have hcat := yaslcatyasl_gives (m 0) h ht hfits
    rwa [← ht.take_buf] at hcat
  | catlen src len =>
    have hfits : Fits len := by
      have hle := hsound.1
      have hsrc := hsound.2
      unfold Fits at *
      omega
    exact yaslcatlen_gives (m 0) h hfits hsound.1
  | catrepr src len => exact yaslcatrepr_gives m m' h hsound
  | catvprintf out => exact yaslcatvprintf_gives (m 0) (m' 0) h out

/-- An edit, and the answers of the allocator while it runs. -/
structure Step where
  edit : Edit
  m : ℕ → Malloc
  m' : ℕ → Malloc

/-- The edits one after another; a null pointer is passed on. -/
def run : List Step → Yastrhdr → Checked Yastrhdr
  | [], str => .ok str
  | x :: steps, str => do
    let str ← x.edit.call x.m x.m' str
    run steps str

/-- The same edits of a byte string. -/
def texts (steps : List Step) (s : Bytes) : Bytes := steps.foldl (fun s x => x.edit.text s) s

/-- A run of edits ends in a null pointer or in the string that the edits make
of the contents, unless it reaches an edit that reads outside the block. -/
theorem run_gives {steps : List Step} (h : Holds str s) (hsound : ∀ x ∈ steps, x.edit.Sound) :
    Gives (run steps str) (texts steps s) ∨
      ∃ pre x post str', steps = pre ++ x :: post ∧ run pre str = .ok str' ∧
        Holds str' (texts pre s) ∧ x.edit.Overreads str' := by
  induction steps generalizing str s with
  | nil => exact Or.inl (Or.inr ⟨str, rfl, h⟩)
  | cons x steps ih =>
    by_cases hover : x.edit.Overreads str
    · exact Or.inr ⟨[], x, steps, str, rfl, rfl, h, hover⟩
    · rcases Edit.call_gives x.m x.m' h (hsound x List.mem_cons_self) hover with
        hnull | ⟨str', hok, hholds⟩
      · left
        left
        rw [run, hnull, error_bind]
      · have hrun : run (x :: steps) str = run steps str' := by rw [run, hok, ok_bind]
        rcases ih hholds fun y hy => hsound y (List.mem_cons_of_mem x hy) with
          hgives | ⟨pre, y, post, str'', rfl, hpre, hholds', hover'⟩
        · left
          rw [hrun]
          exact hgives
        · right
          refine ⟨x :: pre, y, post, str'', rfl, ?_, hholds', hover'⟩
          rw [run, hok, ok_bind, hpre]

theorem run_append (pre post : List Step) (str : Yastrhdr) :
    run (pre ++ post) str = run pre str >>= run post := by
  induction pre generalizing str with
  | nil => rfl
  | cons x pre ih =>
    rw [List.cons_append, run, run]
    cases x.edit.call x.m x.m' str with
    | error e => rfl
    | ok str' => exact ih str'

theorem Edit.call_of_overreads (m m' : ℕ → Malloc) {e : Edit} (h : Holds str s)
    (hover : e.Overreads str) : e.call m m' str = .error .fault := by
  cases e with
  | strip cset =>
    have hs := h.len
    refine (yaslstrip_eq_fault_iff cset h).mpr ⟨?_, hover.2⟩
    rintro rfl
    exact hover.1 hs
  | _ => exact hover.elim

/-- A run leaves its blocks exactly where it comes to a `yaslstrip` of a
nonempty string without free space. Every other run ends in a null pointer or in
the contents that the same edits make of a byte string. -/
theorem run_spec {steps : List Step} (h : Holds str s) (hsound : ∀ x ∈ steps, x.edit.Sound) :
    (run steps str = .error .fault ↔ ∃ pre x post str', steps = pre ++ x :: post ∧
      run pre str = .ok str' ∧ x.edit.Overreads str') ∧
    (run steps str ≠ .error .fault → Gives (run steps str) (texts steps s)) := by
  have hfault : ∀ pre x post str' t, steps = pre ++ x :: post → run pre str = .ok str' →
      Holds str' t → x.edit.Overreads str' → run steps str = .error .fault := by
    rintro pre x post str' t rfl hpre hholds hover
    rw [run_append, hpre, ok_bind, run, Edit.call_of_overreads _ _ hholds hover, error_bind]
  refine ⟨⟨fun hrun => ?_, ?_⟩, fun hrun => ?_⟩
  · rcases run_gives h hsound with hgives | ⟨pre, x, post, str', heq, hpre, -, hover⟩
    · rcases hgives with hnull | ⟨str', hok, -⟩
      · rw [hnull] at hrun
        contradiction
      · rw [hok] at hrun
        contradiction
    · exact ⟨pre, x, post, str', heq, hpre, hover⟩
  · rintro ⟨pre, x, post, str', rfl, hpre, hover⟩
    have hsound' : ∀ y ∈ pre, y.edit.Sound := fun y hy =>
      hsound y (List.mem_append_left _ hy)
    rcases run_gives h hsound' with hgives | ⟨pre', y, post', str'', rfl, hpre', hholds, hover'⟩
    · rcases hgives with hnull | ⟨str'', hok, hholds⟩
      · rw [hnull] at hpre
        contradiction
      · rw [hok] at hpre
        obtain rfl := Except.ok.inj hpre
        exact hfault pre x post str'' _ rfl hok hholds hover
    · exact hfault pre' y (post' ++ x :: post) str'' _ (by simp) hpre' hholds hover'
  · rcases run_gives h hsound with hgives | ⟨pre, x, post, str', heq, hpre, hholds, hover⟩
    · exact hgives
    · exact absurd (hfault pre x post str' _ heq hpre hholds hover) hrun

theorem run_spec_appended :
    Gives (run [⟨.catlen (bytes " x") 2, fun _ => plenty, fun _ => plenty⟩,
      ⟨.strip (bytes " "), fun _ => plenty, fun _ => plenty⟩] ⟨3, 0, bytes "abc" ++ [0]⟩)
      (bytes "abcx") := by
  have hholds : Holds ⟨3, 0, bytes "abc" ++ [0]⟩ (bytes "abc") := ⟨rfl, ⟨[], rfl, rfl⟩, by decide⟩
  have htexts : texts [⟨.catlen (bytes " x") 2, fun _ => plenty, fun _ => plenty⟩,
      ⟨.strip (bytes " "), fun _ => plenty, fun _ => plenty⟩] (bytes "abc") = bytes "abcx" := by
    decide +kernel
  rw [← htexts]
  apply (run_spec hholds ?_).2
  · decide +kernel
  · intro x hx
    rcases List.mem_pair.mp hx with rfl | rfl
    · exact ⟨by decide, by unfold Fits; decide⟩
    · trivial

end Simvacation.YaslHeap
