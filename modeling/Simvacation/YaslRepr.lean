import Simvacation.YaslSplit
import Simvacation.CommandWords
import Simvacation.MailboxGrammar

/-!
Representations of strings. `yaslcatrepr` writes a string in double quotes,
with an escape for each byte that could not stand there, and `yaslsplitargs`
reads the words of a line. What is written is one word of the grammar of lines,
and its value is the string, whatever its bytes are.
-/

namespace Simvacation.YaslHeap

open CString Block Yasl CommandWords

/-- `%02x` of a byte. -/
def hexPair (c : UInt8) : Bytes :=
  [Numerals.digitChar (c.toNat / 16), Numerals.digitChar (c.toNat % 16)]

/-- What stands for a byte within double quotes. -/
def escape (c : UInt8) : Bytes :=
  if c = 92 ∨ c = 34 then [92, c]
  else if c = 10 then bytes "\\n"
  else if c = 13 then bytes "\\r"
  else if c = 9 then bytes "\\t"
  else if c = 7 then bytes "\\a"
  else if c = 8 then bytes "\\b"
  else if MailboxGrammar.isprint c then [c]
  else bytes "\\x" ++ hexPair c

/-- The string in quotes. -/
def quoted (s : Bytes) : Bytes := 34 :: s.flatMap escape ++ [34]

/-- The bytes `src[i]` and on, `n` of them; the answers of the allocator are
numbered by the byte they are for. -/
def reprLoop (m m' : ℕ → Malloc) (src : Bytes) : ℕ → ℕ → Yastrhdr → Checked Yastrhdr
  | 0, _, dest => .ok dest
  | n + 1, i, dest => do
    let c ← load src i
    let dest ← (if c = 92 ∨ c = 34 then yaslcatvprintf (m i) (m' i) dest [92, c]
      else if c = 10 then yaslcatlen (m i) dest (bytes "\\n") 2
      else if c = 13 then yaslcatlen (m i) dest (bytes "\\r") 2
      else if c = 9 then yaslcatlen (m i) dest (bytes "\\t") 2
      else if c = 7 then yaslcatlen (m i) dest (bytes "\\a") 2
      else if c = 8 then yaslcatlen (m i) dest (bytes "\\b") 2
      else if MailboxGrammar.isprint c then yaslcatvprintf (m i) (m' i) dest [c]
      else yaslcatvprintf (m i) (m' i) dest (bytes "\\x" ++ hexPair c))
    reprLoop m m' src n (i + 1) dest

def yaslcatrepr (m m' : ℕ → Malloc) (dest : Yastrhdr) (src : Bytes) (len : ℕ) :
    Checked Yastrhdr := do
  let dest ← yaslcatlen (m len) dest (bytes "\"") 1
  let dest ← reprLoop m m' src len 0 dest
  yaslcatlen (m' len) dest (bytes "\"") 1

section

variable {str : Yastrhdr} {s : Bytes}

theorem escape_spec (c : UInt8) : 0 ∉ escape c ∧
    (c = 92 ∨ c = 34 → escape c = [92, c]) := by
  apply forall_byte (P := fun c => 0 ∉ escape c ∧ (c = 92 ∨ c = 34 → escape c = [92, c]))
  decide +kernel

theorem reprLoop_gives (m m' : ℕ → Malloc) {src : Bytes} {n i : ℕ} (h : Holds str s)
    (hin : i + n ≤ src.length) :
    Gives (reprLoop m m' src n i str) (s ++ ((src.drop i).take n).flatMap escape) := by
  induction n generalizing i str s with
  | zero =>
    rw [List.take_zero, List.flatMap_nil, List.append_nil]
    exact Or.inr ⟨str, rfl, h⟩
  | succ n ih =>
    have hi : i < src.length := by omega
    rw [reprLoop, load_of_lt hi, ok_bind, List.drop_eq_getElem_cons hi, List.take_succ_cons,
      List.flatMap_cons, ← List.append_assoc]
    apply Gives.bind (s := s ++ escape src[i])
    · have hnul := (escape_spec src[i]).1
      have hprint := yaslcatvprintf_gives (m i) (m' i) h (escape src[i])
      rw [cstr_eq_self hnul] at hprint
      have hcat : ∀ t : Bytes, t.length = 2 → Gives (yaslcatlen (m i) str t 2) (s ++ t) := by
        intro t ht
        have hfits : Fits 2 := by
          unfold Fits
          omega
        have hgives := yaslcatlen_gives (m i) h hfits ht.ge
        rwa [List.take_of_length_le ht.le] at hgives
      unfold escape at hprint ⊢
      split_ifs at hprint ⊢
      all_goals first
        | exact hprint
        | exact hcat _ rfl
    · intro str' hstr'
      exact ih hstr' (by omega)

/-- The representation is appended, or an allocation failed. -/
theorem yaslcatrepr_gives (m m' : ℕ → Malloc) {src : Bytes} {len : ℕ} (h : Holds str s)
    (hlen : len ≤ src.length) :
    Gives (yaslcatrepr m m' str src len) (s ++ quoted (src.take len)) := by
  have hquote : ∀ (m : Malloc) {str : Yastrhdr} {s : Bytes}, Holds str s →
      Gives (yaslcatlen m str (bytes "\"") 1) (s ++ [34]) := by
    intro m str s hstr
    have hfits : Fits 1 := by
      unfold Fits
      omega
    have hlen : 1 ≤ (bytes "\"").length := le_rfl
    exact yaslcatlen_gives m hstr hfits hlen
  have htext : s ++ quoted (src.take len) =
      s ++ [34] ++ ((src.drop 0).take len).flatMap escape ++ [34] := by
    simp [quoted]
  rw [htext]
  apply (hquote (m len) h).bind
  intro str' hstr'
  apply (reprLoop_gives m m' hstr' (by omega)).bind
  intro str'' hstr''
  exact hquote (m' len) hstr''

end

theorem hexPair_spec (c : UInt8) : ∃ a b, hexPair c = [a, b] ∧ isxdigit a = true ∧
    isxdigit b = true ∧ hexDigitToInt a * 16 + hexDigitToInt b = c := by
  refine ⟨_, _, rfl, ?_⟩
  apply forall_byte (P := fun c =>
    isxdigit (Numerals.digitChar (c.toNat / 16)) = true ∧
    isxdigit (Numerals.digitChar (c.toNat % 16)) = true ∧
    hexDigitToInt (Numerals.digitChar (c.toNat / 16)) * 16 +
      hexDigitToInt (Numerals.digitChar (c.toNat % 16)) = c)
  decide +kernel

/-- A letter behind a backslash. -/
theorem doubleText_letter {c d : UInt8} {p v rest : Bytes} (hd : d ≠ 120)
    (hc : unescape d = c) (h : DoubleText p v rest) : DoubleText (92 :: d :: p) (c :: v) rest := by
  rw [← hc]
  exact .escape (fun e => hd e.1) h

/-- An escape stands for its byte. -/
theorem doubleText_escape (c : UInt8) {p v rest : Bytes} (h : DoubleText p v rest) :
    DoubleText (escape c ++ p) (c :: v) rest := by
  unfold escape
  split_ifs with hself hlf hcr htab hbell hback hprint
  · have hvalue : c ≠ 120 ∧ unescape c = c := by
      rcases hself with rfl | rfl <;> decide
    exact doubleText_letter hvalue.1 hvalue.2 h
  · exact doubleText_letter (by decide) (by rw [hlf]; rfl) h
  · exact doubleText_letter (by decide) (by rw [hcr]; rfl) h
  · exact doubleText_letter (by decide) (by rw [htab]; rfl) h
  · exact doubleText_letter (by decide) (by rw [hbell]; rfl) h
  · exact doubleText_letter (by decide) (by rw [hback]; rfl) h
  · exact .plain (fun e => hself (Or.inl e)) (fun e => hself (Or.inr e)) h
  · obtain ⟨a, b, hpair, ha, hb, hvalue⟩ := hexPair_spec c
    have hhex := DoubleText.hex ha hb h
    rw [hvalue] at hhex
    rw [hpair]
    exact hhex

theorem doubleText_quoted (s : Bytes) {rest : Bytes} (h : Closed rest) :
    DoubleText (s.flatMap escape ++ 34 :: rest) s rest := by
  induction s with
  | nil => exact .close h
  | cons c s ih =>
    rw [List.flatMap_cons, List.append_assoc]
    exact doubleText_escape c ih

theorem word_quoted (s : Bytes) {rest : Bytes} (h : Closed rest) :
    Word (quoted s ++ rest) s rest := by
  have htext : quoted s ++ rest = 34 :: (s.flatMap escape ++ 34 :: rest) := by simp [quoted]
  rw [htext]
  exact .double (doubleText_quoted s h)

/-- A line that quotes a word in front of others. -/
theorem line_quoted (s : Bytes) {rest : Bytes} {words : List Bytes} (hclosed : Closed rest)
    (h : Line rest words) : Line (quoted s ++ rest) (s :: words) := by
  have hword := word_quoted s hclosed
  rw [quoted, List.cons_append, List.cons_append] at hword ⊢
  exact .word (by decide) hword h

theorem line_spaces {sep p : Bytes} {words : List Bytes} (hsep : ∀ c ∈ sep, isspace c = true)
    (h : Line p words) : Line (sep ++ p) words := by
  induction sep with
  | nil => exact h
  | cons c sep ih =>
    exact .space (hsep c List.mem_cons_self) (ih fun d hd => hsep d (List.mem_cons_of_mem c hd))

/-- Quoted words with space between them are a line of these words. -/
theorem line_intercalate {sep : Bytes} (hne : sep ≠ []) (hsep : ∀ c ∈ sep, isspace c = true)
    (ws : List Bytes) : Line (sep.intercalate (ws.map quoted)) ws := by
  induction ws with
  | nil => exact .nil
  | cons w ws ih =>
    cases ws with
    | nil =>
      have hline := line_quoted w (fun c hc => by simp at hc) Line.nil
      rw [List.append_nil] at hline
      rw [List.map_singleton, List.intercalate_singleton]
      exact hline
    | cons v ws =>
      rw [List.map_cons, List.map_cons, List.intercalate_cons_cons, List.append_assoc]
      apply line_quoted w
      · intro c hc
        cases sep with
        | nil => exact absurd rfl hne
        | cons d sep =>
          rw [List.cons_append, List.head?_cons, Option.mem_some_iff] at hc
          exact hc ▸ hsep d List.mem_cons_self
      · exact line_spaces hsep ih

theorem nul_notMem_quoted (s : Bytes) : 0 ∉ quoted s := by
  have hbody : 0 ∉ s.flatMap escape := by
    intro h
    obtain ⟨c, -, hc⟩ := List.mem_flatMap.mp h
    exact (escape_spec c).1 hc
  simp [quoted, hbody]

theorem nul_notMem_intercalate {sep : Bytes} (hsep : 0 ∉ sep) {ws : List Bytes}
    (hws : ∀ w ∈ ws, 0 ∉ w) : 0 ∉ sep.intercalate ws := by
  induction ws with
  | nil => simp
  | cons w ws ih =>
    have hw := hws w List.mem_cons_self
    have hrest := ih fun v hv => hws v (List.mem_cons_of_mem w hv)
    cases ws with
    | nil => rwa [List.intercalate_singleton]
    | cons v ws =>
      rw [List.intercalate_cons_cons]
      simp [hw, hsep, hrest]

/-- Strings written by `yaslcatrepr` and joined by space come back from
`yaslsplitargs`, whatever bytes they have. -/
theorem yaslsplitargs_yaslcatrepr (m m' : ℕ → Malloc) {sep : Bytes} {seplen : ℕ}
    (hpos : 0 < seplen) (hlen : seplen ≤ sep.length) (hfits : Fits seplen)
    (hsep : ∀ c ∈ sep.take seplen, isspace c = true) {argv : List Yastrhdr} {ws : List Bytes}
    (hargv : List.Forall₂ (fun a w => Fits a.len ∧ ∃ n n' dest, Holds dest [] ∧
      yaslcatrepr n n' dest w w.length = .ok a) argv ws) {join : Yastrhdr}
    (hjoin : yasljoinyasl m m' argv sep seplen = .ok join) :
    yaslsplitargs (cstr join.buf) = some ws := by
  have hreprs : List.Forall₂ (fun a w => Holds a w ∧ Fits w.length) argv (ws.map quoted) := by
    rw [List.forall₂_map_right_iff]
    refine hargv.imp ?_
    rintro a w ⟨hsize, n, n', dest, hdest, hrepr⟩
    rcases yaslcatrepr_gives n n' hdest (le_refl w.length) with hnull | ⟨a', hok, hholds⟩
    · rw [hnull] at hrepr
      contradiction
    · rw [hok] at hrepr
      obtain rfl := Except.ok.inj hrepr
      rw [List.nil_append, List.take_of_length_le le_rfl] at hholds
      exact ⟨hholds, hholds.len ▸ hsize⟩
  rcases yasljoinyasl_gives m m' hlen hfits hreprs with hnull | ⟨join', hok, hholds⟩
  · rw [hnull] at hjoin
    contradiction
  · rw [hok] at hjoin
    obtain rfl := Except.ok.inj hjoin
    obtain ⟨rest, hbuf, -⟩ := hholds.buf
    have hsep0 : 0 ∉ sep.take seplen := fun h => absurd (hsep 0 h) (by decide)
    have hne : sep.take seplen ≠ [] := by
      rw [← List.length_pos_iff, List.length_take_of_le hlen]
      exact hpos
    have hnul : 0 ∉ (sep.take seplen).intercalate (ws.map quoted) := by
      apply nul_notMem_intercalate hsep0
      intro w hw
      obtain ⟨v, -, rfl⟩ := List.mem_map.mp hw
      exact nul_notMem_quoted v
    rw [hbuf, cstr_append_zero, cstr_eq_self hnul]
    exact yaslsplitargs_eq_some_iff.mpr (line_intercalate hne hsep ws)

theorem yaslsplitargs_yaslcatrepr_bytes :
    yaslsplitargs (cstr (bytes "\"\\\"\" \"\\x00\"" ++ List.replicate 12 0)) =
      some [[34], [0]] := by
  have hfits : ∀ n < 7, Fits n := by
    unfold Fits
    omega
  have hdest : Holds ⟨0, 0, [0]⟩ [] := ⟨rfl, ⟨[], rfl, rfl⟩, by decide⟩
  have hquote : yaslcatrepr (fun _ => plenty) (fun _ => plenty) ⟨0, 0, [0]⟩ [34] 1 =
      .ok ⟨4, 2, bytes "\"\\\"\"" ++ List.replicate 3 0⟩ := by decide +kernel
  have hnul : yaslcatrepr (fun _ => plenty) (fun _ => plenty) ⟨0, 0, [0]⟩ [0] 1 =
      .ok ⟨6, 4, bytes "\"\\x00\"" ++ List.replicate 5 0⟩ := by decide +kernel
  have hjoin : yasljoinyasl (fun _ => plenty) (fun _ => plenty)
      [⟨4, 2, bytes "\"\\\"\"" ++ List.replicate 3 0⟩,
        ⟨6, 4, bytes "\"\\x00\"" ++ List.replicate 5 0⟩] (bytes " ") 1 =
      .ok ⟨11, 11, bytes "\"\\\"\" \"\\x00\"" ++ List.replicate 12 0⟩ := by decide +kernel
  have hsep : 1 ≤ (bytes " ").length := by decide
  have hspace : ∀ c ∈ (bytes " ").take 1, isspace c = true := by decide +kernel
  exact yaslsplitargs_yaslcatrepr _ _ (by decide) hsep (hfits 1 (by decide)) hspace
    (.cons ⟨hfits 4 (by decide), _, _, _, hdest, hquote⟩
      (.cons ⟨hfits 6 (by decide), _, _, _, hdest, hnul⟩ .nil)) hjoin

end Simvacation.YaslHeap
