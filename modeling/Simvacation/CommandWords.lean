import Simvacation.Yasl

/-!
The words of a command line. The grammar says what the text of a line stands
for; `yaslsplitargs` accepts the lines of the grammar and gives their words.
-/

namespace Simvacation.CommandWords

open CString Yasl

/-- The bytes that end a word outside quotes. -/
def IsBreak (c : UInt8) : Prop := c = 32 ∨ c = 10 ∨ c = 13 ∨ c = 9

instance (c : UInt8) : Decidable (IsBreak c) :=
  inferInstanceAs (Decidable (c = 32 ∨ c = 10 ∨ c = 13 ∨ c = 9))

/-- What may follow a closing quote. -/
def Closed (rest : Bytes) : Prop := ∀ c ∈ rest.head?, isspace c = true

/-- An `x` with the two hexadecimal digits of an escape. -/
def HexAhead (c : UInt8) (p : Bytes) : Prop :=
  c = 120 ∧ ∃ a b q, p = a :: b :: q ∧ isxdigit a = true ∧ isxdigit b = true

/-- A line behind a double quote: the value up to the closing quote, and the rest. -/
inductive DoubleText : Bytes → Bytes → Bytes → Prop where
  | close {rest : Bytes} : Closed rest → DoubleText (34 :: rest) [] rest
  | hex {a b : UInt8} {p v rest : Bytes} : isxdigit a = true → isxdigit b = true →
      DoubleText p v rest →
      DoubleText (92 :: 120 :: a :: b :: p) ((hexDigitToInt a * 16 + hexDigitToInt b) :: v) rest
  | escape {c : UInt8} {p v rest : Bytes} : ¬ HexAhead c p → DoubleText p v rest →
      DoubleText (92 :: c :: p) (unescape c :: v) rest
  | plain {c : UInt8} {p v rest : Bytes} : c ≠ 92 → c ≠ 34 → DoubleText p v rest →
      DoubleText (c :: p) (c :: v) rest

/-- A line behind a single quote. Only the quote itself has an escape. -/
inductive SingleText : Bytes → Bytes → Bytes → Prop where
  | close {rest : Bytes} : Closed rest → SingleText (39 :: rest) [] rest
  | quote {p v rest : Bytes} : SingleText p v rest → SingleText (92 :: 39 :: p) (39 :: v) rest
  | plain {c : UInt8} {p v rest : Bytes} : c ≠ 39 → (c = 92 → p.head? ≠ some 39) →
      SingleText p v rest → SingleText (c :: p) (c :: v) rest

/-- A line at a word: its value, and the rest behind it. -/
inductive Word : Bytes → Bytes → Bytes → Prop where
  | stop : Word [] [] []
  | ends {c : UInt8} {p : Bytes} : IsBreak c → Word (c :: p) [] p
  | double {p v rest : Bytes} : DoubleText p v rest → Word (34 :: p) v rest
  | single {p v rest : Bytes} : SingleText p v rest → Word (39 :: p) v rest
  | plain {c : UInt8} {p v rest : Bytes} : ¬ IsBreak c → c ≠ 34 → c ≠ 39 → Word p v rest →
      Word (c :: p) (c :: v) rest

/-- A line and its words. Space stands in front of the words and behind the last one. -/
inductive Line : Bytes → List Bytes → Prop where
  | nil : Line [] []
  | space {c : UInt8} {p : Bytes} {words : List Bytes} : isspace c = true → Line p words →
      Line (c :: p) words
  | word {c : UInt8} {p v rest : Bytes} {words : List Bytes} : isspace c = false →
      Word (c :: p) v rest → Line rest words → Line (c :: p) (v :: words)

section

variable {current p v w token rest : Bytes} {c d a b : UInt8}

theorem closeQuote_eq_some_iff :
    closeQuote current p = some (token, rest) ↔ (Closed rest ∧ p = rest) ∧ token = current := by
  cases p with
  | nil =>
    simp only [closeQuote, Option.some.injEq, Prod.mk.injEq]
    constructor
    · rintro ⟨rfl, rfl⟩
      exact ⟨⟨fun c hc => by simp at hc, rfl⟩, rfl⟩
    · rintro ⟨⟨-, rfl⟩, rfl⟩
      exact ⟨rfl, rfl⟩
  | cons c p =>
    by_cases hc : isspace c = true
    · simp only [closeQuote, hc, ite_true, Option.some.injEq, Prod.mk.injEq]
      constructor
      · rintro ⟨rfl, rfl⟩
        exact ⟨⟨fun d hd => by simp_all, rfl⟩, rfl⟩
      · rintro ⟨⟨-, rfl⟩, rfl⟩
        exact ⟨rfl, rfl⟩
    · simp only [closeQuote, hc, Bool.false_eq_true, ite_false, reduceCtorEq, false_iff]
      rintro ⟨⟨hclosed, rfl⟩, -⟩
      exact hc (hclosed c rfl)

theorem DoubleText.close_iff :
    DoubleText (34 :: p) v rest ↔ (Closed rest ∧ p = rest) ∧ v = [] := by
  constructor
  · intro h
    cases h with
    | close hclosed => exact ⟨⟨hclosed, rfl⟩, rfl⟩
    | plain _ hne _ => exact absurd rfl hne
  · rintro ⟨⟨hclosed, rfl⟩, rfl⟩
    exact .close hclosed

theorem DoubleText.hex_iff (ha : isxdigit a = true) (hb : isxdigit b = true) :
    DoubleText (92 :: 120 :: a :: b :: p) w rest ↔
      ∃ v, w = (hexDigitToInt a * 16 + hexDigitToInt b) :: v ∧ DoubleText p v rest := by
  constructor
  · intro h
    cases h with
    | hex _ _ hv => exact ⟨_, rfl, hv⟩
    | escape hno _ => exact absurd ⟨rfl, a, b, p, rfl, ha, hb⟩ hno
    | plain hne _ _ => exact absurd rfl hne
  · rintro ⟨v, rfl, hv⟩
    exact .hex ha hb hv

theorem DoubleText.escape_iff (hno : ¬ HexAhead c p) :
    DoubleText (92 :: c :: p) w rest ↔ ∃ v, w = unescape c :: v ∧ DoubleText p v rest := by
  constructor
  · intro h
    cases h with
    | hex ha hb _ => exact absurd ⟨rfl, _, _, _, rfl, ha, hb⟩ hno
    | escape _ hv => exact ⟨_, rfl, hv⟩
    | plain hne _ _ => exact absurd rfl hne
  · rintro ⟨v, rfl, hv⟩
    exact .escape hno hv

/-- A backslash at the end of the line leaves the quote open. -/
theorem DoubleText.plain_iff (hquote : c ≠ 34) (hend : c = 92 → p = []) :
    DoubleText (c :: p) w rest ↔ ∃ v, w = c :: v ∧ DoubleText p v rest := by
  constructor
  · intro h
    cases h with
    | close _ => exact absurd rfl hquote
    | hex _ _ _ => exact absurd (hend rfl) (List.cons_ne_nil _ _)
    | escape _ _ => exact absurd (hend rfl) (List.cons_ne_nil _ _)
    | plain _ _ hv => exact ⟨_, rfl, hv⟩
  · rintro ⟨v, rfl, hv⟩
    refine .plain (fun heq => ?_) hquote hv
    rw [hend heq] at hv
    cases hv

theorem SingleText.close_iff :
    SingleText (39 :: p) v rest ↔ (Closed rest ∧ p = rest) ∧ v = [] := by
  constructor
  · intro h
    cases h with
    | close hclosed => exact ⟨⟨hclosed, rfl⟩, rfl⟩
    | plain hne _ _ => exact absurd rfl hne
  · rintro ⟨⟨hclosed, rfl⟩, rfl⟩
    exact .close hclosed

theorem SingleText.quote_iff :
    SingleText (92 :: 39 :: p) w rest ↔ ∃ v, w = 39 :: v ∧ SingleText p v rest := by
  constructor
  · intro h
    cases h with
    | quote hv => exact ⟨_, rfl, hv⟩
    | plain _ hnext _ => exact absurd rfl (hnext rfl)
  · rintro ⟨v, rfl, hv⟩
    exact .quote hv

theorem SingleText.plain_iff (hquote : c ≠ 39) (hnext : c = 92 → p.head? ≠ some 39) :
    SingleText (c :: p) w rest ↔ ∃ v, w = c :: v ∧ SingleText p v rest := by
  constructor
  · intro h
    cases h with
    | close _ => exact absurd rfl hquote
    | quote _ => exact absurd rfl (hnext rfl)
    | plain _ _ hv => exact ⟨_, rfl, hv⟩
  · rintro ⟨v, rfl, hv⟩
    exact .plain hquote hnext hv

/-- A value that is over is what was read so far. -/
theorem value_nil_iff {Q : Prop} {R : Bytes → Prop} (h : ∀ w, R w ↔ Q ∧ w = []) :
    Q ∧ token = current ↔ ∃ w, R w ∧ token = current ++ w := by
  constructor
  · rintro ⟨hq, rfl⟩
    exact ⟨[], (h []).mpr ⟨hq, rfl⟩, (List.append_nil _).symm⟩
  · rintro ⟨w, hw, rfl⟩
    obtain ⟨hq, rfl⟩ := (h w).mp hw
    exact ⟨hq, List.append_nil _⟩

/-- The first byte of a value goes behind what was read so far. -/
theorem value_cons_iff {R R' : Bytes → Prop} (h : ∀ w, R' w ↔ ∃ v, w = d :: v ∧ R v) :
    (∃ v, R v ∧ token = current ++ [d] ++ v) ↔ ∃ w, R' w ∧ token = current ++ w := by
  constructor
  · rintro ⟨v, hv, rfl⟩
    exact ⟨d :: v, (h _).mpr ⟨v, rfl, hv⟩, by simp⟩
  · rintro ⟨w, hw, rfl⟩
    obtain ⟨v, rfl, hv⟩ := (h w).mp hw
    exact ⟨v, hv, by simp⟩

theorem doubleQuoted_eq_some_iff :
    doubleQuoted current p = some (token, rest) ↔
      ∃ v, DoubleText p v rest ∧ token = current ++ v := by
  fun_induction doubleQuoted current p with
  | case1 current =>
    simp only [reduceCtorEq, false_iff]
    rintro ⟨v, hv, -⟩
    cases hv
  | case2 current a b p hhex ih =>
    rw [Bool.and_eq_true] at hhex
    rw [ih]
    exact value_cons_iff fun _ => DoubleText.hex_iff hhex.1 hhex.2
  | case3 current a b p hhex ih =>
    rw [Bool.and_eq_true] at hhex
    have hno : ¬ HexAhead 120 (a :: b :: p) := by
      rintro ⟨-, a', b', q, heq, ha, hb⟩
      cases heq
      exact hhex ⟨ha, hb⟩
    rw [ih]
    exact value_cons_iff fun _ => DoubleText.escape_iff hno
  | case4 current c p hshort ih =>
    have hno : ¬ HexAhead c p := by
      rintro ⟨rfl, a, b, q, rfl, -⟩
      exact hshort a b q rfl rfl
    rw [ih]
    exact value_cons_iff fun _ => DoubleText.escape_iff hno
  | case5 current p hno hshort =>
    rw [closeQuote_eq_some_iff]
    exact value_nil_iff fun _ => DoubleText.close_iff
  | case6 current c p hno hshort hquote ih =>
    have hend : c = 92 → p = [] := by
      intro heq
      cases p with
      | nil => rfl
      | cons d p => exact (hshort d p heq rfl).elim
    rw [ih]
    exact value_cons_iff fun _ => DoubleText.plain_iff hquote hend

theorem singleQuoted_eq_some_iff :
    singleQuoted current p = some (token, rest) ↔
      ∃ v, SingleText p v rest ∧ token = current ++ v := by
  fun_induction singleQuoted current p with
  | case1 current =>
    simp only [reduceCtorEq, false_iff]
    rintro ⟨v, hv, -⟩
    cases hv
  | case2 current p ih =>
    rw [ih]
    exact value_cons_iff fun _ => SingleText.quote_iff
  | case3 current p hno =>
    rw [closeQuote_eq_some_iff]
    exact value_nil_iff fun _ => SingleText.close_iff
  | case4 current c p hno hquote ih =>
    have hnext : c = 92 → p.head? ≠ some 39 := by
      intro heq hhead
      cases p with
      | nil => cases hhead
      | cons d p =>
        cases hhead
        exact hno p heq rfl
    rw [ih]
    exact value_cons_iff fun _ => SingleText.plain_iff hquote hnext

theorem Word.nil_iff : Word [] v rest ↔ rest = [] ∧ v = [] := by
  constructor
  · intro h
    cases h
    exact ⟨rfl, rfl⟩
  · rintro ⟨rfl, rfl⟩
    exact .stop

theorem Word.break_iff (hc : IsBreak c) : Word (c :: p) v rest ↔ p = rest ∧ v = [] := by
  constructor
  · intro h
    cases h with
    | ends _ => exact ⟨rfl, rfl⟩
    | double _ => exact absurd hc (by decide)
    | single _ => exact absurd hc (by decide)
    | plain hno _ _ _ => exact absurd hc hno
  · rintro ⟨rfl, rfl⟩
    exact .ends hc

theorem Word.double_iff : Word (34 :: p) v rest ↔ DoubleText p v rest := by
  constructor
  · intro h
    cases h with
    | ends hc => exact absurd hc (by decide)
    | double hv => exact hv
    | plain _ hne _ _ => exact absurd rfl hne
  · exact .double

theorem Word.single_iff : Word (39 :: p) v rest ↔ SingleText p v rest := by
  constructor
  · intro h
    cases h with
    | ends hc => exact absurd hc (by decide)
    | single hv => exact hv
    | plain _ _ hne _ => exact absurd rfl hne
  · exact .single

theorem Word.plain_iff (hc : ¬ IsBreak c) (hdouble : c ≠ 34) (hsingle : c ≠ 39) :
    Word (c :: p) w rest ↔ ∃ v, w = c :: v ∧ Word p v rest := by
  constructor
  · intro h
    cases h with
    | ends hbreak => exact absurd hbreak hc
    | double _ => exact absurd rfl hdouble
    | single _ => exact absurd rfl hsingle
    | plain _ _ _ hv => exact ⟨_, rfl, hv⟩
  · rintro ⟨v, rfl, hv⟩
    exact .plain hc hdouble hsingle hv

theorem unquoted_eq_some_iff :
    unquoted current p = some (token, rest) ↔ ∃ v, Word p v rest ∧ token = current ++ v := by
  fun_induction unquoted current p with
  | case1 current =>
    rw [Option.some.injEq, Prod.mk.injEq, and_comm, eq_comm, @eq_comm _ current]
    exact value_nil_iff fun _ => Word.nil_iff
  | case2 current c p hbreak =>
    have hc : IsBreak c := by
      simpa [IsBreak, or_assoc] using hbreak
    rw [Option.some.injEq, Prod.mk.injEq, and_comm, @eq_comm _ current]
    exact value_nil_iff fun _ => Word.break_iff hc
  | case3 current p hbreak =>
    rw [doubleQuoted_eq_some_iff]
    simp only [Word.double_iff]
  | case4 current p hbreak hno =>
    rw [singleQuoted_eq_some_iff]
    simp only [Word.single_iff]
  | case5 current c p hbreak hdouble hsingle ih =>
    have hc : ¬ IsBreak c := by
      simpa [IsBreak, or_assoc] using hbreak
    rw [ih]
    exact value_cons_iff fun _ => Word.plain_iff hc hdouble hsingle

end

theorem unquoted_nil_iff {p v rest : Bytes} : unquoted [] p = some (v, rest) ↔ Word p v rest := by
  rw [unquoted_eq_some_iff]
  constructor
  · rintro ⟨v', hv, heq⟩
    rw [heq]
    exact hv
  · intro hv
    exact ⟨v, hv, rfl⟩

theorem DoubleText.length_lt {p v rest : Bytes} (h : DoubleText p v rest) :
    rest.length < p.length := by
  induction h with
  | close _ => simp
  | hex _ _ _ ih => simp only [List.length_cons]; omega
  | escape _ _ ih => simp only [List.length_cons]; omega
  | plain _ _ _ ih => simp only [List.length_cons]; omega

theorem SingleText.length_lt {p v rest : Bytes} (h : SingleText p v rest) :
    rest.length < p.length := by
  induction h with
  | close _ => simp
  | quote _ ih => simp only [List.length_cons]; omega
  | plain _ _ _ ih => simp only [List.length_cons]; omega

/-- A word takes at least one byte of the line. -/
theorem Word.length_le {p v rest : Bytes} (h : Word p v rest) : rest.length ≤ p.length - 1 := by
  induction h with
  | stop => simp
  | ends _ => simp
  | double hv => exact Nat.le_of_lt hv.length_lt
  | single hv => exact Nat.le_of_lt hv.length_lt
  | plain _ _ _ _ ih =>
    rw [List.length_cons, Nat.add_sub_cancel]
    omega

theorem line_nil_iff {words : List Bytes} : Line [] words ↔ words = [] := by
  constructor
  · intro h
    cases h
    rfl
  · rintro rfl
    exact .nil

theorem line_dropWhile {line : Bytes} {words : List Bytes} :
    Line (line.dropWhile isspace) words ↔ Line line words := by
  induction line with
  | nil => rfl
  | cons c p ih =>
    by_cases hc : isspace c = true
    · rw [List.dropWhile_cons_of_pos hc, ih]
      constructor
      · exact .space hc
      · intro h
        cases h with
        | space _ h => exact h
        | word hno _ _ => exact absurd hc (Bool.eq_false_iff.mp hno)
    · rw [List.dropWhile_cons_of_neg hc]

theorem line_word_iff {c : UInt8} {p : Bytes} {words : List Bytes} (hc : isspace c = false) :
    Line (c :: p) words ↔
      ∃ v rest words', Word (c :: p) v rest ∧ Line rest words' ∧ words = v :: words' := by
  constructor
  · intro h
    cases h with
    | space hspace _ => exact absurd hspace (Bool.eq_false_iff.mp hc)
    | word _ hv hrest => exact ⟨_, _, _, hv, hrest, rfl⟩
  · rintro ⟨v, rest, words', hv, hrest, rfl⟩
    exact .word hc hv hrest

theorem splitTokens_eq_some_iff {fuel : ℕ} {line : Bytes} {words : List Bytes}
    (hfuel : line.length < fuel) : splitTokens fuel line = some words ↔ Line line words := by
  induction fuel generalizing line words with
  | zero => exact absurd hfuel (Nat.not_lt_zero _)
  | succ fuel ih =>
    rw [splitTokens, ← line_dropWhile]
    have hle := List.length_dropWhile_le isspace line
    cases hline : line.dropWhile isspace with
    | nil =>
      rw [line_nil_iff]
      simp only [Option.some.injEq]
      exact eq_comm
    | cons c p =>
      rw [hline, List.length_cons] at hle
      have hc : isspace c = false := by
        have hhead := List.head?_dropWhile_not isspace line
        rw [hline] at hhead
        simpa using hhead
      rw [line_word_iff hc]
      cases hword : unquoted [] (c :: p) with
      | none =>
        simp only [hword, reduceCtorEq, false_iff]
        rintro ⟨v, rest, words', hv, -, -⟩
        rw [unquoted_nil_iff.mpr hv] at hword
        cases hword
      | some pair =>
        obtain ⟨token, rest⟩ := pair
        have htoken := unquoted_nil_iff.mp hword
        have hrest := htoken.length_le
        rw [List.length_cons, Nat.add_sub_cancel] at hrest
        simp only [hword, Option.map_eq_some_iff]
        constructor
        · rintro ⟨words', hsplit, rfl⟩
          exact ⟨token, rest, words', htoken, (ih (by omega)).mp hsplit, rfl⟩
        · rintro ⟨v, rest', words', hv, hline', rfl⟩
          have hsame := unquoted_nil_iff.mpr hv
          rw [hword] at hsame
          obtain ⟨hvalue, hrest'⟩ := Prod.mk.inj (Option.some.inj hsame)
          exact ⟨words', (ih (by omega)).mpr (hrest' ▸ hline'), by rw [hvalue]⟩

/-- The function accepts the lines of the grammar and no others. -/
theorem yaslsplitargs_eq_some_iff {line : Bytes} {words : List Bytes} :
    yaslsplitargs line = some words ↔ Line line words :=
  splitTokens_eq_some_iff (Nat.lt_succ_self _)

end Simvacation.CommandWords
