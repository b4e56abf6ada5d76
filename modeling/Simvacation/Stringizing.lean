import Simvacation.CString

/-!
The argument of a macro as a string. The C preprocessor puts the spelling of the
argument into a string literal: white space between tokens becomes one space, and
the quotes and backslashes of literals in it are escaped. What the literal stands
for is the argument again, but for its white space. Trigraphs are not replaced, as
by default.
-/

namespace Simvacation.Stringizing

open CString

/-- A character of an argument: white space, one of a literal, or another. -/
inductive Token where
  | space
  | quoted (c : UInt8)
  | plain (c : UInt8)
  deriving DecidableEq, Repr

/-- White space, but for the line feed. -/
def isBlank (c : UInt8) : Bool := c = 32 || c = 9 || c = 11 || c = 12

/-- Where a reader of the argument stands. -/
inductive Mode where
  | text
  | literal (quote : UInt8)
  | escape (quote : UInt8)
  | lineComment
  | commentOpen
  | comment
  | commentClose
  deriving DecidableEq, Repr

/-- Physical lines that end in a backslash go on in the next. -/
def splice : Bytes → Bytes
  | [] => []
  | [c] => [c]
  | c :: d :: s => if c = 92 ∧ d = lf then splice s else c :: splice (d :: s)

/-- The characters in front of what is read next. -/
def prepend (ts : List Token) (r : Option (List Token × Bytes)) : Option (List Token × Bytes) :=
  r.map fun x => (ts ++ x.1, x.2)

/-- Reads up to the parenthesis that closes the argument. A `#` that comes first in a
line, and a literal that does not end in its line, are errors. -/
def read : Mode → (depth : ℕ) → (fresh : Bool) → Bytes → Option (List Token × Bytes)
  | _, _, _, [] => none
  | .text, depth, fresh, c :: s =>
    if c = 34 ∨ c = 39 then prepend [.quoted c] (read (.literal c) depth false s)
    else if c = 47 ∧ s.head? = some 47 then read .lineComment depth fresh s
    else if c = 47 ∧ s.head? = some 42 then read .commentOpen depth fresh s
    else if c = lf then prepend [.space] (read .text depth true s)
    else if isBlank c then prepend [.space] (read .text depth fresh s)
    else if c = 35 ∧ fresh then none
    else if c = 40 then prepend [.plain c] (read .text (depth + 1) false s)
    else if c = 41 then
      if depth = 0 then some ([], s)
      else prepend [.plain c] (read .text (depth - 1) false s)
    else prepend [.plain c] (read .text depth false s)
  | .literal quote, depth, fresh, c :: s =>
    if c = lf then none
    else
      let next :=
        if c = quote then read .text depth fresh s
        else if c = 92 then read (.escape quote) depth fresh s
        else read (.literal quote) depth fresh s
      prepend [.quoted c] next
  | .escape quote, depth, fresh, c :: s =>
    if c = lf then none
    else prepend [.quoted c] (read (.literal quote) depth fresh s)
  | .lineComment, depth, fresh, c :: s =>
    if c = lf then prepend [.space] (read .text depth true s)
    else read .lineComment depth fresh s
  | .commentOpen, depth, fresh, _ :: s => read .comment depth fresh s
  | .comment, depth, fresh, c :: s =>
    if c = 42 ∧ s.head? = some 47 then read .commentClose depth fresh s
    else read .comment depth fresh s
  | .commentClose, depth, fresh, _ :: s =>
    prepend [.space] (read .text depth fresh s)

/-- One space for white space between tokens, none behind the last. -/
def squeeze : List Token → List Token
  | [] => []
  | .space :: ts =>
    match squeeze ts with
    | [] => []
    | .space :: ts => .space :: ts
    | ts => .space :: ts
  | t :: ts => t :: squeeze ts

def Token.text : Token → UInt8
  | .space => 32
  | .quoted c => c
  | .plain c => c

/-- How a character is spelled in the string literal. -/
def Token.spelling : Token → Bytes
  | .space => [32]
  | .quoted c => if c = 34 ∨ c = 92 then [92, c] else [c]
  | .plain c => [c]

/-- What stands between the quotes of the string literal. -/
def stringize (ts : List Token) : Bytes :=
  ((squeeze ts).dropWhile (· = .space)).flatMap Token.spelling

/-- The escape sequences of one character. -/
def simpleEscape (c : UInt8) : Option UInt8 :=
  if c = 34 ∨ c = 39 ∨ c = 63 ∨ c = 92 then some c
  else if c = 97 then some 7
  else if c = 98 then some 8
  else if c = 102 then some 12
  else if c = 110 then some 10
  else if c = 114 then some 13
  else if c = 116 then some 9
  else if c = 118 then some 11
  else none

/-- What a string literal stands for; other escape sequences are not read. -/
def literalValue : Bytes → Option Bytes
  | [] => some []
  | [c] => if c = 92 then none else some [c]
  | c :: d :: s =>
    if c = 92 then
      match simpleEscape d with
      | none => none
      | some e => (literalValue s).map (e :: ·)
    else (literalValue (d :: s)).map (c :: ·)

theorem literalValue_cons {c : UInt8} (h : c ≠ 92) (s : Bytes) :
    literalValue (c :: s) = (literalValue s).map (c :: ·) := by
  cases s with
  | nil => simp [literalValue, h]
  | cons d s => simp [literalValue, h]

/-- A character comes back from its spelling; a backslash outside of literals would not. -/
theorem literalValue_spelling {t : Token} (h : t ≠ .plain 92) (s : Bytes) :
    literalValue (t.spelling ++ s) = (literalValue s).map (t.text :: ·) := by
  cases t with
  | space => exact literalValue_cons (by decide) s
  | plain c => exact literalValue_cons (fun hc => h (congrArg Token.plain hc)) s
  | quoted c =>
    by_cases hc : c = 34 ∨ c = 92
    · have hescape : simpleEscape c = some c := by
        rcases hc with rfl | rfl <;> rfl
      simp [Token.spelling, hc, literalValue, hescape, Token.text]
    · have hne : c ≠ 92 := fun heq => hc (Or.inr heq)
      rw [Token.spelling, if_neg hc]
      exact literalValue_cons hne s

theorem literalValue_flatMap {ts : List Token} (h : ∀ t ∈ ts, t ≠ .plain 92) :
    literalValue (ts.flatMap Token.spelling) = some (ts.map Token.text) := by
  induction ts with
  | nil => rfl
  | cons t ts ih =>
    have hrest := ih fun u hu => h u (List.mem_cons_of_mem t hu)
    rw [List.flatMap_cons, literalValue_spelling (h t List.mem_cons_self), hrest]
    rfl

theorem squeeze_append_space {ts : List Token} (h : ∀ t ∈ ts, t ≠ .space) :
    squeeze (ts ++ [.space]) = ts := by
  induction ts with
  | nil => rfl
  | cons t ts ih =>
    have hrest := ih fun u hu => h u (List.mem_cons_of_mem t hu)
    cases t with
    | space => exact absurd rfl (h .space List.mem_cons_self)
    | quoted c =>
      rw [List.cons_append, squeeze, hrest]
      simp
    | plain c =>
      rw [List.cons_append, squeeze, hrest]
      simp

/-- The lines around an argument without white space leave no trace. -/
theorem stringize_lines {ts : List Token} (h : ∀ t ∈ ts, t ≠ .space) :
    stringize (.space :: ts ++ [.space]) = ts.flatMap Token.spelling := by
  have hsqueeze := squeeze_append_space h
  unfold stringize
  cases ts with
  | nil => rfl
  | cons t ts =>
    have ht := h t List.mem_cons_self
    rw [List.cons_append, squeeze, hsqueeze]
    cases t with
    | space => exact absurd rfl ht
    | quoted c => simp
    | plain c => simp

/-- A character that is a token, or part of one, wherever it stands outside of literals. -/
def isMark (c : UInt8) : Bool :=
  !(c = 34 || c = 39 || c = 47 || c = 35 || c = 40 || c = 41 || c = 92 || c = lf || isBlank c)

/-- What can stand between the quotes of a literal. -/
inductive LiteralBody : Bytes → Prop
  | nil : LiteralBody []
  | char {c : UInt8} {s : Bytes} (hc : c ≠ 34 ∧ c ≠ 92 ∧ c ≠ lf) (h : LiteralBody s) :
    LiteralBody (c :: s)
  | escape {c : UInt8} {s : Bytes} (hc : c ≠ lf) (h : LiteralBody s) : LiteralBody (92 :: c :: s)

/-- A piece of an argument that is read as these characters and no white space. -/
structure Spelled (text : Bytes) (ts : List Token) : Prop where
  reads : ∀ depth fresh s, ∃ fresh', read .text depth fresh (text ++ s) =
    prepend ts (read .text depth fresh' s)
  splices : ∀ s, splice (text ++ s) = text ++ splice s
  text : ts.map Token.text = text
  space : ∀ t ∈ ts, t ≠ .space
  backslash : ∀ t ∈ ts, t ≠ .plain 92

theorem prepend_nil (r : Option (List Token × Bytes)) : prepend [] r = r := by
  cases r with
  | none => rfl
  | some x => rfl

theorem prepend_prepend (ts us : List Token) (r : Option (List Token × Bytes)) :
    prepend ts (prepend us r) = prepend (ts ++ us) r := by
  cases r with
  | none => rfl
  | some x => simp [prepend]

theorem splice_cons {c : UInt8} (h : c ≠ 92) (s : Bytes) : splice (c :: s) = c :: splice s := by
  cases s with
  | nil => rfl
  | cons d s => simp [splice, h]

theorem splice_cons_of_head {c : UInt8} {s : Bytes} (h : s.head? ≠ some lf) :
    splice (c :: s) = c :: splice s := by
  cases s with
  | nil => rfl
  | cons d s =>
    have hd : d ≠ lf := by simpa using h
    simp [splice, hd]

theorem Spelled.nil : Spelled [] [] where
  reads _ fresh _ := ⟨fresh, (prepend_nil _).symm⟩
  splices _ := rfl
  text := rfl
  space _ h := absurd h List.not_mem_nil
  backslash _ h := absurd h List.not_mem_nil

theorem Spelled.append {a b : Bytes} {ts us : List Token} (ha : Spelled a ts) (hb : Spelled b us) :
    Spelled (a ++ b) (ts ++ us) where
  reads depth fresh s := by
    obtain ⟨fresh', hread⟩ := ha.reads depth fresh (b ++ s)
    obtain ⟨fresh'', hread'⟩ := hb.reads depth fresh' s
    refine ⟨fresh'', ?_⟩
    rw [List.append_assoc, hread, hread', prepend_prepend]
  splices s := by rw [List.append_assoc, ha.splices, hb.splices, List.append_assoc]
  text := by rw [List.map_append, ha.text, hb.text]
  space t ht := (List.mem_append.mp ht).elim (ha.space t) (hb.space t)
  backslash t ht := (List.mem_append.mp ht).elim (ha.backslash t) (hb.backslash t)

theorem Spelled.mark {c : UInt8} (h : isMark c = true) : Spelled [c] [.plain c] := by
  simp only [isMark, Bool.not_eq_true', Bool.or_eq_false_iff, decide_eq_false_iff_not] at h
  obtain ⟨⟨⟨⟨⟨⟨⟨⟨hquote, happ⟩, hslash⟩, hhash⟩, hopen⟩, hclose⟩, hback⟩, hlf⟩, hblank⟩ := h
  refine ⟨fun depth fresh s => ⟨false, ?_⟩, splice_cons hback, rfl, by simp, by simpa using hback⟩
  rw [List.singleton_append, read]
  simp only [hquote, happ, hslash, hhash, hopen, hclose, hlf, hblank, or_self, false_and, ite_false,
    Bool.false_eq_true]

theorem read_literal {body : Bytes} (h : LiteralBody body) (depth : ℕ) (fresh : Bool) (s : Bytes) :
    read (.literal 34) depth fresh (body ++ 34 :: s) =
      prepend ((body ++ [34]).map Token.quoted) (read .text depth fresh s) := by
  induction h with
  | nil => simp [read, lf]
  | char hc h ih =>
    obtain ⟨hquote, hback, hlf⟩ := hc
    rw [List.cons_append, read, if_neg hlf]
    simp only [if_neg hquote, if_neg hback, ih, prepend_prepend]
    rfl
  | @escape c body hc h ih =>
    have hlf : (92 : UInt8) ≠ lf := by decide
    have hquote : (92 : UInt8) ≠ 34 := by decide
    have hescape : read (.escape 34) depth fresh (c :: (body ++ 34 :: s)) =
        prepend [.quoted c] (read (.literal 34) depth fresh (body ++ 34 :: s)) := by
      simp [read, hc]
    rw [List.cons_append, List.cons_append, read, if_neg hlf]
    simp only [if_neg hquote, ite_true, hescape, ih, prepend_prepend]
    rfl

/-- A literal does not go on in the next line. -/
theorem splice_literal {body : Bytes} (h : LiteralBody body) (s : Bytes) :
    splice (body ++ 34 :: s) = body ++ splice (34 :: s) ∧ (body ++ 34 :: s).head? ≠ some lf := by
  induction h with
  | nil => exact ⟨rfl, by simp [lf]⟩
  | char hc h ih =>
    rw [List.cons_append, splice_cons hc.2.1, ih.1]
    exact ⟨rfl, by simpa using hc.2.2⟩
  | @escape c body hc h ih =>
    have hnext : (c :: (body ++ 34 :: s)).head? ≠ some lf := by simpa using hc
    rw [List.cons_append, List.cons_append, splice_cons_of_head hnext, splice_cons_of_head ih.2,
      ih.1]
    exact ⟨rfl, by simp [lf]⟩

theorem Spelled.string {body : Bytes} (h : LiteralBody body) :
    Spelled (34 :: body ++ [34]) ((34 :: body ++ [34]).map Token.quoted) where
  reads depth fresh s := by
    refine ⟨false, ?_⟩
    have hread := read_literal h depth false s
    have hopen : read .text depth fresh (34 :: (body ++ 34 :: s)) =
        prepend [.quoted 34] (read (.literal 34) depth false (body ++ 34 :: s)) := by
      simp [read]
    simp only [List.cons_append, List.append_assoc, List.nil_append, hopen, hread,
      prepend_prepend, List.map_cons]
  splices s := by
    have hsplice := (splice_literal h s).1
    have hclose : splice (34 :: s) = 34 :: splice s := splice_cons (by decide) s
    simp only [List.cons_append, List.append_assoc, List.nil_append]
    rw [splice_cons (by decide), hsplice, hclose]
  text := by
    rw [List.map_map]
    exact List.map_id _
  space t ht := by
    obtain ⟨c, -, rfl⟩ := List.mem_map.mp ht
    simp
  backslash t ht := by
    obtain ⟨c, -, rfl⟩ := List.mem_map.mp ht
    simp

theorem Spelled.marks {text : Bytes} (h : ∀ c ∈ text, isMark c = true) :
    Spelled text (text.map Token.plain) := by
  induction text with
  | nil => exact Spelled.nil
  | cons c text ih =>
    exact (Spelled.mark (h c List.mem_cons_self)).append
      (ih fun d hd => h d (List.mem_cons_of_mem c hd))

end Simvacation.Stringizing
