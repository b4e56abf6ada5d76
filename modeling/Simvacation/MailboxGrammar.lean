import Simvacation.CString

/-!
The mailboxes of a From field. Each relation takes a piece from the front of a
text: it relates the text, what the piece stands for, and what is left behind
it. The forms that only old messages use are left out. White space and comments
around a word are no part of it.
-/

namespace Simvacation.MailboxGrammar

open CString

def isBlank (c : UInt8) : Bool := c = 32 || c = 9

/-- The bytes of an atom. -/
def isAtext (c : UInt8) : Bool :=
  (65 ≤ c && c ≤ 90) || (97 ≤ c && c ≤ 122) || isdigit c || (bytes "!#$%&'*+-/=?^_").contains c ||
    c = 96 || (123 ≤ c && c ≤ 126)

def isQtext (c : UInt8) : Bool := c = 33 || (35 ≤ c && c ≤ 91) || (93 ≤ c && c ≤ 126)

def isCtext (c : UInt8) : Bool :=
  (33 ≤ c && c ≤ 39) || (42 ≤ c && c ≤ 91) || (93 ≤ c && c ≤ 126)

def isDtext (c : UInt8) : Bool := (33 ≤ c && c ≤ 90) || (94 ≤ c && c ≤ 126)

/-- What may follow the backslash of a pair. -/
def isQuotable (c : UInt8) : Bool := (33 ≤ c && c ≤ 126) || isBlank c

inductive Blanks : Bytes → Bytes → Bytes → Prop where
  | nil {p : Bytes} : Blanks p [] p
  | cons {c : UInt8} {p v rest : Bytes} : isBlank c = true → Blanks p v rest →
      Blanks (c :: p) (c :: v) rest

/-- Optional white space. A line break in it is invisible. -/
inductive OptFws : Bytes → Bytes → Bytes → Prop where
  | blanks {p v rest : Bytes} : Blanks p v rest → OptFws p v rest
  | folded {c : UInt8} {p q v w rest : Bytes} : Blanks p v (13 :: 10 :: c :: q) →
      isBlank c = true → Blanks q w rest → OptFws p (v ++ c :: w) rest

/-- A comment behind its opening parenthesis, and what is left behind it. -/
inductive CommentText : Bytes → Bytes → Prop where
  | close {p v rest : Bytes} : OptFws p v (41 :: rest) → CommentText p rest
  | text {c : UInt8} {p q v rest : Bytes} : OptFws p v (c :: q) → isCtext c = true →
      CommentText q rest → CommentText p rest
  | pair {c : UInt8} {p q v rest : Bytes} : OptFws p v (92 :: c :: q) → isQuotable c = true →
      CommentText q rest → CommentText p rest
  | nested {p q q' v rest : Bytes} : OptFws p v (40 :: q) → CommentText q q' →
      CommentText q' rest → CommentText p rest

/-- Optional white space and comments. -/
inductive OptCfws : Bytes → Bytes → Prop where
  | fws {p v rest : Bytes} : OptFws p v rest → OptCfws p rest
  | comment {p q q' v rest : Bytes} : OptFws p v (40 :: q) → CommentText q q' →
      OptCfws q' rest → OptCfws p rest

/-- A quoted string behind its opening quote. -/
inductive QuotedText : Bytes → Bytes → Bytes → Prop where
  | close {p v rest : Bytes} : OptFws p v (34 :: rest) → QuotedText p v rest
  | text {c : UInt8} {p q v w rest : Bytes} : OptFws p v (c :: q) → isQtext c = true →
      QuotedText q w rest → QuotedText p (v ++ c :: w) rest
  | pair {c : UInt8} {p q v w rest : Bytes} : OptFws p v (92 :: c :: q) → isQuotable c = true →
      QuotedText q w rest → QuotedText p (v ++ c :: w) rest

inductive QuotedString : Bytes → Bytes → Bytes → Prop where
  | quoted {p q q' v rest : Bytes} : OptCfws p (34 :: q) → QuotedText q v q' → OptCfws q' rest →
      QuotedString p v rest

/-- At least one byte of an atom. -/
inductive AtomText : Bytes → Bytes → Bytes → Prop where
  | one {c : UInt8} {p : Bytes} : isAtext c = true → AtomText (c :: p) [c] p
  | cons {c : UInt8} {p v rest : Bytes} : isAtext c = true → AtomText p v rest →
      AtomText (c :: p) (c :: v) rest

/-- Atoms with a dot between them. -/
inductive DotAtomText : Bytes → Bytes → Bytes → Prop where
  | atom {p v rest : Bytes} : AtomText p v rest → DotAtomText p v rest
  | dot {p q v w rest : Bytes} : AtomText p v (46 :: q) → DotAtomText q w rest →
      DotAtomText p (v ++ 46 :: w) rest

inductive Word : Bytes → Bytes → Bytes → Prop where
  | atom {p q q' v rest : Bytes} : OptCfws p q → AtomText q v q' → OptCfws q' rest → Word p v rest
  | quoted {p v rest : Bytes} : QuotedString p v rest → Word p v rest

/-- Words. What stands between two of them counts as one space. -/
inductive Phrase : Bytes → Bytes → Bytes → Prop where
  | one {p v rest : Bytes} : Word p v rest → Phrase p v rest
  | more {p q v w rest : Bytes} : Word p v q → Phrase q w rest → Phrase p (v ++ 32 :: w) rest

/-- A domain literal behind its opening bracket. -/
inductive LiteralText : Bytes → Bytes → Bytes → Prop where
  | close {p v rest : Bytes} : OptFws p v (93 :: rest) → LiteralText p (v ++ [93]) rest
  | text {c : UInt8} {p q v w rest : Bytes} : OptFws p v (c :: q) → isDtext c = true →
      LiteralText q w rest → LiteralText p (v ++ c :: w) rest

inductive LocalPart : Bytes → Bytes → Bytes → Prop where
  | dotAtom {p q q' v rest : Bytes} : OptCfws p q → DotAtomText q v q' → OptCfws q' rest →
      LocalPart p v rest
  | quoted {p v rest : Bytes} : QuotedString p v rest → LocalPart p v rest

inductive Domain : Bytes → Bytes → Bytes → Prop where
  | dotAtom {p q q' v rest : Bytes} : OptCfws p q → DotAtomText q v q' → OptCfws q' rest →
      Domain p v rest
  | literal {p q q' v rest : Bytes} : OptCfws p (91 :: q) → LiteralText q v q' →
      OptCfws q' rest → Domain p (91 :: v) rest

structure Mailbox where
  displayName : Option Bytes
  localPart : Bytes
  domain : Bytes
  deriving DecidableEq, Repr

inductive AddrSpec : Bytes → Bytes → Bytes → Bytes → Prop where
  | addr {p q l d rest : Bytes} : LocalPart p l (64 :: q) → Domain q d rest → AddrSpec p l d rest

inductive AngleAddr : Bytes → Bytes → Bytes → Bytes → Prop where
  | angle {p q q' l d rest : Bytes} : OptCfws p (60 :: q) → AddrSpec q l d (62 :: q') →
      OptCfws q' rest → AngleAddr p l d rest

inductive MailboxText : Bytes → Mailbox → Bytes → Prop where
  | addr {p l d rest : Bytes} : AddrSpec p l d rest → MailboxText p ⟨none, l, d⟩ rest
  | angle {p l d rest : Bytes} : AngleAddr p l d rest → MailboxText p ⟨none, l, d⟩ rest
  | named {p q v l d rest : Bytes} : Phrase p v q → AngleAddr q l d rest →
      MailboxText p ⟨some v, l, d⟩ rest

/-- One mailbox or several with commas between them. -/
inductive MailboxList : Bytes → List Mailbox → Prop where
  | one {p : Bytes} {m : Mailbox} : MailboxText p m [] → MailboxList p [m]
  | cons {p q : Bytes} {m : Mailbox} {ms : List Mailbox} : MailboxText p m (44 :: q) →
      MailboxList q ms → MailboxList p (m :: ms)

/-- A From field and its mailboxes. -/
inductive FromField : Bytes → List Mailbox → Prop where
  | field {name body : Bytes} {ms : List Mailbox} : lower name = bytes "from" →
      MailboxList body ms → FromField (name ++ 58 :: body) ms

/-- A text whose first byte, after blanks, is `c` with `q` behind it. -/
def Ahead (c : UInt8) (q p : Bytes) : Prop := ∃ b, (∀ d ∈ b, isBlank d = true) ∧ p = b ++ c :: q

/-- A byte that starts neither white space nor a comment. -/
def Solid (c : UInt8) : Prop := isBlank c = false ∧ c ≠ 13 ∧ c ≠ 40

instance (c : UInt8) : Decidable (Solid c) :=
  inferInstanceAs (Decidable (isBlank c = false ∧ c ≠ 13 ∧ c ≠ 40))

section

variable {c d : UInt8} {p q r v rest : Bytes}

theorem ahead_self (c : UInt8) (q : Bytes) : Ahead c q (c :: q) :=
  ⟨[], fun _ hd => absurd hd List.not_mem_nil, rfl⟩

theorem ahead_blank (hd : isBlank d = true) (h : Ahead c q p) : Ahead c q (d :: p) := by
  obtain ⟨b, hb, rfl⟩ := h
  exact ⟨d :: b, List.forall_mem_cons.mpr ⟨hd, hb⟩, rfl⟩

theorem ahead_cons (h : Ahead c q (d :: p)) : isBlank d = true ∧ Ahead c q p ∨ d = c ∧ p = q := by
  obtain ⟨b, hb, heq⟩ := h
  cases b with
  | nil => exact Or.inr (List.cons.inj heq)
  | cons e b =>
    obtain ⟨rfl, hp⟩ := List.cons.inj heq
    obtain ⟨hd, hrest⟩ := List.forall_mem_cons.mp hb
    exact Or.inl ⟨hd, b, hrest, hp⟩

theorem ahead_inj (hd : isBlank d = false) (h : Ahead c q (d :: p)) : d = c ∧ p = q := by
  rcases ahead_cons h with ⟨hblank, -⟩ | heq
  · rw [hd] at hblank
    cases hblank
  · exact heq

theorem Blanks.ahead (h : Blanks p v rest) (hc : isBlank c = false) (hp : Ahead c q p) :
    Ahead c q rest := by
  induction h with
  | nil => exact hp
  | cons hd _ ih =>
    rcases ahead_cons hp with ⟨-, htail⟩ | ⟨rfl, -⟩
    · exact ih htail
    · rw [hc] at hd
      cases hd

theorem OptFws.ahead (h : OptFws p v rest) (hc : Solid c) (hp : Ahead c q p) :
    Ahead c q rest := by
  cases h with
  | blanks hb => exact hb.ahead hc.1 hp
  | folded hb _ _ =>
    have hcr := ahead_inj (by decide) (hb.ahead hc.1 hp)
    exact absurd hcr.1.symm hc.2.1

/-- White space and comments end in front of a byte that starts neither. -/
theorem OptCfws.ahead (h : OptCfws p rest) (hc : Solid c) (hp : Ahead c q p) :
    Ahead c q rest := by
  cases h with
  | fws hf => exact hf.ahead hc hp
  | comment hf _ _ =>
    have hparen := ahead_inj (by decide) (hf.ahead hc hp)
    exact absurd hparen.1.symm hc.2.2

/-- Behind white space and comments, a text is read on from its first solid byte. -/
theorem OptCfws.reach (h : OptCfws p (d :: r)) (hc : Solid c) (hd : isBlank d = false)
    (hp : Ahead c q p) : d = c ∧ r = q :=
  ahead_inj hd (h.ahead hc hp)

theorem OptCfws.refl (p : Bytes) : OptCfws p p := .fws (.blanks .nil)

theorem OptCfws.nil (h : OptCfws [] rest) : rest = [] := by
  have hfws : ∀ {v rest}, OptFws [] v rest → rest = [] := by
    intro v rest hf
    cases hf with
    | blanks hb =>
      cases hb
      rfl
    | folded hb _ _ => cases hb
  cases h with
  | fws hf => exact hfws hf
  | comment hf _ _ => cases hfws hf

theorem OptFws.cons (hc : isBlank c = true) (h : OptFws p v rest) :
    OptFws (c :: p) (c :: v) rest := by
  cases h with
  | blanks hb => exact .blanks (.cons hc hb)
  | folded hb hd hrest => exact .folded (.cons hc hb) hd hrest

/-- White space takes a blank if something else comes behind it. -/
theorem OptFws.of_cons (hc : isBlank c = true) (hd : isBlank d = false)
    (h : OptFws (c :: p) v (d :: q)) : ∃ w, v = c :: w ∧ OptFws p w (d :: q) := by
  cases h with
  | blanks hb =>
    cases hb with
    | nil =>
      rw [hc] at hd
      cases hd
    | cons _ hb => exact ⟨_, rfl, .blanks hb⟩
  | folded hb he hrest =>
    cases hb with
    | nil => exact absurd hc (by decide)
    | cons _ hb => exact ⟨_, rfl, .folded hb he hrest⟩

theorem OptFws.eq_of_solid (hc : isBlank c = false) (hcr : c ≠ 13) (h : OptFws (c :: p) v rest) :
    v = [] ∧ rest = c :: p := by
  have hblanks : ∀ {v rest}, Blanks (c :: p) v rest → v = [] ∧ rest = c :: p := by
    intro v rest hb
    cases hb with
    | nil => exact ⟨rfl, rfl⟩
    | cons hblank _ =>
      rw [hc] at hblank
      cases hblank
  cases h with
  | blanks hb => exact hblanks hb
  | folded hb _ _ => exact absurd (List.cons.inj (hblanks hb).2).1.symm hcr

theorem not_blank_of_isQtext : isQtext c = true → isBlank c = false ∧ c ≠ 13 ∧ c ≠ 34 ∧ c ≠ 92 := by
  apply forall_byte (P := fun c => isQtext c = true → isBlank c = false ∧ c ≠ 13 ∧ c ≠ 34 ∧ c ≠ 92)
  decide +kernel

theorem QuotedText.close_iff : QuotedText (34 :: p) v rest ↔ v = [] ∧ rest = p := by
  constructor
  · intro h
    cases h with
    | close hf =>
      obtain ⟨rfl, heq⟩ := hf.eq_of_solid (by decide) (by decide)
      exact ⟨rfl, (List.cons.inj heq).2⟩
    | text hf hc _ =>
      obtain ⟨rfl, heq⟩ := hf.eq_of_solid (by decide) (by decide)
      exact absurd (List.cons.inj heq).1 (not_blank_of_isQtext hc).2.2.1
    | pair hf _ _ =>
      obtain ⟨rfl, heq⟩ := hf.eq_of_solid (by decide) (by decide)
      exact absurd (List.cons.inj heq).1 (by decide)
  · rintro ⟨rfl, rfl⟩
    exact .close (.blanks .nil)

theorem QuotedText.blank_iff (hc : isBlank c = true) :
    QuotedText (c :: p) v rest ↔ ∃ w, v = c :: w ∧ QuotedText p w rest := by
  constructor
  · intro h
    cases h with
    | close hf =>
      obtain ⟨w, rfl, hw⟩ := hf.of_cons hc (by decide)
      exact ⟨w, rfl, .close hw⟩
    | text hf hd hq =>
      obtain ⟨w, rfl, hw⟩ := hf.of_cons hc (not_blank_of_isQtext hd).1
      exact ⟨_, rfl, .text hw hd hq⟩
    | pair hf hd hq =>
      obtain ⟨w, rfl, hw⟩ := hf.of_cons hc (by decide)
      exact ⟨_, rfl, .pair hw hd hq⟩
  · rintro ⟨w, rfl, h⟩
    cases h with
    | close hf => exact .close (hf.cons hc)
    | text hf hd hq => exact .text (hf.cons hc) hd hq
    | pair hf hd hq => exact .pair (hf.cons hc) hd hq

theorem QuotedText.text_iff (hc : isQtext c = true) :
    QuotedText (c :: p) v rest ↔ ∃ w, v = c :: w ∧ QuotedText p w rest := by
  obtain ⟨hblank, hcr, hquote, hescape⟩ := not_blank_of_isQtext hc
  constructor
  · intro h
    cases h with
    | close hf =>
      obtain ⟨rfl, heq⟩ := hf.eq_of_solid hblank hcr
      exact absurd (List.cons.inj heq).1.symm hquote
    | text hf _ hq =>
      obtain ⟨rfl, heq⟩ := hf.eq_of_solid hblank hcr
      obtain ⟨rfl, rfl⟩ := List.cons.inj heq
      exact ⟨_, rfl, hq⟩
    | pair hf _ _ =>
      obtain ⟨rfl, heq⟩ := hf.eq_of_solid hblank hcr
      exact absurd (List.cons.inj heq).1.symm hescape
  · rintro ⟨w, rfl, h⟩
    exact .text (.blanks .nil) hc h

/-- A string without quotes and backslashes is quoted as it is, and read in one way. -/
theorem QuotedText.plain_iff {s : Bytes} (hs : ∀ c ∈ s, isBlank c = true ∨ isQtext c = true) :
    QuotedText (s ++ 34 :: p) v rest ↔ v = s ∧ rest = p := by
  induction s generalizing v with
  | nil => exact close_iff
  | cons c s ih =>
    obtain ⟨hc, hs⟩ := List.forall_mem_cons.mp hs
    have hstep : QuotedText (c :: (s ++ 34 :: p)) v rest ↔
        ∃ w, v = c :: w ∧ QuotedText (s ++ 34 :: p) w rest := by
      rcases hc with hblank | htext
      · exact blank_iff hblank
      · exact text_iff htext
    rw [List.cons_append, hstep]
    constructor
    · rintro ⟨w, rfl, hw⟩
      obtain ⟨rfl, rfl⟩ := (ih hs).mp hw
      exact ⟨rfl, rfl⟩
    · rintro ⟨rfl, rfl⟩
      exact ⟨s, rfl, (ih hs).mpr ⟨rfl, rfl⟩⟩

end

def isDotAtomChar (c : UInt8) : Bool := isAtext c || c = 46

/-- The whole of a string is a dot-atom. -/
def DotAtom (s : Bytes) : Prop := DotAtomText s s []

theorem solid_of_isDotAtomChar {c : UInt8} : isDotAtomChar c = true → Solid c := by
  apply forall_byte (P := fun c => isDotAtomChar c = true → Solid c)
  decide +kernel

theorem isDotAtomChar_of_isAtext {c : UInt8} (h : isAtext c = true) : isDotAtomChar c = true := by
  simp [isDotAtomChar, h]

section

variable {p q r s v y z rest : Bytes} {k : UInt8}

theorem AtomText.parts (h : AtomText p v rest) :
    p = v ++ rest ∧ (∀ c ∈ v, isAtext c = true) ∧ v ≠ [] := by
  induction h with
  | one hc => exact ⟨rfl, by simpa using hc, List.cons_ne_nil _ _⟩
  | cons hc _ ih =>
    obtain ⟨rfl, hv, -⟩ := ih
    exact ⟨rfl, List.forall_mem_cons.mpr ⟨hc, hv⟩, List.cons_ne_nil _ _⟩

theorem AtomText.head (h : AtomText p v rest) : ∃ c t, v = c :: t ∧ isAtext c = true := by
  obtain ⟨c, t, rfl⟩ := List.exists_cons_of_ne_nil h.parts.2.2
  exact ⟨c, t, rfl, h.parts.2.1 c List.mem_cons_self⟩

theorem AtomText.append (h : AtomText p v rest) (r : Bytes) :
    AtomText (p ++ r) v (rest ++ r) := by
  induction h with
  | one hc => exact .one hc
  | cons hc _ ih => exact .cons hc ih

theorem DotAtomText.parts (h : DotAtomText p v rest) :
    p = v ++ rest ∧ (∀ c ∈ v, isDotAtomChar c = true) ∧ ∃ c t, v = c :: t ∧ isAtext c = true := by
  have hchars : ∀ {p v rest}, AtomText p v rest → ∀ c ∈ v, isDotAtomChar c = true :=
    fun ha c hc => isDotAtomChar_of_isAtext (ha.parts.2.1 c hc)
  induction h with
  | atom ha => exact ⟨ha.parts.1, hchars ha, ha.head⟩
  | @dot p q v w rest ha _ ih =>
    obtain ⟨rfl, hw, -⟩ := ih
    obtain ⟨c, t, rfl, hc⟩ := ha.head
    refine ⟨by simp [ha.parts.1], ?_, c, t ++ 46 :: w, rfl, hc⟩
    exact List.forall_mem_append.mpr ⟨hchars ha, List.forall_mem_cons.mpr ⟨by decide, hw⟩⟩

theorem DotAtomText.append (h : DotAtomText p v rest) (r : Bytes) :
    DotAtomText (p ++ r) v (rest ++ r) := by
  induction h with
  | atom ha => exact .atom (ha.append r)
  | dot ha _ ih => exact .dot (ha.append r) ih

theorem DotAtom.reads (h : DotAtom s) (r : Bytes) : DotAtomText (s ++ r) s r :=
  DotAtomText.append h r

theorem atomText_append (hne : v ≠ []) (h : ∀ c ∈ v, isAtext c = true) (r : Bytes) :
    AtomText (v ++ r) v r := by
  induction v with
  | nil => exact absurd rfl hne
  | cons c v ih =>
    obtain ⟨hc, hv⟩ := List.forall_mem_cons.mp h
    cases v with
    | nil => exact .one hc
    | cons d v => exact .cons hc (ih (List.cons_ne_nil d v) hv)

theorem DotAtom.of_atom (hne : v ≠ []) (h : ∀ c ∈ v, isAtext c = true) : DotAtom v := by
  have hv := atomText_append hne h []
  rw [List.append_nil] at hv
  exact .atom hv

theorem DotAtom.cons_atom (hne : v ≠ []) (h : ∀ c ∈ v, isAtext c = true) (hs : DotAtom s) :
    DotAtom (v ++ 46 :: s) :=
  .dot (atomText_append hne h _) hs

theorem DotAtom.notMem (h : DotAtom s) {c : UInt8} (hc : isDotAtomChar c = false) : c ∉ s := by
  intro hmem
  rw [h.parts.2.1 c hmem] at hc
  cases hc

theorem DotAtom.head (h : DotAtom s) : ∃ c t, s = c :: t ∧ isAtext c = true := h.parts.2.2

/-- Nothing is passed over in front of a solid byte. -/
theorem OptCfws.solid {c d : UInt8} (h : OptCfws (c :: p) (d :: q)) (hc : Solid c)
    (hd : isBlank d = false) : d = c ∧ q = p :=
  h.reach hc hd (ahead_self c p)

/-- A dot-atom in front of another sign is read to its end. -/
theorem DotAtom.ends (hs : DotAtom s) (hk : isDotAtomChar k = false) (hsolid : Solid k)
    (h : DotAtomText (s ++ k :: y) v q) (hq : OptCfws q (k :: z)) : v = s ∧ z = y := by
  obtain ⟨heq, hv, -⟩ := h.parts
  rcases List.append_eq_append_iff.mp heq with ⟨more, rfl, hmore⟩ | ⟨more, rfl, rfl⟩
  · cases more with
    | nil =>
      rw [List.nil_append] at hmore
      rw [← hmore] at hq
      exact ⟨List.append_nil s, (hq.solid hsolid hsolid.1).2⟩
    | cons e more =>
      have hke := (List.cons.inj hmore).1
      have hchar := hv e (List.mem_append_right s List.mem_cons_self)
      rw [← hke, hk] at hchar
      cases hchar
  · cases more with
    | nil => exact ⟨(List.append_nil v).symm, (hq.solid hsolid hsolid.1).2⟩
    | cons e more =>
      have hchar := hs.parts.2.1 e (List.mem_append_right v List.mem_cons_self)
      have hke := (hq.solid (solid_of_isDotAtomChar hchar) hsolid.1).1
      rw [← hke, hk] at hchar
      cases hchar

theorem DotAtom.around (hs : DotAtom s) (hk : isDotAtomChar k = false) (hsolid : Solid k)
    {q' : Bytes} (hfront : OptCfws (s ++ k :: y) q) (h : DotAtomText q v q')
    (hq : OptCfws q' (k :: z)) : v = s ∧ z = y := by
  obtain ⟨c, t, hsplit, hc⟩ := hs.head
  obtain ⟨heq, -, e, u, rfl, he⟩ := h.parts
  have hsame : q = s ++ k :: y := by
    rw [hsplit] at hfront ⊢
    rw [heq] at hfront ⊢
    obtain ⟨rfl, htail⟩ := hfront.solid (solid_of_isDotAtomChar (isDotAtomChar_of_isAtext hc))
      (solid_of_isDotAtomChar (isDotAtomChar_of_isAtext he)).1
    exact congrArg (List.cons e) htail
  rw [hsame] at h
  exact hs.ends hk hsolid h hq

/-- In front of a dot-atom no other sign can be read. -/
theorem DotAtom.sign_ne (hs : DotAtom s) (hk : isDotAtomChar k = false) (hblank : isBlank k = false)
    (h : OptCfws (s ++ r) (k :: q)) : False := by
  obtain ⟨c, t, rfl, hc⟩ := hs.head
  have hchar := isDotAtomChar_of_isAtext hc
  have hkc := (h.solid (solid_of_isDotAtomChar hchar) hblank).1
  rw [← hkc, hk] at hchar
  cases hchar

theorem LocalPart.eq_of_dotAtom (hs : DotAtom s) (h : LocalPart (s ++ 64 :: y) v (64 :: z)) :
    v = s ∧ z = y := by
  cases h with
  | dotAtom hfront hv hrest => exact hs.around (by decide) (by decide) hfront hv hrest
  | quoted hq =>
    cases hq with
    | quoted hfront _ _ => exact (hs.sign_ne (by decide) (by decide) hfront).elim

theorem Domain.eq_of_dotAtom (hs : DotAtom s) (h : Domain (s ++ 62 :: y) v (62 :: z)) :
    v = s ∧ z = y := by
  cases h with
  | dotAtom hfront hv hrest => exact hs.around (by decide) (by decide) hfront hv hrest
  | literal hfront _ _ => exact (hs.sign_ne (by decide) (by decide) hfront).elim

/-- Behind white space and a quote, a quoted string is read from there. -/
theorem QuotedString.of_ahead (hp : Ahead 34 q p) (h : QuotedString p v rest) :
    ∃ q', QuotedText q v q' ∧ OptCfws q' rest := by
  cases h with
  | quoted hfront hv hrest =>
    obtain ⟨-, rfl⟩ := hfront.reach (by decide) (by decide) hp
    exact ⟨_, hv, hrest⟩

theorem not_atext_ahead (hk : isAtext k = false) (hsolid : Solid k) (hp : Ahead k r p)
    (hfront : OptCfws p q) (h : AtomText q v rest) : False := by
  obtain ⟨c, t, rfl, hc⟩ := h.head
  have hq := hfront.ahead hsolid hp
  rw [h.parts.1, List.cons_append] at hq
  have hchar := solid_of_isDotAtomChar (isDotAtomChar_of_isAtext hc)
  rw [(ahead_inj hchar.1 hq).1, hk] at hc
  cases hc

theorem DotAtomText.head_atom (h : DotAtomText p v rest) : ∃ w q, AtomText p w q := by
  cases h with
  | atom ha => exact ⟨_, _, ha⟩
  | dot ha _ => exact ⟨_, _, ha⟩

theorem Word.of_ahead (hp : Ahead 34 q p) (h : Word p v rest) :
    ∃ q', QuotedText q v q' ∧ OptCfws q' rest := by
  cases h with
  | atom hfront hv _ => exact (not_atext_ahead (by decide) (by decide) hp hfront hv).elim
  | quoted hq => exact hq.of_ahead hp

theorem LocalPart.of_ahead (hp : Ahead 34 q p) (h : LocalPart p v rest) :
    ∃ q', QuotedText q v q' ∧ OptCfws q' rest := by
  cases h with
  | dotAtom hfront hv _ =>
    obtain ⟨w, q', ha⟩ := hv.head_atom
    exact (not_atext_ahead (by decide) (by decide) hp hfront ha).elim
  | quoted hq => exact hq.of_ahead hp

/-- No word starts at an angle bracket. -/
theorem Phrase.not_ahead_angle (hp : Ahead 60 q p) (h : Phrase p v rest) : False := by
  have hword : ∀ {v rest}, Word p v rest → False := by
    intro v rest hw
    cases hw with
    | atom hfront hv _ => exact not_atext_ahead (by decide) (by decide) hp hfront hv
    | quoted hq =>
      cases hq with
      | quoted hfront _ _ =>
        exact absurd (hfront.reach (by decide) (by decide) hp).1 (by decide)
  cases h with
  | one hw => exact hword hw
  | more hw _ => exact hword hw

end

/-- A mailbox with its name in quotes, and `r` behind it. -/
def quotedMailbox (s l d r : Bytes) : Bytes :=
  34 :: (s ++ 34 :: 32 :: 60 :: (l ++ 64 :: (d ++ 62 :: r)))

def isMark (c : UInt8) : Bool := c = 34 || c = 92

/-- The quotes and backslashes of a text. -/
def marks (s : Bytes) : ℕ := s.countP isMark

@[simp] theorem marks_nil : marks [] = 0 := rfl

@[simp] theorem marks_cons (c : UInt8) (s : Bytes) :
    marks (c :: s) = marks s + if isMark c then 1 else 0 := List.countP_cons

@[simp] theorem marks_append (s t : Bytes) : marks (s ++ t) = marks s + marks t :=
  List.countP_append

theorem marks_eq_zero_of_forall {s : Bytes} (h : ∀ c ∈ s, isMark c = false) : marks s = 0 := by
  apply List.countP_eq_zero.mpr
  intro c hc
  rw [h c hc]
  exact Bool.false_ne_true

theorem notMem_of_marks {s : Bytes} (h : marks s = 0) : 34 ∉ s ∧ 92 ∉ s := by
  have hall := List.countP_eq_zero.mp h
  exact ⟨fun hmem => hall 34 hmem (by decide), fun hmem => hall 92 hmem (by decide)⟩

section

variable {p q s l d r v rest : Bytes} {m : Mailbox}

theorem not_mark_of_isBlank {c : UInt8} : isBlank c = true → isMark c = false := by
  apply forall_byte (P := fun c => isBlank c = true → isMark c = false)
  decide +kernel

theorem not_mark_of_isDotAtomChar {c : UInt8} : isDotAtomChar c = true → isMark c = false := by
  apply forall_byte (P := fun c => isDotAtomChar c = true → isMark c = false)
  decide +kernel

theorem DotAtom.marks_eq_zero (h : DotAtom s) : marks s = 0 :=
  marks_eq_zero_of_forall fun c hc => not_mark_of_isDotAtomChar (h.parts.2.1 c hc)

theorem Blanks.marks_eq (h : Blanks p v rest) : marks v = 0 ∧ marks p = marks rest := by
  induction h with
  | nil => exact ⟨rfl, rfl⟩
  | cons hc _ ih => simpa [not_mark_of_isBlank hc] using ih

theorem OptFws.marks_eq (h : OptFws p v rest) : marks v = 0 ∧ marks p = marks rest := by
  cases h with
  | blanks hb => exact hb.marks_eq
  | folded hb hc hrest =>
    obtain ⟨hv, hp⟩ := hb.marks_eq
    obtain ⟨hw, hq⟩ := hrest.marks_eq
    have hcr : isMark 13 = false := by decide
    have hlf : isMark 10 = false := by decide
    simp [hv, hp, hw, hq, hcr, hlf, not_mark_of_isBlank hc]

theorem CommentText.marks_le (h : CommentText p rest) : marks rest ≤ marks p := by
  induction h with
  | close hf =>
    have hp := hf.marks_eq.2
    rw [marks_cons] at hp
    omega
  | text hf _ _ ih =>
    have hp := hf.marks_eq.2
    rw [marks_cons] at hp
    omega
  | pair hf _ _ ih =>
    have hp := hf.marks_eq.2
    rw [marks_cons, marks_cons] at hp
    omega
  | nested hf _ _ ih ih' =>
    have hp := hf.marks_eq.2
    rw [marks_cons] at hp
    omega

theorem OptCfws.marks_le (h : OptCfws p rest) : marks rest ≤ marks p := by
  induction h with
  | fws hf => exact hf.marks_eq.2.ge
  | comment hf hc _ ih =>
    have hp := hf.marks_eq.2
    have hle := hc.marks_le
    rw [marks_cons] at hp
    omega

/-- Each mark of the value takes a backslash more in the text, and the string ends in a quote. -/
theorem QuotedText.marks_le (h : QuotedText p v rest) :
    2 * marks v + marks rest + 1 ≤ marks p := by
  induction h with
  | close hf =>
    obtain ⟨hv, hp⟩ := hf.marks_eq
    have hquote : isMark 34 = true := by decide
    rw [marks_cons, hquote, if_pos rfl] at hp
    omega
  | @text c _ _ _ _ _ hf hc _ ih =>
    obtain ⟨hv, hp⟩ := hf.marks_eq
    have hplain : isMark c = false := by
      obtain ⟨-, -, hquote, hescape⟩ := not_blank_of_isQtext hc
      simp [isMark, hquote, hescape]
    simp only [marks_append, marks_cons, hplain, Bool.false_eq_true, ite_false] at hp ⊢
    omega
  | @pair c _ _ _ _ _ hf _ _ ih =>
    obtain ⟨hv, hp⟩ := hf.marks_eq
    have hescape : isMark 92 = true := by decide
    simp only [marks_append, marks_cons, hescape, ite_true] at hp ⊢
    split at hp <;> split <;> first | omega | contradiction

/-- What the value of a piece has cost in marks: if there are any, two more for the quotes. -/
def Costs (p v rest : Bytes) : Prop :=
  2 * marks v + marks rest ≤ marks p ∧ (marks v ≠ 0 → 2 * marks v + marks rest + 2 ≤ marks p)

theorem Word.costs (h : Word p v rest) : Costs p v rest := by
  cases h with
  | atom hfront hv hrest =>
    have hchars : ∀ c ∈ v, isMark c = false := fun c hc =>
      not_mark_of_isDotAtomChar (isDotAtomChar_of_isAtext (hv.parts.2.1 c hc))
    have hsplit := congrArg marks hv.parts.1
    have hzero := marks_eq_zero_of_forall hchars
    have hle := hfront.marks_le
    have hle' := hrest.marks_le
    rw [marks_append] at hsplit
    exact ⟨by omega, fun hne => absurd hzero hne⟩
  | quoted hq =>
    cases hq with
    | quoted hfront hv hrest =>
      have hle := hfront.marks_le
      have hle' := hrest.marks_le
      have hcost := hv.marks_le
      have hquote : isMark 34 = true := by decide
      rw [marks_cons, hquote, if_pos rfl] at hle
      exact ⟨by omega, fun _ => by omega⟩

theorem Phrase.costs (h : Phrase p v rest) : Costs p v rest := by
  induction h with
  | one hw => exact hw.costs
  | @more _ _ v _ _ hw _ ih =>
    obtain ⟨hle, hcost⟩ := hw.costs
    obtain ⟨hle', hcost'⟩ := ih
    have hspace : isMark 32 = false := by decide
    simp only [Costs, marks_append, marks_cons, hspace, Bool.false_eq_true, ite_false]
    refine ⟨by omega, fun hne => ?_⟩
    by_cases hv : marks v = 0
    · have hw' := hcost' (by omega)
      omega
    · have hv' := hcost hv
      omega

/-- A name that is read from a single mailbox has cost its marks and two quotes. -/
theorem MailboxList.marks_le (h : MailboxList p [⟨some v, l, d⟩]) (hv : marks v ≠ 0) :
    2 * marks v + 2 ≤ marks p := by
  cases h with
  | one hm =>
    cases hm with
    | named hphrase _ =>
      have hcost := hphrase.costs.2 hv
      omega
  | cons _ hnone => cases hnone

theorem marks_quotedMailbox (hl : DotAtom l) (hd : DotAtom d) :
    marks (quotedMailbox s l d []) = marks s + 2 := by
  have hquote : isMark 34 = true := by decide
  have hsigns : isMark 32 = false ∧ isMark 60 = false ∧ isMark 64 = false ∧ isMark 62 = false := by
    decide
  simp [quotedMailbox, hquote, hsigns, hl.marks_eq_zero, hd.marks_eq_zero]

/-- A plain name is read back, whatever follows the mailbox. -/
theorem reads_quotedMailbox (hs : ∀ c ∈ s, isBlank c = true ∨ isQtext c = true) (hl : DotAtom l)
    (hd : DotAtom d) (r : Bytes) : MailboxText (32 :: quotedMailbox s l d r) ⟨some s, l, d⟩ r := by
  have hfront : ∀ q, OptCfws (32 :: q) q := fun q => .fws (.blanks (.cons (by decide) .nil))
  have hname : Word (32 :: quotedMailbox s l d r) s (32 :: 60 :: (l ++ 64 :: (d ++ 62 :: r))) :=
    .quoted (.quoted (hfront _) (QuotedText.plain_iff hs |>.mpr ⟨rfl, rfl⟩) (OptCfws.refl _))
  have haddr : AddrSpec (l ++ 64 :: (d ++ 62 :: r)) l d (62 :: r) :=
    .addr (.dotAtom (OptCfws.refl _) (hl.reads _) (OptCfws.refl _))
      (.dotAtom (OptCfws.refl _) (hd.reads _) (OptCfws.refl _))
  exact .named (.one hname) (.angle (hfront _) haddr (OptCfws.refl _))

/-- And there is nothing else to read. -/
theorem MailboxText.eq_of_quotedMailbox (hs : ∀ c ∈ s, isBlank c = true ∨ isQtext c = true)
    (hl : DotAtom l) (hd : DotAtom d) (h : MailboxText (32 :: quotedMailbox s l d r) m rest) :
    m = ⟨some s, l, d⟩ ∧ OptCfws r rest := by
  have hquote : Ahead 34 (s ++ 34 :: 32 :: 60 :: (l ++ 64 :: (d ++ 62 :: r)))
      (32 :: quotedMailbox s l d r) := ahead_blank (by decide) (ahead_self _ _)
  have hangle : Ahead 60 (l ++ 64 :: (d ++ 62 :: r))
      (32 :: 60 :: (l ++ 64 :: (d ++ 62 :: r))) := ahead_blank (by decide) (ahead_self _ _)
  cases h with
  | addr haddr =>
    cases haddr with
    | addr hlocal _ =>
      obtain ⟨q', hv, hrest⟩ := hlocal.of_ahead hquote
      obtain ⟨-, rfl⟩ := (QuotedText.plain_iff hs).mp hv
      exact absurd (hrest.reach (by decide) (by decide) hangle).1 (by decide)
  | angle haddr =>
    cases haddr with
    | angle hfront _ _ =>
      exact absurd (hfront.reach (by decide) (by decide) hquote).1 (by decide)
  | named hphrase haddr =>
    have hword : ∀ {w q}, Word (32 :: quotedMailbox s l d r) w q →
        w = s ∧ Ahead 60 (l ++ 64 :: (d ++ 62 :: r)) q := by
      intro w q hw
      obtain ⟨q', hv, hrest⟩ := hw.of_ahead hquote
      obtain ⟨rfl, rfl⟩ := (QuotedText.plain_iff hs).mp hv
      exact ⟨rfl, hrest.ahead (by decide) hangle⟩
    cases hphrase with
    | more hw hmore => exact (hmore.not_ahead_angle (hword hw).2).elim
    | one hw =>
      obtain ⟨rfl, hq⟩ := hword hw
      cases haddr with
      | angle hfront haddr hrest =>
        obtain ⟨-, rfl⟩ := hfront.reach (by decide) (by decide) hq
        cases haddr with
        | addr hlocal hdomain =>
          obtain ⟨rfl, rfl⟩ := hlocal.eq_of_dotAtom hl
          obtain ⟨rfl, rfl⟩ := hdomain.eq_of_dotAtom hd
          exact ⟨rfl, hrest⟩

def isprint (c : UInt8) : Bool := 32 ≤ c && c ≤ 126

theorem blank_or_isQtext_of_isprint {c : UInt8} :
    isprint c = true → c ≠ 34 → c ≠ 92 → isBlank c = true ∨ isQtext c = true := by
  apply forall_byte (P := fun c =>
    isprint c = true → c ≠ 34 → c ≠ 92 → isBlank c = true ∨ isQtext c = true)
  decide +kernel

/-- A printable name that is put in quotes as it is comes back, and alone, if and only if it has
neither a quote nor a backslash. -/
theorem mailboxList_quotedMailbox_iff (hs : ∀ c ∈ s, isprint c = true) (hl : DotAtom l)
    (hd : DotAtom d) :
    (∀ ms, MailboxList (32 :: quotedMailbox s l d []) ms ↔ ms = [⟨some s, l, d⟩]) ↔
      34 ∉ s ∧ 92 ∉ s := by
  constructor
  · intro honly
    have hread := (honly [⟨some s, l, d⟩]).mpr rfl
    apply notMem_of_marks
    by_contra hne
    have hcost := hread.marks_le hne
    have hspace : isMark 32 = false := by decide
    rw [marks_cons, hspace, marks_quotedMailbox hl hd] at hcost
    simp only [Bool.false_eq_true, ite_false] at hcost
    omega
  · rintro ⟨hquote, hescape⟩ ms
    have hplain : ∀ c ∈ s, isBlank c = true ∨ isQtext c = true := fun c hc =>
      blank_or_isQtext_of_isprint (hs c hc) (fun e => hquote (e ▸ hc)) (fun e => hescape (e ▸ hc))
    constructor
    · intro hread
      cases hread with
      | one hm => rw [(hm.eq_of_quotedMailbox hplain hl hd).1]
      | cons hm _ =>
        exact absurd (hm.eq_of_quotedMailbox hplain hl hd).2.nil (List.cons_ne_nil _ _)
    · rintro rfl
      exact .one (reads_quotedMailbox hplain hl hd [])

end

end Simvacation.MailboxGrammar
