import Simvacation.CString

/-!
The texts of directory search filters. The grammar relates a text to the filter
that it stands for. An assertion value is UTF-8 in which the bytes that mean
something to the grammar are escaped: a text stands for itself as a value if and
only if it is UTF-8 without such bytes.
-/

namespace Simvacation.FilterGrammar

open CString

inductive Filter where
  | and (filters : List Filter)
  | or (filters : List Filter)
  | not (filter : Filter)
  | equality (attr value : Bytes)
  | approx (attr value : Bytes)
  | greaterOrEqual (attr value : Bytes)
  | lessOrEqual (attr value : Bytes)
  | present (attr : Bytes)
  | substring (attr first : Bytes) (between : List Bytes) (last : Bytes)
  | extensible (attr : Option Bytes) (dnAttrs : Bool) (rule : Option Bytes) (value : Bytes)

def isalpha (c : UInt8) : Bool := (65 ≤ c && c ≤ 90) || (97 ≤ c && c ≤ 122)

def isKeyChar (c : UInt8) : Bool := isalpha c || isdigit c || c = 45

/-- A short name of an attribute or a matching rule. -/
def Descr (s : Bytes) : Prop :=
  (∃ c ∈ s.head?, isalpha c = true) ∧ ∀ c ∈ s, isKeyChar c = true

/-- Without leading zeros. -/
def Number (s : Bytes) : Prop :=
  s ≠ [] ∧ (∀ c ∈ s, isdigit c = true) ∧ (s.head? = some 48 → s = [48])

inductive NumericOid : Bytes → Prop where
  | two {s t : Bytes} : Number s → Number t → NumericOid (s ++ 46 :: t)
  | more {s t : Bytes} : NumericOid s → Number t → NumericOid (s ++ 46 :: t)

def Oid (s : Bytes) : Prop := Descr s ∨ NumericOid s

/-- An attribute type and its options. -/
inductive Attr : Bytes → Prop where
  | oid {s : Bytes} : Oid s → Attr s
  | option {s t : Bytes} : Attr s → t ≠ [] → (∀ c ∈ t, isKeyChar c = true) → Attr (s ++ 59 :: t)

def Tail (c : UInt8) : Prop := 128 ≤ c ∧ c ≤ 191

/-- A character that takes more than one byte. -/
inductive Multibyte : Bytes → Prop where
  | two {a b : UInt8} : 194 ≤ a → a ≤ 223 → Tail b → Multibyte [a, b]
  | three {a b c : UInt8} : 224 ≤ a → a ≤ 239 → Tail b → Tail c → (a = 224 → 160 ≤ b) →
      (a = 237 → b ≤ 159) → Multibyte [a, b, c]
  | four {a b c d : UInt8} : 240 ≤ a → a ≤ 244 → Tail b → Tail c → Tail d →
      (a = 240 → 144 ≤ b) → (a = 244 → b ≤ 143) → Multibyte [a, b, c, d]

inductive Utf8 : Bytes → Prop where
  | nil : Utf8 []
  | ascii {c : UInt8} {s : Bytes} : c < 128 → Utf8 s → Utf8 (c :: s)
  | multi {m s : Bytes} : Multibyte m → Utf8 s → Utf8 (m ++ s)

/-- NUL, the parentheses, the asterisk and the backslash. -/
def Special (c : UInt8) : Prop := c = 0 ∨ c = 40 ∨ c = 41 ∨ c = 42 ∨ c = 92

instance (c : UInt8) : Decidable (Special c) :=
  inferInstanceAs (Decidable (c = 0 ∨ c = 40 ∨ c = 41 ∨ c = 42 ∨ c = 92))

def hexValue (c : UInt8) : UInt8 :=
  if isdigit c then c - 48 else if c ≤ 70 then c - 55 else c - 87

/-- The text of an assertion value and the value. -/
inductive Value : Bytes → Bytes → Prop where
  | nil : Value [] []
  | ascii {c : UInt8} {s v : Bytes} : c < 128 → ¬ Special c → Value s v →
      Value (c :: s) (c :: v)
  | multi {m s v : Bytes} : Multibyte m → Value s v → Value (m ++ s) (m ++ v)
  | escaped {a b : UInt8} {s v : Bytes} : isxdigit a = true → isxdigit b = true → Value s v →
      Value (92 :: a :: b :: s) ((hexValue a * 16 + hexValue b) :: v)

/-- Asterisks, and the values between them. -/
inductive Between : Bytes → List Bytes → Prop where
  | last : Between [42] []
  | more {s t v : Bytes} {vs : List Bytes} : Value s v → Between t vs →
      Between (42 :: s ++ t) (v :: vs)

inductive DnAttrs : Bytes → Bool → Prop where
  | absent : DnAttrs [] false
  | present {d n : UInt8} : tolower d = 100 → tolower n = 110 → DnAttrs [58, d, n] true

inductive Rule : Bytes → Option Bytes → Prop where
  | absent : Rule [] none
  | present {r : Bytes} : Oid r → Rule (58 :: r) (some r)

/-- One assertion. An asterisk alone is the presence of the attribute. -/
inductive Item : Bytes → Filter → Prop where
  | equality {a s v : Bytes} : Attr a → Value s v → Item (a ++ 61 :: s) (.equality a v)
  | approx {a s v : Bytes} : Attr a → Value s v → Item (a ++ 126 :: 61 :: s) (.approx a v)
  | greaterOrEqual {a s v : Bytes} : Attr a → Value s v →
      Item (a ++ 62 :: 61 :: s) (.greaterOrEqual a v)
  | lessOrEqual {a s v : Bytes} : Attr a → Value s v →
      Item (a ++ 60 :: 61 :: s) (.lessOrEqual a v)
  | present {a : Bytes} : Attr a → Item (a ++ [61, 42]) (.present a)
  | substring {a s t u v w : Bytes} {vs : List Bytes} : Attr a → Value s v → Between t vs →
      Value u w → s ++ t ++ u ≠ [42] → Item (a ++ 61 :: (s ++ t ++ u)) (.substring a v vs w)
  | extensible {a d r s v : Bytes} {dn : Bool} {rule : Option Bytes} : Attr a → DnAttrs d dn →
      Rule r rule → Value s v →
      Item (a ++ d ++ r ++ 58 :: 61 :: s) (.extensible (some a) dn rule v)
  | matching {d r s v : Bytes} {dn : Bool} : DnAttrs d dn → Oid r → Value s v →
      Item (d ++ 58 :: r ++ 58 :: 61 :: s) (.extensible none dn (some r) v)

mutual

inductive FilterText : Bytes → Filter → Prop where
  | paren {s : Bytes} {f : Filter} : CompText s f → FilterText (40 :: s ++ [41]) f

inductive CompText : Bytes → Filter → Prop where
  | and {s : Bytes} {fs : List Filter} : ListText s fs → CompText (38 :: s) (.and fs)
  | or {s : Bytes} {fs : List Filter} : ListText s fs → CompText (124 :: s) (.or fs)
  | not {s : Bytes} {f : Filter} : FilterText s f → CompText (33 :: s) (.not f)
  | item {s : Bytes} {f : Filter} : Item s f → CompText s f

inductive ListText : Bytes → List Filter → Prop where
  | one {s : Bytes} {f : Filter} : FilterText s f → ListText s [f]
  | cons {s t : Bytes} {f : Filter} {fs : List Filter} : FilterText s f → ListText t fs →
      ListText (s ++ t) (f :: fs)

end

/-- The outer parentheses may be left out. -/
def Reads (text : Bytes) (f : Filter) : Prop := FilterText text f ∨ CompText text f

/-- The bytes of attribute descriptions and object identifiers. -/
def isAttrChar (c : UInt8) : Bool := isKeyChar c || c = 46 || c = 59

theorem isAttrChar_of_isKeyChar {c : UInt8} (h : isKeyChar c = true) : isAttrChar c = true := by
  simp [isAttrChar, h]

theorem isAttrChar_of_isdigit {c : UInt8} (h : isdigit c = true) : isAttrChar c = true := by
  simp [isAttrChar, isKeyChar, h]

theorem NumericOid.chars {s : Bytes} (h : NumericOid s) : ∀ c ∈ s, isAttrChar c = true := by
  have hjoin : ∀ {s t : Bytes}, (∀ c ∈ s, isAttrChar c = true) → Number t →
      ∀ c ∈ s ++ 46 :: t, isAttrChar c = true := by
    intro s t hs ht c hc
    rcases List.mem_append.mp hc with hc | hc
    · exact hs c hc
    · rcases List.mem_cons.mp hc with rfl | hc
      · decide
      · exact isAttrChar_of_isdigit (ht.2.1 c hc)
  induction h with
  | two hs ht => exact hjoin (fun c hc => isAttrChar_of_isdigit (hs.2.1 c hc)) ht
  | more _ ht ih => exact hjoin ih ht

theorem Oid.chars {s : Bytes} (h : Oid s) : ∀ c ∈ s, isAttrChar c = true := by
  rcases h with hdescr | hnumeric
  · exact fun c hc => isAttrChar_of_isKeyChar (hdescr.2 c hc)
  · exact hnumeric.chars

theorem Attr.chars {s : Bytes} (h : Attr s) : ∀ c ∈ s, isAttrChar c = true := by
  induction h with
  | oid hs => exact hs.chars
  | option _ _ ht ih =>
    intro c hc
    rcases List.mem_append.mp hc with hc | hc
    · exact ih c hc
    · rcases List.mem_cons.mp hc with rfl | hc
      · decide
      · exact isAttrChar_of_isKeyChar (ht c hc)

theorem Attr.ne_nil {s : Bytes} (h : Attr s) : s ≠ [] := by
  cases h with
  | oid hs =>
    rcases hs with ⟨⟨c, hc, -⟩, -⟩ | hnumeric
    · rintro rfl
      cases hc
    · cases hnumeric with
      | two _ _ => exact List.append_ne_nil_of_right_ne_nil _ (List.cons_ne_nil _ _)
      | more _ _ => exact List.append_ne_nil_of_right_ne_nil _ (List.cons_ne_nil _ _)
  | option _ _ _ => exact List.append_ne_nil_of_right_ne_nil _ (List.cons_ne_nil _ _)

theorem Attr.notMem {s : Bytes} (h : Attr s) {c : UInt8} (hc : isAttrChar c = false) : c ∉ s := by
  intro hmem
  rw [h.chars c hmem] at hc
  cases hc

theorem DnAttrs.equals_notMem {s : Bytes} {dn : Bool} (h : DnAttrs s dn) : 61 ∉ s := by
  cases h with
  | absent => exact List.not_mem_nil
  | @present d n hd hn =>
    have hdne : d ≠ 61 := by
      rintro rfl
      exact absurd hd (by decide)
    have hnne : n ≠ 61 := by
      rintro rfl
      exact absurd hn (by decide)
    simp [hdne.symm, hnne.symm]

theorem Oid.equals_notMem {s : Bytes} (h : Oid s) : 61 ∉ s := (Attr.oid h).notMem (by decide)

theorem Rule.equals_notMem {s : Bytes} {rule : Option Bytes} (h : Rule s rule) : 61 ∉ s := by
  cases h with
  | absent => exact List.not_mem_nil
  | present hoid => simp [hoid.equals_notMem]

theorem Multibyte.high {m : Bytes} (h : Multibyte m) : ∀ c ∈ m, 128 ≤ c := by
  have hlead : ∀ {a b : UInt8}, 128 ≤ b → b ≤ a → 128 ≤ a := fun hb hab => UInt8.le_trans hb hab
  cases h with
  | two ha _ hb => simp [hb.1, hlead (by decide) ha]
  | three ha _ hb hc _ _ => simp [hb.1, hc.1, hlead (by decide) ha]
  | four ha _ hb hc hd _ _ => simp [hb.1, hc.1, hd.1, hlead (by decide) ha]

theorem Multibyte.not_special {m : Bytes} (h : Multibyte m) : ∀ c ∈ m, ¬ Special c := by
  intro c hc hspecial
  have hhigh := h.high c hc
  rcases hspecial with rfl | rfl | rfl | rfl | rfl <;> exact absurd hhigh (by decide)

theorem Utf8.of_ascii {s : Bytes} (h : ∀ c ∈ s, c < 128) : Utf8 s := by
  induction s with
  | nil => exact .nil
  | cons c s ih =>
    obtain ⟨hc, hs⟩ := List.forall_mem_cons.mp h
    exact .ascii hc (ih hs)

/-- Bytes of ASCII may be exchanged for others. -/
theorem Utf8.map {g : UInt8 → UInt8} (hlow : ∀ c, c < 128 → g c < 128)
    (hhigh : ∀ c, 128 ≤ c → g c = c) {s : Bytes} (h : Utf8 s) : Utf8 (s.map g) := by
  induction h with
  | nil => exact .nil
  | ascii hc _ ih => exact .ascii (hlow _ hc) ih
  | @multi m s hm _ ih =>
    have hsame : m.map g = m := by
      conv_rhs => rw [← List.map_id m]
      exact List.map_congr_left fun c hc => hhigh c (hm.high c hc)
    rw [List.map_append, hsame]
    exact .multi hm ih

theorem Value.length_le {s v : Bytes} (h : Value s v) : v.length ≤ s.length := by
  induction h with
  | nil => exact Nat.le_refl _
  | ascii _ _ _ ih => simpa using ih
  | multi _ _ ih => simpa using ih
  | escaped _ _ _ ih =>
    simp only [List.length_cons]
    omega

/-- An escape takes more bytes than it stands for, so a value of full length has none. -/
theorem Value.plain {s v : Bytes} (h : Value s v) (hlen : v.length = s.length) :
    (∀ c ∈ s, ¬ Special c) ∧ Utf8 s := by
  induction h with
  | nil => exact ⟨fun c hc => absurd hc List.not_mem_nil, .nil⟩
  | ascii hc hspecial _ ih =>
    obtain ⟨hs, hutf⟩ := ih (by simpa using hlen)
    exact ⟨List.forall_mem_cons.mpr ⟨hspecial, hs⟩, .ascii hc hutf⟩
  | multi hm _ ih =>
    obtain ⟨hs, hutf⟩ := ih (by simpa using hlen)
    exact ⟨List.forall_mem_append.mpr ⟨hm.not_special, hs⟩, .multi hm hutf⟩
  | escaped _ _ hv _ =>
    have hle := hv.length_le
    simp only [List.length_cons] at hlen
    omega

theorem Value.self {s : Bytes} (hutf : Utf8 s) (hs : ∀ c ∈ s, ¬ Special c) : Value s s := by
  induction hutf with
  | nil => exact .nil
  | ascii hc _ ih =>
    obtain ⟨hspecial, hs⟩ := List.forall_mem_cons.mp hs
    exact .ascii hc hspecial (ih hs)
  | multi hm _ ih => exact .multi hm (ih (List.forall_mem_append.mp hs).2)

/-- A text without a backslash is its own value. -/
theorem Value.eq_of_no_escape {s v : Bytes} (h : Value s v) (hs : 92 ∉ s) : v = s := by
  induction h with
  | nil => rfl
  | ascii _ _ _ ih => rw [ih fun hmem => hs (List.mem_cons_of_mem _ hmem)]
  | multi _ _ ih => rw [ih fun hmem => hs (List.mem_append_right _ hmem)]
  | escaped _ _ _ _ => exact absurd List.mem_cons_self hs

theorem value_self_iff {s : Bytes} : Value s s ↔ (∀ c ∈ s, ¬ Special c) ∧ Utf8 s := by
  constructor
  · intro h
    exact h.plain rfl
  · intro h
    exact Value.self h.2 h.1

theorem Between.star_mem {t : Bytes} {vs : List Bytes} (h : Between t vs) : 42 ∈ t := by
  cases h <;> simp

section

variable {a s : Bytes} {f : Filter}

/-- An assertion with a sign in front of the `=` does not start with an attribute and `=`. -/
theorem Attr.sign_ne (ha : Attr a) {y s' : Bytes} {k : UInt8} (hy : 61 ∉ y)
    (hk : isAttrChar k = false) (hne : k ≠ 61) : y ++ k :: 61 :: s' ≠ a ++ 61 :: s := by
  intro heq
  have hfront : 61 ∉ y ++ [k] := by simp [hy, hne.symm]
  have heq' : (y ++ [k]) ++ 61 :: s' = a ++ 61 :: s := by rw [← heq]; simp
  have hsame := (append_cons_inj_first hfront (ha.notMem (by decide)) heq').1
  exact ha.notMem hk (by rw [← hsame]; simp)

/-- What a text that starts with an attribute and `=` can stand for. -/
theorem Item.cases_attr (ha : Attr a) (h : Item (a ++ 61 :: s) f) :
    (∃ v, Value s v ∧ f = .equality a v) ∨ 42 ∈ s := by
  have hself : 61 ∉ a := ha.notMem (by decide)
  generalize htext : a ++ 61 :: s = text at h
  cases h with
  | equality ha' hv =>
    obtain ⟨rfl, rfl⟩ := append_cons_inj_first hself (ha'.notMem (by decide)) htext
    exact Or.inl ⟨_, hv, rfl⟩
  | approx ha' _ =>
    exact absurd htext.symm (ha.sign_ne (ha'.notMem (by decide)) (by decide) (by decide))
  | greaterOrEqual ha' _ =>
    exact absurd htext.symm (ha.sign_ne (ha'.notMem (by decide)) (by decide) (by decide))
  | lessOrEqual ha' _ =>
    exact absurd htext.symm (ha.sign_ne (ha'.notMem (by decide)) (by decide) (by decide))
  | present ha' =>
    obtain ⟨rfl, rfl⟩ := append_cons_inj_first hself (ha'.notMem (by decide)) htext
    exact Or.inr List.mem_cons_self
  | substring ha' _ hbetween _ _ =>
    obtain ⟨rfl, rfl⟩ := append_cons_inj_first hself (ha'.notMem (by decide)) htext
    exact Or.inr (by simp [hbetween.star_mem])
  | @extensible a' d r _ _ _ _ ha' hd hr _ =>
    have hfront : 61 ∉ a' ++ d ++ r := by
      have ha'' : 61 ∉ a' := ha'.notMem (by decide)
      simp [ha'', hd.equals_notMem, hr.equals_notMem]
    exact absurd htext.symm (ha.sign_ne hfront (by decide) (by decide))
  | @matching d r _ _ _ hd hr _ =>
    have hfront : 61 ∉ d ++ 58 :: r := by simp [hd.equals_notMem, hr.equals_notMem]
    exact absurd htext.symm (ha.sign_ne hfront (by decide) (by decide))

/-- A text that starts with an attribute is one assertion. -/
theorem Attr.reads_iff (ha : Attr a) : Reads (a ++ 61 :: s) f ↔ Item (a ++ 61 :: s) f := by
  have hhead : ∀ c rest, a ++ 61 :: s = c :: rest → isAttrChar c = true := by
    intro c rest heq
    obtain ⟨b, a', rfl⟩ := List.exists_cons_of_ne_nil ha.ne_nil
    rw [← (List.cons.inj heq).1]
    exact ha.chars b List.mem_cons_self
  constructor
  · generalize a ++ 61 :: s = text at hhead
    rintro (hfilter | hcomp)
    · cases hfilter with
      | paren _ => exact absurd (hhead _ _ rfl) (by decide)
    · cases hcomp with
      | and _ => exact absurd (hhead _ _ rfl) (by decide)
      | or _ => exact absurd (hhead _ _ rfl) (by decide)
      | not _ => exact absurd (hhead _ _ rfl) (by decide)
      | item hitem => exact hitem
  · intro hitem
    exact Or.inr (.item hitem)

/-- A string that is pasted behind an attribute and `=` is what the filter asks for, and all
that it asks for, if and only if it needs no escape. -/
theorem Attr.pasted_iff (ha : Attr a) :
    (∀ f, Reads (a ++ 61 :: s) f ↔ f = .equality a s) ↔ (∀ c ∈ s, ¬ Special c) ∧ Utf8 s := by
  constructor
  · intro honly
    have hitem := ha.reads_iff.mp ((honly (.equality a s)).mpr rfl)
    rw [← value_self_iff]
    generalize htext : a ++ 61 :: s = text at hitem
    cases hitem with
    | equality _ hv =>
      have hsame := List.append_cancel_left htext
      rwa [(List.cons.inj hsame).2] at hv ⊢
  · rintro ⟨hs, hutf⟩ f
    have hstar : 42 ∉ s := fun hmem => hs 42 hmem (by decide)
    have hescape : 92 ∉ s := fun hmem => hs 92 hmem (by decide)
    rw [ha.reads_iff]
    constructor
    · intro hitem
      rcases Item.cases_attr ha hitem with ⟨v, hv, rfl⟩ | hmem
      · rw [hv.eq_of_no_escape hescape]
      · exact absurd hmem hstar
    · rintro rfl
      exact .equality ha (Value.self hutf hs)

end

end Simvacation.FilterGrammar
