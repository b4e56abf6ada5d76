import Simvacation.SenderTags

/-!
The strings that `canonFrom` rewrites, described by their text. The code looks
for fewer signs than a well-formed tag has: an equals sign may stand behind the
last `@`, and an SRS address may lack its hash and timestamp or have empty
parts. From each of these strings an address is taken that nobody wrote; every
other string that carries no tag comes back unchanged.
-/

namespace Simvacation.SenderForms

open CString Yasl Vutil SenderTags

def minus : UInt8 := 45
def plus : UInt8 := 43

/-- A sender that is read as `prvs=tag=y`. -/
def BatvOf (x y : Bytes) : Prop := ∃ t : BatvTag, x = t.wrap y

/-- A sender that is read as `btv1==hash==y`: the second `==` is the first one
behind the marker. -/
def BarracudaOf (x y : Bytes) : Prop :=
  ∃ marker hash, lower marker = bytes "btv1==" ∧ ¬ bytes "==" <:+: hash ++ [equals] ∧
    x = marker ++ (hash ++ equals :: equals :: y)

/-- The text behind the first pair of an equals sign and `c`. -/
def behind (s : Bytes) (c : UInt8) : Option Bytes :=
  (strstr s [equals, c]).map fun p => s.drop (p + 2)

/-- The address that a second forwarder wrapped begins behind `==`; without one
behind `=-`, and without one of these behind `=+`. -/
def innerPayload (body : Bytes) : Bytes :=
  ((behind body equals).orElse fun _ => (behind body minus).orElse
    fun _ => behind body plus).getD body

/-- What passes the guard of the SRS branch. -/
structure SrsSender where
  opening : Bytes
  marker : Bytes
  digit : UInt8
  sep : UInt8
  body : Bytes
  opening_quote : opening = [] ∨ opening = [quote]
  marker_srs : lower marker = bytes "srs"
  digit_mem : digit ∈ bytes "01"
  sep_mem : sep ∈ srsSeparators
  long : 13 < (opening ++ (marker ++ digit :: sep :: body)).length

def SrsSender.text (s : SrsSender) : Bytes := s.opening ++ (s.marker ++ s.digit :: s.sep :: s.body)

def SrsSender.payload (s : SrsSender) : Bytes :=
  if s.digit = 49 then innerPayload s.body else s.body

/-- The two readings of a payload: the hash and the timestamp are skipped if
there are two equals signs, and a lone one is taken for that behind the domain. -/
inductive Reads (p domain localPart : Bytes) : Prop where
  | full (hash timestamp forwarder : Bytes) (hhash : equals ∉ hash) (htime : equals ∉ timestamp)
      (hdomain : equals ∉ domain) (hforwarder : atSign ∉ forwarder)
      (heq : p = hash ++ equals :: (timestamp ++ equals ::
        (domain ++ equals :: (localPart ++ atSign :: forwarder))))
  | bare (forwarder : Bytes) (hdomain : equals ∉ domain)
      (hplain : equals ∉ localPart ++ atSign :: forwarder) (hforwarder : atSign ∉ forwarder)
      (heq : p = domain ++ equals :: (localPart ++ atSign :: forwarder))

/-- A sender that is read as an SRS address made from `y`. -/
def SrsOf (x y : Bytes) : Prop :=
  ∃ (s : SrsSender) (domain localPart : Bytes), x = s.text ∧ Reads s.payload domain localPart ∧
    y = s.opening ++ localPart ++ atSign :: domain ∧ 1 < y.length

/-- One of the three stages reads a tag. -/
def Tagged (x : Bytes) : Prop := ∃ y, SrsOf x y ∨ BatvOf x y ∨ BarracudaOf x y

/-- `hash=timestamp=domain=local` before the last `@`, and no part of it empty. -/
def WellFormedInner (p : Bytes) : Prop :=
  ∃ hash timestamp domain localPart forwarder, p = hash ++ equals :: (timestamp ++ equals ::
      (domain ++ equals :: (localPart ++ atSign :: forwarder))) ∧
    (equals ∉ hash ∧ equals ∉ timestamp ∧ equals ∉ domain ∧ atSign ∉ forwarder) ∧
    (hash ≠ [] ∧ timestamp ≠ [] ∧ domain ≠ [] ∧ localPart ≠ [])

/-- What stands behind the separator of the marker: for `SRS1` the outer hash, the
first forwarder and the inner separator come first. -/
inductive WellFormedBody : UInt8 → Bytes → Prop where
  | srs0 {p : Bytes} (hp : WellFormedInner p) : WellFormedBody 48 p
  | srs1 {outer first p : Bytes} {sep : UInt8} (houter : outer ≠ [] ∧ equals ∉ outer)
      (hfirst : first ≠ [] ∧ equals ∉ first) (hsep : sep ∈ srsSeparators)
      (hp : WellFormedInner p) :
      WellFormedBody 49 (outer ++ equals :: (first ++ equals :: sep :: p))

def WellFormedSrs (x : Bytes) : Prop :=
  ∃ opening marker digit sep body, (opening = [] ∨ opening = [quote]) ∧
    lower marker = bytes "srs" ∧ sep ∈ srsSeparators ∧ WellFormedBody digit body ∧
    x = opening ++ (marker ++ digit :: sep :: body)

/-- A tag as a forwarder writes it. The signs of a BATV tag stand before the last `@`. -/
def WellFormed (x : Bytes) : Prop :=
  WellFormedSrs x ∨ (∃ y, BatvOf x y ∧ atSign ∈ y) ∨ ∃ y, BarracudaOf x y ∧ atSign ∈ y

/-- No stage finds anything: no SRS reading, with whatever parts, and no equals
sign or `==` behind the last `@` that a BATV marker could go with. -/
structure Irreversible (x : Bytes) : Prop where
  srs : ∀ y, ¬ SrsOf x y
  batv : ∀ y, BatvOf x y → atSign ∈ y
  barracuda : ∀ y, BarracudaOf x y → atSign ∈ y

/-- A stage undoes what it reads and leaves everything else. -/
def Undo (R : Bytes → Bytes → Prop) (x y : Bytes) : Prop := R x y ∨ (y = x ∧ ∀ z, ¬ R x z)

theorem pair_prefix_iff {b c : UInt8} {s : Bytes} :
    [equals, c] <+: b :: s ↔ b = equals ∧ s.head? = some c := by
  rw [List.cons_prefix_cons, eq_comm]
  apply and_congr_right
  intro _
  cases s <;> simp [eq_comm]

theorem behind_cons (b : UInt8) (s : Bytes) (c : UInt8) :
    behind (b :: s) c = if b = equals ∧ s.head? = some c then some s.tail else behind s c := by
  have hpair : [equals, c].isPrefixOf (b :: s) = true ↔ b = equals ∧ s.head? = some c := by
    rw [List.isPrefixOf_iff_prefix, pair_prefix_iff]
  by_cases h : b = equals ∧ s.head? = some c
  · rw [if_pos h, behind, strstr, if_pos (hpair.mpr h)]
    cases s <;> rfl
  · rw [if_neg h, behind, behind, strstr, if_neg fun e => h (hpair.mp e), Option.map_map]
    rfl

/-- Of several such pairs the first one counts. -/
theorem behind_eq_some_iff {s r : Bytes} {c : UInt8} : behind s c = some r ↔
    ∃ pre, s = pre ++ equals :: c :: r ∧ ¬ [equals, c] <:+: pre ++ [equals] := by
  induction s with
  | nil =>
    refine iff_of_false (by simp [behind, strstr]) ?_
    intro hparts
    obtain ⟨pre, heq, -⟩ := hparts
    exact absurd heq.symm (List.append_ne_nil_of_right_ne_nil pre (List.cons_ne_nil _ _))
  | cons b s ih =>
    -- the head of what follows `b` is the same with and without the rest
    have hhead : ∀ pre : Bytes, (pre ++ equals :: c :: r).head? = (pre ++ [equals]).head? := by
      intro pre
      cases pre <;> rfl
    rw [behind_cons]
    by_cases hpair : b = equals ∧ s.head? = some c
    · rw [if_pos hpair]
      obtain ⟨rfl, hs⟩ := hpair
      obtain ⟨s, rfl⟩ := List.head?_eq_some_iff.mp hs
      constructor
      · intro h
        refine ⟨[], ?_, ?_⟩
        · rw [← Option.some.inj h]
          rfl
        · intro hinfix
          have hlen := hinfix.length_le
          simp at hlen
      · intro hparts
        obtain ⟨pre, heq, hfirst⟩ := hparts
        cases pre with
        | nil =>
          rw [List.nil_append, List.cons.injEq, List.cons.injEq] at heq
          rw [List.tail_cons, heq.2.2]
        | cons d pre =>
          rw [List.cons_append, List.cons.injEq] at heq
          have hstart : [equals, c] <+: d :: (pre ++ [equals]) := by
            rw [pair_prefix_iff, ← hhead pre, ← heq.2]
            exact ⟨heq.1.symm, rfl⟩
          exact absurd hstart.isInfix hfirst
    · rw [if_neg hpair, ih]
      constructor
      · intro hparts
        obtain ⟨pre, rfl, hfirst⟩ := hparts
        refine ⟨b :: pre, rfl, ?_⟩
        rw [List.cons_append, List.infix_cons_iff, not_or, pair_prefix_iff, ← hhead pre]
        exact ⟨hpair, hfirst⟩
      · intro hparts
        obtain ⟨pre, heq, hfirst⟩ := hparts
        cases pre with
        | nil =>
          rw [List.nil_append, List.cons.injEq] at heq
          exact absurd ⟨heq.1, by rw [heq.2]; rfl⟩ hpair
        | cons d pre =>
          rw [List.cons_append, List.cons.injEq] at heq
          rw [List.cons_append, List.infix_cons_iff, not_or] at hfirst
          exact ⟨pre, heq.2, hfirst.2⟩

theorem behind_eq_none_iff {s : Bytes} {c : UInt8} :
    behind s c = none ↔ ¬ [equals, c] <:+: s := by
  rw [behind, Option.map_eq_none_iff, ← strstr_isSome_iff]
  simp

theorem canonBatv_of {x y : Bytes} (h : BatvOf x y) : canonBatv x = y := by
  obtain ⟨t, rfl⟩ := h
  exact canonBatv_wrap t y

theorem canonBatv_of_none {x : Bytes} (h : ∀ y, ¬ BatvOf x y) : canonBatv x = x := by
  by_cases hmark : bytes "prvs=" <+: lower x
  · obtain ⟨m, rest, rfl, hm⟩ := exists_marker hmark
    have hnone : strchr ((m ++ rest).drop 5) equals = none := by
      rw [strchr_eq_none_iff, show 5 = m.length from (marker_length hm).symm, List.drop_left]
      intro hmem
      obtain ⟨tag, y, heq, htag⟩ := List.eq_append_cons_of_mem hmem
      exact h y ⟨⟨m, tag, hm, htag⟩, by rw [BatvTag.wrap, heq]⟩
    rw [canonBatv, hnone]
    exact ite_self _
  · exact canonBatv_of_not hmark

/-- The stage cuts behind the first `==` of what follows the marker. -/
theorem canonBarracuda_append {m rest : Bytes} (hm : lower m = bytes "btv1==") :
    canonBarracuda (m ++ rest) = (behind rest equals).getD (m ++ rest) := by
  have hlen : m.length = 6 := marker_length hm
  have hmark : strncasecmp (m ++ rest) (bytes "btv1==") 6 = 0 :=
    strncasecmp_marker (show 0 ∉ bytes "btv1==" by decide) hm rest
  have hdrop : (m ++ rest).drop 6 = rest := by rw [← hlen, List.drop_left]
  rw [canonBarracuda, if_pos hmark, hdrop, behind, show bytes "==" = [equals, equals] by decide]
  cases strstr rest [equals, equals] with
  | none => rfl
  | some p =>
    have hcut : yaslrange (m ++ rest) ((6 + p : ℕ) + 2) (-1) = (m ++ rest).drop (6 + p + 2) :=
      yaslrange_drop (m ++ rest) (6 + p + 2)
    simp only [hcut]
    rw [Nat.add_assoc, ← List.drop_drop, hdrop]
    rfl

theorem canonBarracuda_of {x y : Bytes} (h : BarracudaOf x y) : canonBarracuda x = y := by
  obtain ⟨m, hash, hm, hfirst, rfl⟩ := h
  have hbehind : behind (hash ++ equals :: equals :: y) equals = some y :=
    behind_eq_some_iff.mpr ⟨hash, rfl, hfirst⟩
  rw [canonBarracuda_append hm, hbehind]
  rfl

theorem canonBarracuda_of_none {x : Bytes} (h : ∀ y, ¬ BarracudaOf x y) :
    canonBarracuda x = x := by
  by_cases hmark : bytes "btv1==" <+: lower x
  · obtain ⟨m, rest, rfl, hm⟩ := exists_marker hmark
    rw [canonBarracuda_append hm]
    cases hbehind : behind rest equals with
    | none => rfl
    | some y =>
      obtain ⟨hash, rfl, hfirst⟩ := behind_eq_some_iff.mp hbehind
      exact absurd ⟨m, hash, hm, hfirst, rfl⟩ (h y)
  · exact canonBarracuda_of_not hmark

theorem SrsSender.marker_head (s : SrsSender) (rest : Bytes) :
    (s.marker ++ rest).head? ≠ some quote :=
  head_ne_quote_of_marker s.marker_srs (by decide)

theorem SrsSender.unquoted_text (s : SrsSender) :
    SenderTags.unquoted s.text = s.marker ++ s.digit :: s.sep :: s.body := by
  rcases s.opening_quote with hopen | hopen
  · rw [SrsSender.text, hopen, List.nil_append, SenderTags.unquoted, if_neg (s.marker_head _)]
  · rw [SrsSender.text, hopen]
    rfl

/-- The bytes that the guard tests behind a marker of three letters. -/
theorem getD_marker {m : Bytes} (digit sep : UInt8) (body : Bytes) (hm : m.length = 3) :
    (m ++ digit :: sep :: body).getD 3 0 = digit ∧ (m ++ digit :: sep :: body).getD 4 0 = sep := by
  constructor
  · simp [← hm]
  · rw [show 4 = m.length + 1 by rw [hm]]
    simp

theorem isSrs_text (s : SrsSender) : isSrs s.text = true := by
  have hlen : s.marker.length = 3 := marker_length s.marker_srs
  have hlong : 13 < s.text.length := s.long
  have hp : (if s.text.head? = some quote then s.text.drop 1 else s.text) =
      s.marker ++ s.digit :: s.sep :: s.body := s.unquoted_text
  have hsrs : strncasecmp (s.marker ++ s.digit :: s.sep :: s.body) (bytes "SRS") 3 = 0 :=
    strncasecmp_marker (show 0 ∉ bytes "SRS" by decide) s.marker_srs _
  obtain ⟨hdigit, hsep⟩ := getD_marker s.digit s.sep s.body hlen
  have hdigit' : s.digit = 48 ∨ s.digit = 49 := by simpa [bytes] using s.digit_mem
  rw [isSrs, hp]
  simp only [hsrs, hdigit, hsep, hlong, decide_true, Bool.true_and, Bool.and_eq_true,
    Bool.or_eq_true, decide_eq_true_eq, List.contains_iff_mem]
  exact ⟨hdigit', s.sep_mem⟩

/-- The guard is met by these senders alone. -/
theorem exists_srsSender {a : Bytes} (h : isSrs a = true) : ∃ s : SrsSender, a = s.text := by
  simp only [isSrs, Bool.and_eq_true, decide_eq_true_eq, Bool.or_eq_true,
    List.contains_iff_mem] at h
  obtain ⟨opening, p, hp, ha, hopen⟩ : ∃ opening p,
      (if a.head? = some quote then a.drop 1 else a) = p ∧ a = opening ++ p ∧
        (opening = [] ∨ opening = [quote]) := by
    by_cases hq : a.head? = some quote
    · obtain ⟨p, rfl⟩ := List.head?_eq_some_iff.mp hq
      exact ⟨[quote], p, rfl, rfl, Or.inr rfl⟩
    · exact ⟨[], a, if_neg hq, rfl, Or.inl rfl⟩
  rw [hp] at h
  obtain ⟨⟨⟨hsrs, hlong⟩, hdigit⟩, hsep⟩ := h
  obtain ⟨m, rest, rfl, hm⟩ :=
    exists_marker ((strncasecmp_eq_zero_iff' (show 0 ∉ bytes "SRS" by decide)).mp hsrs)
  have hlen : m.length = 3 := marker_length hm
  obtain ⟨digit, sep, body, rfl⟩ : ∃ digit sep body, rest = digit :: sep :: body := by
    rcases rest with _ | ⟨digit, _ | ⟨sep, body⟩⟩
    · rcases hopen with rfl | rfl <;> simp [ha, hlen] at hlong
    · rcases hopen with rfl | rfl <;> simp [ha, hlen] at hlong
    · exact ⟨digit, sep, body, rfl⟩
  obtain ⟨hdigit', hsep'⟩ := getD_marker digit sep body hlen
  rw [hdigit'] at hdigit
  rw [hsep'] at hsep
  have hmem : digit ∈ bytes "01" := by
    rcases hdigit with rfl | rfl <;> decide
  exact ⟨⟨opening, m, digit, sep, body, hopen, hm, hmem, hsep, ha ▸ hlong⟩, ha⟩

theorem skipMarker_append {m body : Bytes} {digit sep : UInt8} (hm : m.length = 3) :
    skipMarker (m ++ digit :: sep :: body) = if digit = 49 then innerPayload body else body := by
  have hdigit := (getD_marker digit sep body hm).1
  have hcut : yaslrange (m ++ digit :: sep :: body) 5 (-1) = body := by
    rw [show (5 : ℤ) = ((5 : ℕ) : ℤ) from rfl, yaslrange_drop,
      show 5 = m.length + 2 by rw [hm], ← List.drop_drop, List.drop_left]
    rfl
  have hskip : ∀ p : ℕ, yaslrange body ((p : ℤ) + 2) (-1) = body.drop (p + 2) :=
    fun p => yaslrange_drop body (p + 2)
  rw [skipMarker, hdigit, hcut]
  simp only [innerPayload, behind, show bytes "==" = [equals, equals] by decide,
    show bytes "=-" = [equals, minus] by decide, show bytes "=+" = [equals, plus] by decide]
  congr 1
  cases h1 : strstr body [equals, equals] with
  | some p => simp [hskip]
  | none =>
    cases h2 : strstr body [equals, minus] with
    | some p => simp [hskip]
    | none => cases h3 : strstr body [equals, plus] <;> simp [hskip]

theorem canonSrs_text (s : SrsSender) : canonSrs s.text =
    if 1 < (srsAddress s.opening (skipHash s.payload)).length then
      srsAddress s.opening (skipHash s.payload) else s.text := by
  have hskip : skipMarker (s.marker ++ s.digit :: s.sep :: s.body) = s.payload :=
    skipMarker_append (marker_length s.marker_srs)
  rcases s.opening_quote with hopen | hopen
  · have htext : s.text = s.marker ++ s.digit :: s.sep :: s.body := by
      rw [SrsSender.text, hopen, List.nil_append]
    have hhead : s.text.head? ≠ some quote := htext ▸ s.marker_head _
    rw [canonSrs, if_pos (isSrs_text s)]
    simp only [hhead, decide_false, Bool.false_eq_true, ite_false, hopen]
    rw [htext, hskip]
  · have htext : s.text = quote :: (s.marker ++ s.digit :: s.sep :: s.body) := by
      rw [SrsSender.text, hopen]
      rfl
    have hcut : yaslrange s.text 1 (-1) = s.marker ++ s.digit :: s.sep :: s.body := by
      rw [htext]
      exact yaslrange_drop _ 1
    have hhead : s.text.head? = some quote := by rw [htext, List.head?_cons]
    rw [canonSrs, if_pos (isSrs_text s)]
    simp only [hhead, decide_true, ite_true, hopen, hcut, hskip]

theorem skipHash_of_notMem {a : Bytes} (h : equals ∉ a) : skipHash a = a := by
  rw [skipHash, strchr_eq_none_iff.mpr h]

/-- A lone equals sign is not one behind a hash. -/
theorem skipHash_of_one {a b : Bytes} (ha : equals ∉ a) (hb : equals ∉ b) :
    skipHash (a ++ equals :: b) = a ++ equals :: b := by
  have hdrop : (a ++ equals :: b).drop (a.length + 1) = b := by
    rw [← List.drop_drop, List.drop_left]
    rfl
  have hnone : strchr b equals = none := strchr_eq_none_iff.mpr hb
  rw [skipHash, strchr_append_cons ha]
  simp only [hdrop, hnone]

theorem srsAddress_of_notMem {buf a : Bytes} (h : equals ∉ a) : srsAddress buf a = buf := by
  rw [srsAddress, strchr_eq_none_iff.mpr h]

theorem srsAddress_of_not_at {buf a b : Bytes} (ha : equals ∉ a) (hb : atSign ∉ b) :
    srsAddress buf (a ++ equals :: b) = buf := by
  have hat : atSign ∉ equals :: b := by
    rw [List.mem_cons, not_or]
    exact ⟨by decide, hb⟩
  have hnone : strrchr (equals :: b) atSign = none := strrchr_eq_none_iff.mpr hat
  rw [srsAddress, strchr_append_cons ha]
  simp only [List.drop_left, hnone]

theorem exists_last_at {s : Bytes} (h : atSign ∈ s) :
    ∃ pre post, s = pre ++ atSign :: post ∧ atSign ∉ post := by
  cases hp : strrchr s atSign with
  | none => exact absurd h (strrchr_eq_none_iff.mp hp)
  | some p =>
    obtain ⟨pre, post, heq, -, hpost⟩ := strrchr_eq_some_iff.mp hp
    exact ⟨pre, post, heq, hpost⟩

theorem decode_of_reads {p domain localPart : Bytes} (h : Reads p domain localPart)
    (buf : Bytes) : srsAddress buf (skipHash p) = buf ++ localPart ++ atSign :: domain := by
  cases h with
  | full hash timestamp forwarder hhash htime hdomain hforwarder heq =>
    rw [heq, skipHash_eq hhash htime, srsAddress_eq hdomain hforwarder]
  | bare forwarder hdomain hplain hforwarder heq =>
    rw [heq, skipHash_of_one hdomain hplain, srsAddress_eq hdomain hforwarder]

/-- A payload without a reading is the borked address of the source. -/
theorem decode_of_not_reads {p : Bytes} (h : ∀ domain localPart, ¬ Reads p domain localPart)
    (buf : Bytes) : srsAddress buf (skipHash p) = buf := by
  by_cases hp : equals ∈ p
  · obtain ⟨a, p1, rfl, ha⟩ := List.eq_append_cons_of_mem hp
    by_cases hp1 : equals ∈ p1
    · obtain ⟨b, p2, rfl, hb⟩ := List.eq_append_cons_of_mem hp1
      rw [skipHash_eq ha hb]
      by_cases hp2 : equals ∈ p2
      · obtain ⟨d, p3, rfl, hd⟩ := List.eq_append_cons_of_mem hp2
        apply srsAddress_of_not_at hd
        intro hat
        obtain ⟨l, w, rfl, hw⟩ := exists_last_at hat
        exact h d l (.full a b w ha hb hd hw rfl)
      · exact srsAddress_of_notMem hp2
    · rw [skipHash_of_one ha hp1]
      apply srsAddress_of_not_at ha
      intro hat
      obtain ⟨l, w, rfl, hw⟩ := exists_last_at hat
      exact h a l (.bare w ha hp1 hw rfl)
  · rw [skipHash_of_notMem hp, srsAddress_of_notMem hp]

theorem canonSrs_of {x y : Bytes} (h : SrsOf x y) : canonSrs x = y := by
  obtain ⟨s, domain, localPart, rfl, hreads, rfl, hlong⟩ := h
  rw [canonSrs_text, decode_of_reads hreads, if_pos hlong]

theorem canonSrs_of_none {x : Bytes} (h : ∀ y, ¬ SrsOf x y) : canonSrs x = x := by
  by_cases hsrs : isSrs x = true
  · obtain ⟨s, rfl⟩ := exists_srsSender hsrs
    rw [canonSrs_text]
    apply if_neg
    by_cases hreads : ∃ domain localPart, Reads s.payload domain localPart
    · obtain ⟨domain, localPart, hreads⟩ := hreads
      intro hlong
      rw [decode_of_reads hreads] at hlong
      exact h _ ⟨s, domain, localPart, rfl, hreads, rfl, hlong⟩
    · rw [decode_of_not_reads fun domain localPart e => hreads ⟨domain, localPart, e⟩]
      rcases s.opening_quote with hopen | hopen <;> simp [hopen]
  · rw [canonSrs, if_neg hsrs]

/-! What a stage takes away. -/

theorem BatvOf.length_lt {x y : Bytes} (h : BatvOf x y) : y.length < x.length := by
  obtain ⟨t, rfl⟩ := h
  simp only [BatvTag.wrap, List.length_append, List.length_cons]
  omega

theorem BarracudaOf.length_lt {x y : Bytes} (h : BarracudaOf x y) : y.length < x.length := by
  obtain ⟨m, hash, -, -, rfl⟩ := h
  simp only [List.length_append, List.length_cons]
  omega

/-- A payload with two equals signs in front of `rest` is read behind the second one. -/
theorem Reads.of_two {a b rest domain localPart : Bytes} (ha : equals ∉ a) (hb : equals ∉ b)
    (h : Reads (a ++ equals :: (b ++ equals :: rest)) domain localPart) :
    ∃ forwarder, rest = domain ++ equals :: (localPart ++ atSign :: forwarder) ∧
      atSign ∉ forwarder := by
  cases h with
  | full hash timestamp forwarder hhash htime hdomain hforwarder heq =>
    obtain ⟨-, heq'⟩ := append_cons_inj_first ha hhash heq
    obtain ⟨-, hrest⟩ := append_cons_inj_first hb htime heq'
    exact ⟨forwarder, hrest, hforwarder⟩
  | bare forwarder hdomain hplain hforwarder heq =>
    obtain ⟨-, heq'⟩ := append_cons_inj_first ha hdomain heq
    rw [← heq'] at hplain
    exact absurd (List.mem_append_right b List.mem_cons_self) hplain

/-- What is read stands before the last `@`. -/
theorem Reads.length_le_of_at {z w domain localPart : Bytes} (hw : atSign ∉ w)
    (h : Reads (z ++ atSign :: w) domain localPart) :
    (localPart ++ atSign :: domain).length ≤ z.length := by
  cases h with
  | full hash timestamp forwarder _ _ _ hforwarder heq =>
    have heq' : z ++ atSign :: w = (hash ++ equals :: (timestamp ++ equals ::
        (domain ++ equals :: localPart))) ++ atSign :: forwarder := by
      rw [heq]
      simp only [List.append_assoc, List.cons_append]
    rw [(append_cons_inj_last hw hforwarder heq').1]
    simp only [List.length_append, List.length_cons]
    omega
  | bare forwarder _ _ hforwarder heq =>
    have heq' : z ++ atSign :: w = (domain ++ equals :: localPart) ++ atSign :: forwarder := by
      rw [heq]
      simp only [List.append_assoc, List.cons_append]
    rw [(append_cons_inj_last hw hforwarder heq').1]
    simp only [List.length_append, List.length_cons]
    omega

theorem Reads.length_le {p domain localPart : Bytes} (h : Reads p domain localPart) :
    (localPart ++ atSign :: domain).length ≤ p.length := by
  cases h with
  | full hash timestamp forwarder _ _ _ _ heq =>
    simp only [heq, List.length_append, List.length_cons]
    omega
  | bare forwarder _ _ _ heq =>
    simp only [heq, List.length_append, List.length_cons]
    omega

theorem length_of_behind {s r : Bytes} {c : UInt8} (h : behind s c = some r) :
    r.length + 2 ≤ s.length := by
  obtain ⟨pre, rfl, -⟩ := behind_eq_some_iff.mp h
  simp only [List.length_append, List.length_cons]
  omega

theorem innerPayload_length_le (body : Bytes) : (innerPayload body).length ≤ body.length := by
  unfold innerPayload
  cases h1 : behind body equals with
  | some r =>
    have := length_of_behind h1
    simp only [Option.orElse_some, Option.getD_some]
    omega
  | none =>
    cases h2 : behind body minus with
    | some r =>
      have := length_of_behind h2
      simp only [Option.orElse_none, Option.orElse_some, Option.getD_some]
      omega
    | none =>
      cases h3 : behind body plus with
      | some r =>
        have := length_of_behind h3
        simp only [Option.orElse_none, Option.getD_some]
        omega
      | none => simp

theorem SrsOf.length_lt {x y : Bytes} (h : SrsOf x y) : y.length < x.length := by
  obtain ⟨s, domain, localPart, rfl, hreads, rfl, -⟩ := h
  have hpayload : s.payload.length ≤ s.body.length := by
    unfold SrsSender.payload
    split
    · exact innerPayload_length_le s.body
    · exact le_rfl
  have hle := hreads.length_le
  simp only [SrsSender.text, List.length_append, List.length_cons] at hle ⊢
  omega

/-- The stage `f` undoes what `R` reads, which makes the string shorter, and
leaves every other string alone. -/
structure Stage (R : Bytes → Bytes → Prop) (f : Bytes → Bytes) : Prop where
  undone : ∀ {x y}, R x y → f x = y
  unread : ∀ {x}, (∀ y, ¬ R x y) → f x = x
  shorter : ∀ {x y}, R x y → y.length < x.length

theorem srsStage : Stage SrsOf canonSrs := ⟨canonSrs_of, canonSrs_of_none, SrsOf.length_lt⟩

theorem batvStage : Stage BatvOf canonBatv := ⟨canonBatv_of, canonBatv_of_none, BatvOf.length_lt⟩

theorem barracudaStage : Stage BarracudaOf canonBarracuda :=
  ⟨canonBarracuda_of, canonBarracuda_of_none, BarracudaOf.length_lt⟩

namespace Stage

variable {R : Bytes → Bytes → Prop} {f : Bytes → Bytes}

theorem undo_iff (S : Stage R f) {x y : Bytes} : Undo R x y ↔ f x = y := by
  constructor
  · intro hcases
    rcases hcases with h | ⟨rfl, hnone⟩
    · exact S.undone h
    · exact S.unread hnone
  · rintro rfl
    by_cases h : ∃ z, R x z
    · obtain ⟨z, hz⟩ := h
      exact Or.inl (by rwa [S.undone hz])
    · have hnone : ∀ z, ¬ R x z := fun z hz => h ⟨z, hz⟩
      exact Or.inr ⟨S.unread hnone, hnone⟩

theorem length_le (S : Stage R f) (x : Bytes) : (f x).length ≤ x.length := by
  rcases S.undo_iff.mpr rfl with h | ⟨heq, -⟩
  · exact (S.shorter h).le
  · rw [heq]

/-- A stage that takes nothing away reads nothing. -/
theorem not_read (S : Stage R f) {x : Bytes} (h : x.length ≤ (f x).length) (y : Bytes) :
    ¬ R x y := by
  intro hy
  have hlt := S.shorter hy
  rw [S.undone hy] at h
  omega

end Stage

/-- Exactly the strings in which no stage reads a tag are left alone. -/
theorem canonFrom_eq_self_iff (x : Bytes) : canonFrom x = x ↔ ¬ Tagged x := by
  constructor
  · intro heq htagged
    obtain ⟨y, hy⟩ := htagged
    have h1 := srsStage.length_le x
    have h2 := batvStage.length_le (canonSrs x)
    have h3 := barracudaStage.length_le (canonBatv (canonSrs x))
    have hlen : (canonBarracuda (canonBatv (canonSrs x))).length = x.length :=
      congrArg List.length heq
    have hsrs : ∀ y, ¬ SrsOf x y := srsStage.not_read (by omega)
    rw [srsStage.unread hsrs] at h2 h3 hlen
    have hbatv : ∀ y, ¬ BatvOf x y := batvStage.not_read (by omega)
    rw [batvStage.unread hbatv] at h3 hlen
    have hbarracuda : ∀ y, ¬ BarracudaOf x y := barracudaStage.not_read (by omega)
    rcases hy with hy | hy | hy
    · exact hsrs y hy
    · exact hbatv y hy
    · exact hbarracuda y hy
  · intro hplain
    rw [canonFrom, srsStage.unread fun y hy => hplain ⟨y, Or.inl hy⟩,
      batvStage.unread fun y hy => hplain ⟨y, Or.inr (Or.inl hy)⟩,
      barracudaStage.unread fun y hy => hplain ⟨y, Or.inr (Or.inr hy)⟩]

/-- Nothing is read in a plain address. -/
theorem not_tagged_plainAddress (A : PlainAddress) : ¬ Tagged A.text := by
  intro htagged
  obtain ⟨y, ⟨s, -, -, htext, -⟩ | ⟨t, htext⟩ | ⟨marker, hash, hmarker, -, htext⟩⟩ := htagged
  · apply A.untagged.1
    refine ⟨s.digit, s.digit_mem, s.sep, s.sep_mem, ?_⟩
    have hsame : ∀ c ∈ bytes "01" ++ srsSeparators, tolower c = c := by decide +kernel
    have hdigit := hsame s.digit (List.mem_append_left _ s.digit_mem)
    have hsep := hsame s.sep (List.mem_append_right _ s.sep_mem)
    have hunquoted : SenderTags.unquoted (A.localPart ++ atSign :: A.domain) =
        s.marker ++ [s.digit, s.sep] ++ s.body := by
      rw [← PlainAddress.text, htext, s.unquoted_text]
      simp
    rw [hunquoted, lower_append, lower_append, s.marker_srs]
    simp only [lower, List.map_cons, List.map_nil, hdigit, hsep]
    exact List.prefix_append _ _
  · apply A.not_prvs
    rw [htext]
    exact prefix_of_marker t.marker_prvs _
  · apply A.not_btv1
    rw [htext]
    exact prefix_of_marker hmarker _

theorem WellFormedInner.count_le {p : Bytes} (h : WellFormedInner p) : 3 ≤ p.count equals := by
  obtain ⟨hash, timestamp, domain, localPart, forwarder, rfl, -⟩ := h
  simp only [List.count_append, List.count_cons_self]
  omega

/-- Fewer than three equals signs make no well-formed SRS sender. -/
theorem WellFormedSrs.count_le {x : Bytes} (h : WellFormedSrs x) : 3 ≤ x.count equals := by
  obtain ⟨opening, marker, digit, sep, body, -, -, -, hbody, rfl⟩ := h
  have hcount : 3 ≤ body.count equals := by
    cases hbody with
    | srs0 hp => exact hp.count_le
    | srs1 houter hfirst hsep hp =>
      have := hp.count_le
      simp only [List.count_append, List.count_cons]
      omega
  simp only [List.count_append, List.count_cons]
  omega

theorem not_wellFormed_of_count {x : Bytes} (hcount : x.count equals < 3)
    (hprvs : ¬ bytes "prvs=" <+: lower x) (hbtv1 : ¬ bytes "btv1==" <+: lower x) :
    ¬ WellFormed x := by
  intro h
  rcases h with hsrs | ⟨y, ⟨t, rfl⟩, -⟩ | ⟨y, ⟨marker, hash, hmarker, -, rfl⟩, -⟩
  · have := hsrs.count_le
    omega
  · exact hprvs (prefix_of_marker t.marker_prvs _)
  · exact hbtv1 (prefix_of_marker hmarker _)

/-- SRS with an opaque string, which no stage can take for a tag. -/
def opaqueSender : Bytes := bytes "SRS0=thisisreallyanopaquestring@example.edu"

/-- Running the three stages again changes nothing exactly when one tag of each
kind, taken off in their order, leaves no tag. -/
theorem canonFrom_canonFrom_iff (x : Bytes) : canonFrom (canonFrom x) = canonFrom x ↔
    ∃ a b c, Undo SrsOf x a ∧ Undo BatvOf a b ∧ Undo BarracudaOf b c ∧ ¬ Tagged c := by
  simp only [srsStage.undo_iff, batvStage.undo_iff, barracudaStage.undo_iff]
  rw [canonFrom_eq_self_iff]
  constructor
  · intro hplain
    exact ⟨_, _, _, rfl, rfl, rfl, hplain⟩
  · intro hparts
    obtain ⟨a, b, c, rfl, rfl, rfl, hplain⟩ := hparts
    exact hplain

/-- A BATV tag inside a Barracuda tag is not undone by the first run. -/
theorem tag_left_over : ¬ ∀ x, canonFrom (canonFrom x) = canonFrom x := by
  intro h
  exact absurd (h (bytes "btv1==hash==prvs=tag=foo@example.com")) (by decide)

end Simvacation.SenderForms
