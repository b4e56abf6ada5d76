import Simvacation.SenderForms

/-!
SRS1 senders, which a second forwarder made of a rewritten sender. The wrapped
address begins behind the first pair of an equals sign and a separator, and the
three pairs are searched one after the other over all of the text. So `==` in
the local part is met before an inner `=-`, and both before an inner `=+`.
-/

namespace Simvacation.Reforwarding

open CString Yasl Vutil SenderTags SenderForms

/-- What the two forwarders add; the inner part of the tag is that of SRS0. -/
structure Reforward extends SrsTag where
  outerHash : Bytes
  first : Bytes
  innerSep : UInt8
  outerHash_ne : outerHash ≠ []
  first_ne : first ≠ []
  outerHash_plain : equals ∉ outerHash ∧ atSign ∉ outerHash
  first_plain : equals ∉ first ∧ atSign ∉ first
  innerSep_mem : innerSep ∈ srsSeparators

/-- `hash=timestamp=domain=local@forwarder`. -/
def Reforward.inner (t : Reforward) (A : PlainAddress) : Bytes :=
  t.hash ++ equals :: (t.timestamp ++ equals ::
    (A.domain ++ equals :: (A.localPart ++ atSign :: t.forwarder)))

/-- What follows the marker and its separator. -/
def Reforward.body (t : Reforward) (A : PlainAddress) : Bytes :=
  t.outerHash ++ equals :: (t.first ++ equals :: t.innerSep :: t.inner A)

/-- `SRS1<sep>outerhash=first=<innersep>hash=timestamp=domain=local@forwarder`. -/
def Reforward.srs1 (t : Reforward) (A : PlainAddress) : Bytes :=
  t.marker ++ 49 :: t.sep :: t.body A

/-- No pair that is searched earlier, or that stands further in front, is met
before the inner separator. -/
inductive SeparatorFound (t : Reforward) (A : PlainAddress) : Prop where
  | ofEquals (hsep : t.innerSep = equals)
  | ofMinus (hsep : t.innerSep = minus) (hlocal : ¬ [equals, equals] <:+: equals :: A.localPart)
      (hfirst : t.first.head? ≠ some minus)
  | ofPlus (hsep : t.innerSep = plus) (hlocal : ¬ [equals, equals] <:+: equals :: A.localPart)
      (hlocal' : ¬ [equals, minus] <:+: equals :: A.localPart)
      (hfirst : t.first.head? ≠ some minus ∧ t.first.head? ≠ some plus)
      (htimestamp : t.timestamp.head? ≠ some minus) (hdomain : A.domain.head? ≠ some minus)

/-- The payloads that begin at a wrong pair: in the first forwarder, the timestamp,
the domain or the local part. -/
inductive Misread (t : Reforward) (A : PlainAddress) : Bytes → Prop where
  | first (hsep : t.innerSep ≠ equals) :
      Misread t A (t.first.tail ++ equals :: t.innerSep :: t.inner A)
  | timestamp : Misread t A (t.timestamp.tail ++ equals ::
      (A.domain ++ equals :: (A.localPart ++ atSign :: t.forwarder)))
  | domain : Misread t A (A.domain.tail ++ equals :: (A.localPart ++ atSign :: t.forwarder))
  | localPart (rest : Bytes) (hrest : rest.length < A.localPart.length) :
      Misread t A (rest ++ atSign :: t.forwarder)

theorem behind_append {x : Bytes} (h : equals ∉ x) (s : Bytes) (c : UInt8) :
    behind (x ++ s) c = behind s c := by
  induction x with
  | nil => rfl
  | cons b x ih =>
    have hb : ¬ (b = equals ∧ (x ++ s).head? = some c) := fun e => h (e.1 ▸ List.mem_cons_self)
    rw [List.cons_append, behind_cons, if_neg hb]
    exact ih fun e => h (List.mem_cons_of_mem b e)

theorem behind_append_equals {x : Bytes} (h : equals ∉ x) (s : Bytes) (c : UInt8) :
    behind (x ++ equals :: s) c = if s.head? = some c then some s.tail else behind s c := by
  rw [behind_append h, behind_cons]
  simp

theorem behind_of_notMem {s : Bytes} (h : equals ∉ s) (c : UInt8) : behind s c = none := by
  have hs := behind_append h [] c
  rw [List.append_nil] at hs
  rw [hs]
  rfl

/-- A pair does not reach across the last `@`, so it is searched in front of it. -/
theorem behind_append_at {w : Bytes} (hw : equals ∉ w) {c : UInt8} (hc : c ≠ atSign) (z : Bytes) :
    behind (z ++ atSign :: w) c = (behind z c).map (· ++ atSign :: w) := by
  induction z with
  | nil =>
    have hat : equals ∉ atSign :: w := by
      rw [List.mem_cons, not_or]
      exact ⟨by decide, hw⟩
    rw [List.nil_append, behind_of_notMem hat]
    rfl
  | cons b z ih =>
    rw [List.cons_append, behind_cons, behind_cons, ih]
    cases z with
    | nil => simp [Ne.symm hc]
    | cons d z =>
      have hhead : (d :: z ++ atSign :: w).head? = (d :: z).head? := rfl
      rw [hhead]
      by_cases hpair : b = equals ∧ (d :: z).head? = some c
      · rw [if_pos hpair, if_pos hpair]
        rfl
      · rw [if_neg hpair, if_neg hpair]

theorem head?_ne_equals {x : Bytes} (h : equals ∉ x) : x.head? ≠ some equals :=
  fun e => h (List.mem_of_head? e)

section Search

variable (t : Reforward) (A : PlainAddress)

/-- The search for a pair passes the outer hash, and ends at the first forwarder or
at the inner separator if one of them fits. -/
theorem behind_body (c : UInt8) : behind (t.body A) c =
    if t.first.head? = some c then some (t.first.tail ++ equals :: t.innerSep :: t.inner A)
    else if t.innerSep = c then some (t.inner A)
    else behind (t.innerSep :: t.inner A) c := by
  have hsep : (t.innerSep :: t.inner A).head? = some c ↔ t.innerSep = c := by simp
  rw [Reforward.body, behind_append_equals t.outerHash_plain.1,
    List.head?_append_of_ne_nil _ t.first_ne, behind_append_equals t.first_plain.1]
  simp only [hsep, List.tail_cons, List.tail_append_of_ne_nil t.first_ne]

/-- Then it ends at the timestamp, at the domain, or in the local part. -/
theorem behind_inner {c : UInt8} (hc : c ≠ atSign) : behind (t.inner A) c =
    if t.timestamp.head? = some c then
      some (t.timestamp.tail ++ equals :: (A.domain ++ equals ::
        (A.localPart ++ atSign :: t.forwarder)))
    else if A.domain.head? = some c then
      some (A.domain.tail ++ equals :: (A.localPart ++ atSign :: t.forwarder))
    else (behind (equals :: A.localPart) c).map (· ++ atSign :: t.forwarder) := by
  have hlocal : behind (equals :: (A.localPart ++ atSign :: t.forwarder)) c =
      (behind (equals :: A.localPart) c).map (· ++ atSign :: t.forwarder) :=
    behind_append_at t.forwarder_plain.1 hc (equals :: A.localPart)
  rw [Reforward.inner, behind_append_equals t.hash_plain.1,
    List.head?_append_of_ne_nil _ t.timestamp_ne, behind_append_equals t.timestamp_plain.1,
    List.head?_append_of_ne_nil _ A.domain_ne, behind_append A.domain_plain.1, hlocal]
  simp only [List.tail_append_of_ne_nil t.timestamp_ne, List.tail_append_of_ne_nil A.domain_ne]

theorem behind_body_equals (hsep : t.innerSep ≠ equals) : behind (t.body A) equals =
    (behind (equals :: A.localPart) equals).map (· ++ atSign :: t.forwarder) := by
  rw [behind_body, if_neg (head?_ne_equals t.first_plain.1), if_neg hsep, behind_cons,
    if_neg fun e => hsep e.1, behind_inner t A (by decide),
    if_neg (head?_ne_equals t.timestamp_plain.1), if_neg (head?_ne_equals A.domain_plain.1)]

/-- What is found in the local part is shorter than the local part. -/
theorem misread_of_local {c : UInt8} {rest : Bytes}
    (h : behind (equals :: A.localPart) c = some rest) :
    Misread t A (rest ++ atSign :: t.forwarder) := by
  have hlen := length_of_behind h
  rw [List.length_cons] at hlen
  exact .localPart rest (by omega)

/-- Without a pair at the first forwarder and an inner separator of its own, the
search goes on in the inner part. -/
theorem behind_body_of_ne {c : UInt8} (hsep : t.innerSep ≠ equals) (hfirst : t.first.head? ≠ some c)
    (hc : t.innerSep ≠ c) : behind (t.body A) c = behind (t.inner A) c := by
  rw [behind_body, if_neg hfirst, if_neg hc, behind_cons, if_neg fun e => hsep e.1]

theorem payload_of_found (h : SeparatorFound t A) : innerPayload (t.body A) = t.inner A := by
  cases h with
  | ofEquals hsep =>
    have hequals : behind (t.body A) equals = some (t.inner A) := by
      rw [behind_body, if_neg (head?_ne_equals t.first_plain.1), if_pos hsep]
    simp only [innerPayload, hequals, Option.orElse_some, Option.getD_some]
  | ofMinus hsep hlocal hfirst =>
    have hne : t.innerSep ≠ equals := by rw [hsep]; decide
    have hequals : behind (t.body A) equals = none := by
      rw [behind_body_equals t A hne, behind_eq_none_iff.mpr hlocal, Option.map_none]
    have hminus : behind (t.body A) minus = some (t.inner A) := by
      rw [behind_body, if_neg hfirst, if_pos hsep]
    simp only [innerPayload, hequals, hminus, Option.orElse_none, Option.orElse_some,
      Option.getD_some]
  | ofPlus hsep hlocal hlocal' hfirst htimestamp hdomain =>
    have hne : t.innerSep ≠ equals := by rw [hsep]; decide
    have hequals : behind (t.body A) equals = none := by
      rw [behind_body_equals t A hne, behind_eq_none_iff.mpr hlocal, Option.map_none]
    have hminus : behind (t.body A) minus = none := by
      rw [behind_body_of_ne t A hne hfirst.1 (by rw [hsep]; decide), behind_inner t A (by decide),
        if_neg htimestamp, if_neg hdomain, behind_eq_none_iff.mpr hlocal', Option.map_none]
    have hplus : behind (t.body A) plus = some (t.inner A) := by
      rw [behind_body, if_neg hfirst.2, if_pos hsep]
    simp only [innerPayload, hequals, hminus, hplus, Option.orElse_none, Option.getD_some]

/-- A search for the minus pair that fails to find an inner minus, or finds an inner
plus too late, ends at one of the wrong places. -/
theorem misread_of_minus (hsep : t.innerSep ≠ equals) (hminus : t.innerSep ≠ minus)
    {p : Bytes} (h : behind (t.body A) minus = some p) : Misread t A p := by
  by_cases hfirst : t.first.head? = some minus
  · rw [behind_body, if_pos hfirst] at h
    cases h
    exact .first hsep
  · rw [behind_body_of_ne t A hsep hfirst hminus, behind_inner t A (by decide)] at h
    split_ifs at h with htimestamp hdomain
    · cases h
      exact .timestamp
    · cases h
      exact .domain
    · obtain ⟨rest, hrest, rfl⟩ := Option.map_eq_some_iff.mp h
      exact misread_of_local t A hrest

/-- No minus pair at all. -/
theorem heads_of_no_minus (hsep : t.innerSep ≠ equals) (hminus : t.innerSep ≠ minus)
    (h : behind (t.body A) minus = none) : t.first.head? ≠ some minus ∧
      t.timestamp.head? ≠ some minus ∧ A.domain.head? ≠ some minus ∧
      ¬ [equals, minus] <:+: equals :: A.localPart := by
  have hfirst : t.first.head? ≠ some minus := by
    intro hfirst
    rw [behind_body, if_pos hfirst] at h
    cases h
  rw [behind_body_of_ne t A hsep hfirst hminus, behind_inner t A (by decide)] at h
  split_ifs at h with htimestamp hdomain
  exact ⟨hfirst, htimestamp, hdomain, behind_eq_none_iff.mp (Option.map_eq_none_iff.mp h)⟩

theorem payload_misread (h : ¬ SeparatorFound t A) : Misread t A (innerPayload (t.body A)) := by
  have hsep : t.innerSep ≠ equals := fun e => h (.ofEquals e)
  have hcases : t.innerSep = minus ∨ t.innerSep = plus := by
    have hmem := t.innerSep_mem
    rw [show srsSeparators = [equals, minus, plus] by decide] at hmem
    simpa [hsep] using hmem
  cases hequals : behind (equals :: A.localPart) equals with
  | some rest =>
    have hbody : behind (t.body A) equals = some (rest ++ atSign :: t.forwarder) := by
      rw [behind_body_equals t A hsep, hequals, Option.map_some]
    simp only [innerPayload, hbody, Option.orElse_some, Option.getD_some]
    exact misread_of_local t A hequals
  | none =>
    have hlocal := behind_eq_none_iff.mp hequals
    have hbody : behind (t.body A) equals = none := by
      rw [behind_body_equals t A hsep, hequals, Option.map_none]
    simp only [innerPayload, hbody, Option.orElse_none]
    rcases hcases with hminus | hplus
    · have hfirst : t.first.head? = some minus := by
        by_contra hfirst
        exact h (.ofMinus hminus hlocal hfirst)
      rw [behind_body, if_pos hfirst]
      exact .first hsep
    · have hne : t.innerSep ≠ minus := by rw [hplus]; decide
      cases hbody' : behind (t.body A) minus with
      | some p => exact misread_of_minus t A hsep hne hbody'
      | none =>
        have hfirst : t.first.head? = some plus := by
          by_contra hfirst
          obtain ⟨hfirst', htimestamp, hdomain, hlocal'⟩ := heads_of_no_minus t A hsep hne hbody'
          exact h (.ofPlus hplus hlocal hlocal' ⟨hfirst', hfirst⟩ htimestamp hdomain)
        rw [behind_body, if_pos hfirst]
        exact .first hsep

end Search

/-- The sender in the form of the SRS branch. -/
def Reforward.sender (t : Reforward) (A : PlainAddress) : SrsSender where
  opening := []
  marker := t.marker
  digit := 49
  sep := t.sep
  body := t.body A
  opening_quote := Or.inl rfl
  marker_srs := t.marker_srs
  digit_mem := by decide
  sep_mem := t.sep_mem
  long := by
    have hmarker : t.marker.length = 3 := marker_length t.marker_srs
    have h1 := List.length_pos_iff.mpr t.outerHash_ne
    have h2 := List.length_pos_iff.mpr t.first_ne
    have h3 := List.length_pos_iff.mpr t.hash_ne
    have h4 := List.length_pos_iff.mpr t.timestamp_ne
    have h5 := List.length_pos_iff.mpr A.domain_ne
    simp only [Reforward.body, Reforward.inner, List.length_append, List.length_cons,
      List.length_nil, hmarker]
    omega

theorem payload_sender (t : Reforward) (A : PlainAddress) :
    (t.sender A).payload = innerPayload (t.body A) := rfl

theorem srs1_length (t : Reforward) (A : PlainAddress) : A.text.length < (t.srs1 A).length := by
  simp only [Reforward.srs1, Reforward.body, Reforward.inner, PlainAddress.text,
    List.length_append, List.length_cons]
  omega

theorem one_lt_length (a : Bytes) {b : Bytes} (h : b ≠ []) : 1 < (a ++ atSign :: b).length := by
  have := List.length_pos_iff.mpr h
  simp only [List.length_append, List.length_cons]
  omega

theorem canonFrom_of_found {t : Reforward} {A : PlainAddress} (h : SeparatorFound t A) :
    canonFrom (t.srs1 A) = A.text := by
  have hreads : Reads (t.sender A).payload A.domain A.localPart := by
    rw [payload_sender, payload_of_found t A h]
    exact .full t.hash t.timestamp t.forwarder t.hash_plain.1 t.timestamp_plain.1
      A.domain_plain.1 t.forwarder_plain.2 rfl
  have hsrs : SrsOf (t.srs1 A) A.text :=
    ⟨t.sender A, A.domain, A.localPart, rfl, hreads, rfl, one_lt_length _ A.domain_ne⟩
  rw [canonFrom, canonSrs_of hsrs, strip_plain]

/-- The later stages leave a string that begins with the SRS marker. -/
theorem strip_sender (t : Reforward) (A : PlainAddress) :
    canonBarracuda (canonBatv (t.srs1 A)) = t.srs1 A := by
  have hlower : lower (t.srs1 A) = bytes "srs" ++ lower (49 :: t.sep :: t.body A) := by
    rw [Reforward.srs1, lower_append, t.marker_srs]
  have hprvs : ¬ bytes "prvs=" <+: lower (t.srs1 A) := by
    rw [hlower]
    exact fun h => absurd (List.cons_prefix_cons.mp h).1 (by decide)
  have hbtv1 : ¬ bytes "btv1==" <+: lower (t.srs1 A) := by
    rw [hlower]
    exact fun h => absurd (List.cons_prefix_cons.mp h).1 (by decide)
  rw [canonBatv_of_not hprvs, canonBarracuda_of_not hbtv1]

/-- The SRS stage leaves the sender, or gives what the payload is read as. -/
theorem canonSrs_srs1_cases (t : Reforward) (A : PlainAddress) :
    canonSrs (t.srs1 A) = t.srs1 A ∨ ∃ domain localPart,
      Reads (t.sender A).payload domain localPart ∧
        canonSrs (t.srs1 A) = localPart ++ atSign :: domain := by
  have htext := canonSrs_text (t.sender A)
  by_cases hreads : ∃ domain localPart, Reads (t.sender A).payload domain localPart
  · obtain ⟨domain, localPart, hreads⟩ := hreads
    rw [decode_of_reads hreads] at htext
    split at htext
    · exact Or.inr ⟨domain, localPart, hreads, htext⟩
    · exact Or.inl htext
  · have hnone : ∀ domain localPart, ¬ Reads (t.sender A).payload domain localPart :=
      fun domain localPart e => hreads ⟨domain, localPart, e⟩
    have hopening : ¬ 1 < (t.sender A).opening.length := Nat.not_lt_zero 1
    rw [decode_of_not_reads hnone, if_neg hopening] at htext
    exact Or.inl htext

/-- If everything that the payload can be read as is too short, the result is not
the address, whether the reading is taken or the sender left alone. -/
theorem canonFrom_ne_of_short {t : Reforward} {A : PlainAddress}
    (h : ∀ domain localPart, Reads (t.sender A).payload domain localPart →
      (localPart ++ atSign :: domain).length < A.text.length) :
    canonFrom (t.srs1 A) ≠ A.text := by
  intro heq
  have hlength := congrArg List.length heq
  rw [canonFrom] at hlength
  rcases canonSrs_srs1_cases t A with hsame | ⟨domain, localPart, hreads, hsrs⟩
  · have hlong := srs1_length t A
    rw [hsame, strip_sender] at hlength
    omega
  · have hshort := h domain localPart hreads
    have hbatv := batvStage.length_le (canonSrs (t.srs1 A))
    have hbarracuda := barracudaStage.length_le (canonBatv (canonSrs (t.srs1 A)))
    rw [hsrs] at hbatv hbarracuda hlength
    omega

theorem tolower_eq_equals (c : UInt8) : tolower c = equals → c = equals := by
  apply forall_byte (P := fun c => tolower c = equals → c = equals)
  decide +kernel

/-- A marker that goes on behind an equals sign has one there in any letter case. -/
theorem exists_equals_of_marker {m front rest : Bytes} (h : lower m = front ++ equals :: rest) :
    ∃ m1 m2, m = m1 ++ equals :: m2 := by
  obtain ⟨m1, m', rfl, -, hm'⟩ := List.map_eq_append_iff.mp h
  obtain ⟨c, m2, rfl, hc, -⟩ := List.map_eq_cons_iff.mp hm'
  exact ⟨m1, m2, by rw [tolower_eq_equals c hc]⟩

theorem batv_cut {x y : Bytes} (h : BatvOf x y) :
    ∃ s1 s2, s2 ≠ [] ∧ x = s1 ++ equals :: (s2 ++ y) := by
  obtain ⟨t, rfl⟩ := h
  obtain ⟨m1, m2, hm⟩ := @exists_equals_of_marker _ (bytes "prvs") [] t.marker_prvs
  refine ⟨m1, m2 ++ t.tag ++ [equals], by simp, ?_⟩
  rw [BatvTag.wrap, hm]
  simp

theorem barracuda_cut {x y : Bytes} (h : BarracudaOf x y) :
    ∃ s1 s2, s2 ≠ [] ∧ x = s1 ++ equals :: (s2 ++ y) := by
  obtain ⟨m, hash, hmarker, -, rfl⟩ := h
  obtain ⟨m1, m2, rfl⟩ := @exists_equals_of_marker _ (bytes "btv1") [equals] hmarker
  exact ⟨m1, m2 ++ hash ++ [equals, equals], by simp, by simp⟩

/-- What the later stages take off ends behind an equals sign that is not its first. -/
theorem strip_cut (x : Bytes) : canonBarracuda (canonBatv x) = x ∨
    ∃ s1 s2, s2 ≠ [] ∧ x = s1 ++ equals :: (s2 ++ canonBarracuda (canonBatv x)) := by
  rcases batvStage.undo_iff.mpr (rfl : canonBatv x = _) with hbatv | ⟨hbatv, -⟩
  · obtain ⟨s1, s2, hs2, hx⟩ := batv_cut hbatv
    right
    rcases barracudaStage.undo_iff.mpr (rfl : canonBarracuda (canonBatv x) = _) with
      hbarracuda | ⟨hbarracuda, -⟩
    · obtain ⟨s3, s4, -, hy⟩ := barracuda_cut hbarracuda
      refine ⟨s1, s2 ++ s3 ++ equals :: s4, by simp, ?_⟩
      nth_rewrite 1 [hx, hy]
      simp
    · exact ⟨s1, s2, hs2, by rw [hbarracuda]; exact hx⟩
  · rw [hbatv]
    rcases barracudaStage.undo_iff.mpr (rfl : canonBarracuda x = _) with
      hbarracuda | ⟨hbarracuda, -⟩
    · exact Or.inr (barracuda_cut hbarracuda)
    · exact Or.inl hbarracuda

/-- Behind the first forwarder the timestamp is taken for the domain, and the domain
and the local part for the local part. No later stage takes off the domain alone. -/
theorem canonFrom_ne_of_first {t : Reforward} {A : PlainAddress} (hsep : t.innerSep ≠ equals)
    (hpayload : (t.sender A).payload = t.first.tail ++ equals :: t.innerSep :: t.inner A) :
    canonFrom (t.srs1 A) ≠ A.text := by
  have hfirst : equals ∉ t.first.tail := fun e => t.first_plain.1 (List.mem_of_mem_tail e)
  have hhash : equals ∉ t.innerSep :: t.hash := by
    rw [List.mem_cons, not_or]
    exact ⟨Ne.symm hsep, t.hash_plain.1⟩
  have hreads : Reads (t.sender A).payload t.timestamp (A.domain ++ equals :: A.localPart) := by
    refine .full t.first.tail (t.innerSep :: t.hash) t.forwarder hfirst hhash t.timestamp_plain.1
      t.forwarder_plain.2 ?_
    rw [hpayload, Reforward.inner]
    simp
  have hsrs : SrsOf (t.srs1 A) ((A.domain ++ equals :: A.localPart) ++ atSign :: t.timestamp) :=
    ⟨t.sender A, _, _, rfl, hreads, rfl, one_lt_length _ t.timestamp_ne⟩
  have htime := List.length_pos_iff.mpr t.timestamp_ne
  intro heq
  rw [canonFrom, canonSrs_of hsrs] at heq
  rcases strip_cut ((A.domain ++ equals :: A.localPart) ++ atSign :: t.timestamp) with
    hsame | ⟨s1, s2, hs2, hcut⟩
  · rw [hsame] at heq
    have hlen := congrArg List.length heq
    simp only [PlainAddress.text, List.length_append, List.length_cons] at hlen
    omega
  · rw [heq, PlainAddress.text] at hcut
    have hcut' : (A.domain ++ equals :: A.localPart) ++ atSign :: t.timestamp =
        (s1 ++ equals :: (s2 ++ A.localPart)) ++ atSign :: A.domain := by
      rw [hcut]
      simp only [List.append_assoc, List.cons_append]
    have hfront := (append_cons_inj_last t.timestamp_plain.2 A.domain_plain.2 hcut').1
    have hfront' : (A.domain ++ [equals]) ++ A.localPart = (s1 ++ equals :: s2) ++ A.localPart := by
      simpa using hfront
    have hdomain := List.append_cancel_right hfront'
    obtain ⟨s2, b, rfl⟩ := (List.eq_nil_or_concat s2).resolve_left hs2
    rw [List.concat_eq_append, ← List.cons_append, ← List.append_assoc] at hdomain
    have hmem : equals ∈ A.domain := by
      rw [(List.append_inj' hdomain rfl).1]
      exact List.mem_append_right s1 List.mem_cons_self
    exact A.domain_plain.1 hmem

theorem canonFrom_ne_of_misread {t : Reforward} {A : PlainAddress}
    (h : Misread t A (t.sender A).payload) : canonFrom (t.srs1 A) ≠ A.text := by
  have hdomain_pos := List.length_pos_iff.mpr A.domain_ne
  have hdomain : equals ∉ A.domain.tail := fun e => A.domain_plain.1 (List.mem_of_mem_tail e)
  have htimestamp : equals ∉ t.timestamp.tail :=
    fun e => t.timestamp_plain.1 (List.mem_of_mem_tail e)
  have htext : A.text.length = A.localPart.length + A.domain.length + 1 := by
    simp only [PlainAddress.text, List.length_append, List.length_cons]
    omega
  generalize hp : (t.sender A).payload = p at h
  cases h with
  | first hsep => exact canonFrom_ne_of_first hsep hp
  | timestamp =>
    apply canonFrom_ne_of_short
    intro domain localPart hreads
    rw [hp] at hreads
    -- the timestamp and the domain are skipped, and only the local part is read
    obtain ⟨forwarder, hrest, hforwarder⟩ := hreads.of_two htimestamp A.domain_plain.1
    have hrest' : A.localPart ++ atSign :: t.forwarder =
        (domain ++ equals :: localPart) ++ atSign :: forwarder := by
      rw [hrest]
      simp only [List.append_assoc, List.cons_append]
    have hlocal := (append_cons_inj_last t.forwarder_plain.2 hforwarder hrest').1
    have hlen := congrArg List.length hlocal
    simp only [List.length_append, List.length_cons] at hlen ⊢
    omega
  | domain =>
    apply canonFrom_ne_of_short
    intro domain localPart hreads
    rw [hp, ← List.cons_append, ← List.append_assoc] at hreads
    have hlen := hreads.length_le_of_at t.forwarder_plain.2
    simp only [List.length_append, List.length_cons, List.length_tail] at hlen ⊢
    omega
  | localPart rest hrest =>
    apply canonFrom_ne_of_short
    intro domain localPart hreads
    rw [hp] at hreads
    have hlen := hreads.length_le_of_at t.forwarder_plain.2
    omega

/-- A reforwarded sender gives the address it encodes exactly when the search for
the inner separator finds it. -/
theorem canonFrom_srs1_iff (t : Reforward) (A : PlainAddress) :
    canonFrom (t.srs1 A) = canonFrom A.text ↔ SeparatorFound t A := by
  rw [(canonFrom_eq_self_iff A.text).mpr (not_tagged_plainAddress A)]
  constructor
  · intro heq
    by_contra h
    exact canonFrom_ne_of_misread (payload_misread t A h) heq
  · exact canonFrom_of_found

/-- An address with `==` in its local part, and a reforwarding with an inner minus. -/
def doubleEquals : PlainAddress where
  localPart := bytes "a==b"
  domain := bytes "example.org"
  localPart_ne := by decide
  domain_ne := by decide
  no_nul := by decide
  domain_plain := by decide
  untagged := by
    unfold Untagged HasSrsMarker
    decide

def innerMinus : Reforward where
  toSrsTag := forwarderTag
  outerHash := bytes "re2xz"
  first := bytes "example.com"
  innerSep := minus
  outerHash_ne := by decide
  first_ne := by decide
  outerHash_plain := by decide
  first_plain := by decide
  innerSep_mem := by decide

/-- The search stops in the local part, and no address is found there. -/
theorem reforwarded_sender_kept : ¬ ∀ (t : Reforward) (A : PlainAddress),
    canonFrom (t.srs1 A) = canonFrom A.text := by
  intro h
  exact absurd (h innerMinus doubleEquals) (by decide)

end Simvacation.Reforwarding
