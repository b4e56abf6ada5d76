import Simvacation.Vutil

/-!
Sender tags as forwarders write them, and the law that `canonFrom` undoes them.
An SRS0 address wraps a plain address with a hash, a timestamp and the domain;
BATV and Barracuda put a tag in front. A quoted local part keeps its quotes
around the whole SRS local part, so its opening quote moves to the front.
-/

namespace Simvacation.SenderTags

open CString Yasl Vutil

/-- The address without an opening quote. -/
def unquoted (a : Bytes) : Bytes := if a.head? = some quote then a.drop 1 else a

/-- Begins, in any letter case, with `SRS0` or `SRS1` and a separator. -/
def HasSrsMarker (a : Bytes) : Prop :=
  ∃ digit ∈ bytes "01", ∃ sep ∈ srsSeparators, lower (bytes "SRS") ++ [digit, sep] <+: lower a

def Untagged (a : Bytes) : Prop :=
  ¬ HasSrsMarker (unquoted a) ∧ ¬ bytes "prvs=" <+: lower (unquoted a) ∧
    ¬ bytes "btv1==" <+: lower (unquoted a)

/-- A plain address: nothing in it looks like a tag to be stripped. -/
structure PlainAddress where
  localPart : Bytes
  domain : Bytes
  localPart_ne : localPart ≠ []
  domain_ne : domain ≠ []
  no_nul : 0 ∉ localPart ++ domain
  domain_plain : equals ∉ domain ∧ atSign ∉ domain
  untagged : Untagged (localPart ++ atSign :: domain)

def PlainAddress.text (A : PlainAddress) : Bytes := A.localPart ++ atSign :: A.domain

/-- What a forwarder adds to an address when it rewrites it as SRS0. -/
structure SrsTag where
  marker : Bytes
  sep : UInt8
  hash : Bytes
  timestamp : Bytes
  forwarder : Bytes
  marker_srs : lower marker = bytes "srs"
  sep_mem : sep ∈ srsSeparators
  hash_ne : hash ≠ []
  timestamp_ne : timestamp ≠ []
  forwarder_ne : forwarder ≠ []
  hash_plain : equals ∉ hash ∧ atSign ∉ hash
  timestamp_plain : equals ∉ timestamp ∧ atSign ∉ timestamp
  forwarder_plain : equals ∉ forwarder ∧ atSign ∉ forwarder

/-- `SRS0<sep>hash=timestamp=domain=local@forwarder`. -/
def SrsTag.srs0 (t : SrsTag) (localPart domain : Bytes) : Bytes :=
  t.marker ++ 48 :: t.sep :: (t.hash ++ equals :: (t.timestamp ++ equals ::
    (domain ++ equals :: (localPart ++ atSign :: t.forwarder))))

/-- The quotes of the local part `"inner"` go around the whole SRS local part. -/
def SrsTag.srs0Quoted (t : SrsTag) (inner domain : Bytes) : Bytes :=
  quote :: t.srs0 (inner ++ [quote]) domain

/-- `prvs=tag=` in some letter case. -/
structure BatvTag where
  marker : Bytes
  tag : Bytes
  marker_prvs : lower marker = bytes "prvs="
  tag_plain : equals ∉ tag

def BatvTag.wrap (t : BatvTag) (a : Bytes) : Bytes := t.marker ++ (t.tag ++ equals :: a)

/-- `btv1==hash==` in some letter case. -/
structure BarracudaTag where
  marker : Bytes
  hash : Bytes
  marker_btv1 : lower marker = bytes "btv1=="
  hash_plain : equals ∉ hash

def BarracudaTag.wrap (t : BarracudaTag) (a : Bytes) : Bytes :=
  t.marker ++ (t.hash ++ equals :: equals :: a)

theorem marker_length {m marker : Bytes} (h : lower m = marker) : m.length = marker.length := by
  rw [← h, lower_length]

theorem prefix_of_marker {m marker : Bytes} (hm : lower m = marker) (rest : Bytes) :
    marker <+: lower (m ++ rest) := by
  rw [lower_append, hm]
  exact List.prefix_append _ _

/-- A text beginning with a literal in some letter case has it as its front part. -/
theorem exists_marker {a marker : Bytes} (h : marker <+: lower a) :
    ∃ m rest, a = m ++ rest ∧ lower m = marker := by
  obtain ⟨rest, hrest⟩ := h
  refine ⟨a.take marker.length, a.drop marker.length, (List.take_append_drop _ _).symm, ?_⟩
  rw [lower, List.map_take, ← lower, ← hrest, List.take_left]

theorem strncasecmp_marker {m literal : Bytes} (hnul : 0 ∉ literal) (hm : lower m = lower literal)
    (rest : Bytes) : strncasecmp (m ++ rest) literal literal.length = 0 :=
  (strncasecmp_eq_zero_iff' hnul).mpr (prefix_of_marker hm rest)

/-- A string with a marker is not mistaken for one with another marker. -/
theorem not_prefix_of_marker {m rest other : Bytes} {marker : Bytes}
    (hm : lower m = marker) (hlen : other.length ≤ marker.length)
    (hne : ¬ other <+: marker) : ¬ other <+: lower (m ++ rest) := by
  rw [lower_append, hm]
  intro h
  exact hne (List.prefix_of_prefix_length_le h (List.prefix_append _ _) hlen)

theorem skipHash_eq {hash timestamp rest : Bytes} (hh : equals ∉ hash) (ht : equals ∉ timestamp) :
    skipHash (hash ++ equals :: (timestamp ++ equals :: rest)) = rest := by
  have hdrop : (hash ++ equals :: (timestamp ++ equals :: rest)).drop (hash.length + 1) =
      timestamp ++ equals :: rest := by
    rw [← List.drop_drop, List.drop_left]
    rfl
  unfold skipHash
  rw [strchr_append_cons hh]
  simp only [hdrop, strchr_append_cons ht]
  have hcut := yaslrange_drop (hash ++ equals :: (timestamp ++ equals :: rest))
    (hash.length + 1 + timestamp.length + 1)
  rw [Nat.cast_add, Nat.cast_one] at hcut
  rw [hcut, show hash.length + 1 + timestamp.length + 1 =
    (hash.length + 1) + (timestamp.length + 1) by omega, ← List.drop_drop, hdrop,
    ← List.drop_drop, List.drop_left]
  rfl

theorem srsAddress_eq {buf domain localPart forwarder : Bytes}
    (hd : equals ∉ domain) (hf : atSign ∉ forwarder) :
    srsAddress buf (domain ++ equals :: (localPart ++ atSign :: forwarder)) =
      buf ++ localPart ++ atSign :: domain := by
  have hsep : (domain ++ equals :: (localPart ++ atSign :: forwarder)).drop domain.length =
      (equals :: localPart) ++ atSign :: forwarder := by
    rw [List.drop_left]
    rfl
  have hafter : (domain ++ equals :: (localPart ++ atSign :: forwarder)).drop (domain.length + 1) =
      localPart ++ atSign :: forwarder := by
    rw [← List.drop_drop, hsep]
    rfl
  unfold srsAddress
  rw [strchr_append_cons hd]
  simp only [hsep, strrchr_append_cons hf, hafter]
  simp [yaslcatlen, yaslcat, cstr, bytes, atSign]

/-- A marker of three letters begins with one that is no quote. -/
theorem SrsTag.marker_cases (t : SrsTag) :
    ∃ a b c, t.marker = [a, b, c] ∧ tolower a = 115 ∧ tolower b = 114 ∧ tolower c = 115 := by
  have h : t.marker.map tolower = [115, 114, 115] := t.marker_srs
  obtain ⟨a, s, hs, ha, h⟩ := List.map_eq_cons_iff.mp h
  obtain ⟨b, s', rfl, hb, h⟩ := List.map_eq_cons_iff.mp h
  obtain ⟨c, s'', rfl, hc, h⟩ := List.map_eq_cons_iff.mp h
  rw [List.map_eq_nil_iff.mp h] at hs
  exact ⟨a, b, c, hs, ha, hb, hc⟩

theorem ne_quote_of_tolower {c d : UInt8} (h : tolower c = d) (hd : d ≠ quote) : c ≠ quote := by
  rintro rfl
  exact hd (h.symm.trans (by decide))

theorem SrsTag.srs0_head (t : SrsTag) (l d : Bytes) : (t.srs0 l d).head? ≠ some quote := by
  obtain ⟨a, b, c, hm, ha, -, -⟩ := t.marker_cases
  simp only [srs0, hm, List.cons_append, List.head?_cons, ne_eq, Option.some.injEq]
  exact ne_quote_of_tolower ha (by decide)

theorem SrsTag.srs0_length (t : SrsTag) {l d : Bytes} (hl : l ≠ []) (hd : d ≠ []) :
    13 < (t.srs0 l d).length := by
  have hm : t.marker.length = 3 := marker_length t.marker_srs
  have h1 := List.length_pos_iff.mpr t.hash_ne
  have h2 := List.length_pos_iff.mpr t.timestamp_ne
  have h3 := List.length_pos_iff.mpr t.forwarder_ne
  have h4 := List.length_pos_iff.mpr hl
  have h5 := List.length_pos_iff.mpr hd
  simp only [srs0, List.length_append, List.length_cons, hm]
  omega

theorem SrsTag.srs0_srs (t : SrsTag) (l d : Bytes) :
    strncasecmp (t.srs0 l d) (bytes "SRS") 3 = 0 :=
  strncasecmp_marker (show 0 ∉ bytes "SRS" by decide) t.marker_srs _

/-- The guard of the SRS branch holds, with and without the opening quote. -/
theorem SrsTag.isSrs_srs0 (t : SrsTag) {l d : Bytes} (hl : l ≠ []) (hd : d ≠ []) :
    isSrs (t.srs0 l d) = true ∧ isSrs (quote :: t.srs0 l d) = true := by
  obtain ⟨a, b, c, hm, -, -, -⟩ := t.marker_cases
  have hlen := t.srs0_length hl hd
  have hsrs := t.srs0_srs l d
  have hdigit : (t.srs0 l d)[3]?.getD 0 = 48 := by simp [srs0, hm]
  have hsep : (t.srs0 l d)[4]?.getD 0 = t.sep := by simp [srs0, hm]
  have hmem : t.sep ∈ srsSeparators := t.sep_mem
  constructor
  · simp [isSrs, t.srs0_head l d, hsrs, hlen, hdigit, hsep, hmem]
  · have hlen' : 13 < (t.srs0 l d).length + 1 := by omega
    simp [isSrs, hsrs, hlen', hdigit, hsep, hmem]

theorem SrsTag.skipMarker_srs0 (t : SrsTag) (l d : Bytes) :
    skipMarker (t.srs0 l d) = t.hash ++ equals :: (t.timestamp ++ equals ::
      (d ++ equals :: (l ++ atSign :: t.forwarder))) := by
  obtain ⟨a, b, c, hm, -, -, -⟩ := t.marker_cases
  have hdigit : (t.srs0 l d).getD 3 0 = 48 := by simp [srs0, hm]
  have hcut : yaslrange (t.srs0 l d) 5 (-1) = (t.srs0 l d).drop 5 := yaslrange_drop _ 5
  rw [skipMarker, hdigit, if_neg (by decide), hcut]
  simp [srs0, hm]

/-- Everything after the marker of an SRS0 address is undone in one piece. -/
theorem SrsTag.decode_srs0 (t : SrsTag) {l d : Bytes} (buf : Bytes) (hd : equals ∉ d) :
    srsAddress buf (skipHash (skipMarker (t.srs0 l d))) = buf ++ l ++ atSign :: d := by
  rw [t.skipMarker_srs0, skipHash_eq t.hash_plain.1 t.timestamp_plain.1,
    srsAddress_eq hd t.forwarder_plain.2]

theorem canonSrs_srs0 (t : SrsTag) {l d : Bytes} (hl : l ≠ []) (hd : d ≠ [])
    (hd' : equals ∉ d) : canonSrs (t.srs0 l d) = l ++ atSign :: d := by
  have hlong : (l ++ atSign :: d).length > 1 := by
    have := List.length_pos_iff.mpr hl
    have := List.length_pos_iff.mpr hd
    simp only [List.length_append, List.length_cons]
    omega
  have hdecode := t.decode_srs0 (l := l) [] hd'
  rw [List.nil_append] at hdecode
  simp only [canonSrs, (t.isSrs_srs0 hl hd).1, t.srs0_head l d, decide_false, ite_true,
    Bool.false_eq_true, ite_false, hdecode, hlong]

theorem canonSrs_srs0Quoted (t : SrsTag) {inner d : Bytes} (hd : d ≠ []) (hd' : equals ∉ d) :
    canonSrs (t.srs0Quoted inner d) = quote :: (inner ++ [quote]) ++ atSign :: d := by
  have hsrs := (t.isSrs_srs0 (l := inner ++ [quote]) (by simp) hd).2
  have hcut : yaslrange (quote :: t.srs0 (inner ++ [quote]) d) 1 (-1) =
      t.srs0 (inner ++ [quote]) d := yaslrange_drop (quote :: t.srs0 (inner ++ [quote]) d) 1
  have hdecode := t.decode_srs0 (l := inner ++ [quote]) [quote] hd'
  have hlong : ([quote] ++ (inner ++ [quote]) ++ atSign :: d).length > 1 := by
    simp only [List.length_append, List.length_cons]
    omega
  simp only [canonSrs, SrsTag.srs0Quoted, hsrs, List.head?_cons, decide_true, ite_true, hcut,
    hdecode, hlong]
  rfl

theorem canonSrs_of_not_srs {a : Bytes} (hq : a.head? ≠ some quote)
    (h : ¬ bytes "srs" <+: lower a) : canonSrs a = a := by
  have hne : strncasecmp a (bytes "SRS") 3 ≠ 0 :=
    fun e => h ((strncasecmp_eq_zero_iff' (show 0 ∉ bytes "SRS" by decide)).mp e)
  have hguard : isSrs a = false := by simp [isSrs, hq, hne]
  rw [canonSrs, hguard, if_neg (by decide)]

theorem canonBatv_of_not {a : Bytes} (h : ¬ bytes "prvs=" <+: lower a) : canonBatv a = a := by
  have hne : strncasecmp a (bytes "prvs=") 5 ≠ 0 :=
    fun e => h ((strncasecmp_eq_zero_iff' (show 0 ∉ bytes "prvs=" by decide)).mp e)
  rw [canonBatv, if_neg hne]

theorem canonBarracuda_of_not {a : Bytes} (h : ¬ bytes "btv1==" <+: lower a) :
    canonBarracuda a = a := by
  have hne : strncasecmp a (bytes "btv1==") 6 ≠ 0 :=
    fun e => h ((strncasecmp_eq_zero_iff' (show 0 ∉ bytes "btv1==" by decide)).mp e)
  rw [canonBarracuda, if_neg hne]

theorem canonBatv_wrap (t : BatvTag) (a : Bytes) : canonBatv (t.wrap a) = a := by
  have hlen : t.marker.length = 5 := marker_length t.marker_prvs
  have hmark : strncasecmp (t.wrap a) (bytes "prvs=") 5 = 0 :=
    strncasecmp_marker (show 0 ∉ bytes "prvs=" by decide) t.marker_prvs _
  have hdrop : (t.wrap a).drop 5 = t.tag ++ equals :: a := by
    rw [BatvTag.wrap, ← hlen, List.drop_left]
  have hcut := yaslrange_drop (t.wrap a) (5 + t.tag.length + 1)
  rw [Nat.cast_add, Nat.cast_one] at hcut
  rw [canonBatv, if_pos hmark, hdrop, strchr_append_cons t.tag_plain]
  simp only [hcut, Nat.add_assoc]
  rw [← List.drop_drop, hdrop, ← List.drop_drop, List.drop_left]
  rfl

theorem canonBarracuda_wrap (t : BarracudaTag) (a : Bytes) : canonBarracuda (t.wrap a) = a := by
  have hlen : t.marker.length = 6 := marker_length t.marker_btv1
  have hmark : strncasecmp (t.wrap a) (bytes "btv1==") 6 = 0 :=
    strncasecmp_marker (show 0 ∉ bytes "btv1==" by decide) t.marker_btv1 _
  have hdrop : (t.wrap a).drop 6 = t.hash ++ (equals :: [equals]) ++ a := by
    rw [BarracudaTag.wrap, ← hlen, List.drop_left, List.append_assoc]
    rfl
  have hcut := yaslrange_drop (t.wrap a) (6 + t.hash.length + 2)
  rw [Nat.cast_add, Nat.cast_ofNat] at hcut
  rw [canonBarracuda, if_pos hmark, hdrop, show bytes "==" = equals :: [equals] by decide,
    strstr_append t.hash_plain]
  simp only [hcut, Nat.add_assoc]
  rw [← List.drop_drop, hdrop, ← List.drop_drop, List.append_assoc, List.drop_left]
  rfl

/-- A literal that begins with a letter is not found behind an opening quote. -/
theorem unquoted_eq_of_prefix {c : UInt8} {m a : Bytes} (hc : c ≠ quote)
    (h : (c :: m) <+: lower a) : unquoted a = a := by
  unfold unquoted
  cases a with
  | nil => rfl
  | cons b a =>
    have hb : c = tolower b := (List.cons_prefix_cons.mp h).1
    have hne : b ≠ quote := ne_quote_of_tolower hb.symm hc
    simp [hne]

theorem PlainAddress.not_prvs (A : PlainAddress) : ¬ bytes "prvs=" <+: lower A.text := by
  intro h
  have hq : unquoted A.text = A.text := unquoted_eq_of_prefix (by decide) h
  exact A.untagged.2.1 (by rwa [← PlainAddress.text, hq])

theorem PlainAddress.not_btv1 (A : PlainAddress) : ¬ bytes "btv1==" <+: lower A.text := by
  intro h
  have hq : unquoted A.text = A.text := unquoted_eq_of_prefix (by decide) h
  exact A.untagged.2.2 (by rwa [← PlainAddress.text, hq])

/-- The later two stages leave a plain address alone, and undo the tags in front of it. -/
theorem strip_plain (A : PlainAddress) : canonBarracuda (canonBatv A.text) = A.text := by
  rw [canonBatv_of_not A.not_prvs, canonBarracuda_of_not A.not_btv1]

theorem strip_batv (A : PlainAddress) (p : BatvTag) :
    canonBarracuda (canonBatv (p.wrap A.text)) = A.text := by
  rw [canonBatv_wrap, canonBarracuda_of_not A.not_btv1]

theorem strip_barracuda (A : PlainAddress) (b : BarracudaTag) :
    canonBarracuda (canonBatv (b.wrap A.text)) = A.text := by
  have hbatv : ¬ bytes "prvs=" <+: lower (b.wrap A.text) :=
    not_prefix_of_marker b.marker_btv1 (by decide) (by decide)
  rw [canonBatv_of_not hbatv, canonBarracuda_wrap]

theorem strip_both (A : PlainAddress) (p : BatvTag) (b : BarracudaTag) :
    canonBarracuda (canonBatv (p.wrap (b.wrap A.text))) = A.text := by
  rw [canonBatv_wrap, canonBarracuda_wrap]

theorem head_ne_quote_of_marker {m rest marker : Bytes} {c : UInt8} (hm : lower m = c :: marker)
    (hc : c ≠ quote) : (m ++ rest).head? ≠ some quote := by
  obtain ⟨b, s, rfl, hb, -⟩ := List.map_eq_cons_iff.mp hm
  simpa using ne_quote_of_tolower hb hc

theorem canonSrs_batv (p : BatvTag) (a : Bytes) : canonSrs (p.wrap a) = p.wrap a :=
  canonSrs_of_not_srs (head_ne_quote_of_marker p.marker_prvs (by decide))
    (not_prefix_of_marker p.marker_prvs (by decide) (by decide))

theorem canonSrs_barracuda (b : BarracudaTag) (a : Bytes) : canonSrs (b.wrap a) = b.wrap a :=
  canonSrs_of_not_srs (head_ne_quote_of_marker b.marker_btv1 (by decide))
    (not_prefix_of_marker b.marker_btv1 (by decide) (by decide))

theorem BatvTag.wrap_append (p : BatvTag) (l rest : Bytes) :
    p.wrap l ++ rest = p.wrap (l ++ rest) := by simp [wrap]

theorem BarracudaTag.wrap_append (b : BarracudaTag) (l rest : Bytes) :
    b.wrap l ++ rest = b.wrap (l ++ rest) := by simp [wrap]

/-- An SRS0 encoding decodes to the address it encodes, whatever stands in its local part. -/
theorem canonFrom_srs0 (t : SrsTag) (A : PlainAddress) {l : Bytes} (hl : l ≠ []) :
    canonFrom (t.srs0 l A.domain) = canonBarracuda (canonBatv (l ++ atSign :: A.domain)) := by
  rw [canonFrom, canonSrs_srs0 t hl A.domain_ne A.domain_plain.1]

/-- Sender tags are undone: SRS0 with any separator, on a plain or a quoted
local part; BATV; the Barracuda tag; one inside the other; and SRS0 around
each of these. -/
theorem canonFrom_undoes_tags (A : PlainAddress) :
    (∀ t : SrsTag, canonFrom (t.srs0 A.localPart A.domain) = A.text) ∧
    (∀ (t : SrsTag) (inner : Bytes), A.localPart = quote :: (inner ++ [quote]) →
      canonFrom (t.srs0Quoted inner A.domain) = A.text) ∧
    (∀ p : BatvTag, canonFrom (p.wrap A.text) = A.text) ∧
    (∀ b : BarracudaTag, canonFrom (b.wrap A.text) = A.text) ∧
    (∀ (p : BatvTag) (b : BarracudaTag), canonFrom (p.wrap (b.wrap A.text)) = A.text) ∧
    (∀ (t : SrsTag) (p : BatvTag), canonFrom (t.srs0 (p.wrap A.localPart) A.domain) = A.text) ∧
    (∀ (t : SrsTag) (b : BarracudaTag),
      canonFrom (t.srs0 (b.wrap A.localPart) A.domain) = A.text) ∧
    (∀ (t : SrsTag) (p : BatvTag) (b : BarracudaTag),
      canonFrom (t.srs0 (p.wrap (b.wrap A.localPart)) A.domain) = A.text) := by
  refine ⟨?_, ?_, ?_, ?_, ?_, ?_, ?_, ?_⟩
  · intro t
    exact (canonFrom_srs0 t A A.localPart_ne).trans (strip_plain A)
  · intro t inner hquoted
    have htext : quote :: (inner ++ [quote]) ++ atSign :: A.domain = A.text := by
      rw [PlainAddress.text, hquoted]
    rw [canonFrom, canonSrs_srs0Quoted t A.domain_ne A.domain_plain.1, htext, strip_plain]
  · intro p
    rw [canonFrom, canonSrs_batv, strip_batv]
  · intro b
    rw [canonFrom, canonSrs_barracuda, strip_barracuda]
  · intro p b
    rw [canonFrom, canonSrs_batv, strip_both]
  · intro t p
    rw [canonFrom_srs0 t A (by simp [BatvTag.wrap]), BatvTag.wrap_append]
    exact strip_batv A p
  · intro t b
    rw [canonFrom_srs0 t A (by simp [BarracudaTag.wrap]), BarracudaTag.wrap_append]
    exact strip_barracuda A b
  · intro t p b
    rw [canonFrom_srs0 t A (by simp [BatvTag.wrap]), BatvTag.wrap_append,
      BarracudaTag.wrap_append]
    exact strip_both A p b

/-- A quoted sender and the tag a forwarder puts on it. -/
def quotedSender : PlainAddress where
  localPart := bytes "\"foo bar\""
  domain := bytes "subdomain.example.edu"
  localPart_ne := by decide
  domain_ne := by decide
  no_nul := by decide
  domain_plain := by decide
  untagged := by
    unfold Untagged HasSrsMarker
    decide

def forwarderTag : SrsTag where
  marker := bytes "SRS"
  sep := equals
  hash := bytes "gfkgj"
  timestamp := bytes "fp"
  forwarder := bytes "example.edu"
  marker_srs := by decide
  sep_mem := by decide
  hash_ne := by decide
  timestamp_ne := by decide
  forwarder_ne := by decide
  hash_plain := by decide
  timestamp_plain := by decide
  forwarder_plain := by decide

theorem canonFrom_undoes_quoted_tag :
    canonFrom (bytes "\"SRS0=gfkgj=fp=subdomain.example.edu=foo bar\"@example.edu") =
      bytes "\"foo bar\"@subdomain.example.edu" :=
  (canonFrom_undoes_tags quotedSender).2.1 forwarderTag (bytes "foo bar") (by decide)

end Simvacation.SenderTags
