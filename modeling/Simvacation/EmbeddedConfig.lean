import Simvacation.Stringizing

/-!
The built-in configuration (`genimbed.c`). A generated header has the default
configuration as the argument of a macro that turns it into a string, so the compiler
has to read JSON as C tokens. The programs give the parser what was emitted, byte for
byte, whatever strings are in it.
-/

namespace Simvacation.EmbeddedConfig

open CString Stringizing

def definition : Bytes := bytes "#define LONG_STRING_CONST(...) #__VA_ARGS__\n"

def declaration (slug : Bytes) : Bytes :=
  bytes "const char *SIMVACATION_" ++ slug ++ bytes " = LONG_STRING_CONST("

/-- `main` of `genimbed`: the exit code, or what it prints. `addFile` is a file as its
parser reads it and emits it again as compact JSON, when it does. -/
def genimbed (addFile : Bytes → Option Bytes) : List Bytes → Except ℕ Bytes
  | [_, file, slug] =>
    match addFile file with
    | none => .error 1
    | some json => .ok (definition ++ declaration slug ++ [lf] ++ json ++ bytes "\n);\n")
  | _ => .error 1

/-- What the compiler makes of the constant in such a header. -/
def constant (slug header : Bytes) : Option Bytes :=
  let source := splice header
  let start := definition ++ declaration slug
  if start.isPrefixOf source then
    match Stringizing.read .text 0 false (source.drop start.length) with
    | none => none
    | some (ts, rest) => if rest = bytes ";\n" then literalValue (stringize ts) else none
  else none

/-- The letters, digits and underscores of a name. -/
def isNameChar (c : UInt8) : Bool :=
  isdigit c || (65 ≤ c && c ≤ 90) || (97 ≤ c && c ≤ 122) || c = 95

def commaSeparated (items : List Bytes) : Bytes := List.intercalate [44] items

/-- JSON without white space between its tokens. -/
inductive CompactJson : Bytes → Prop
  /-- a number, or `true`, `false` or `null` -/
  | word {text : Bytes} (h : ∀ c ∈ text, isMark c = true) : CompactJson text
  | string {body : Bytes} (h : LiteralBody body) : CompactJson (34 :: body ++ [34])
  | array {items : List Bytes} (h : ∀ item ∈ items, CompactJson item) :
    CompactJson ([91] ++ commaSeparated items ++ [93])
  | object {members : List (Bytes × Bytes)} (hnames : ∀ m ∈ members, LiteralBody m.1)
    (hvalues : ∀ m ∈ members, CompactJson m.2) :
    CompactJson ([123] ++
      commaSeparated (members.map fun m => (34 :: m.1 ++ [34]) ++ [58] ++ m.2) ++ [125])

theorem spelled_commaSeparated {items : List Bytes} (h : ∀ item ∈ items, ∃ ts, Spelled item ts) :
    ∃ ts, Spelled (commaSeparated items) ts := by
  induction items with
  | nil => exact ⟨[], Spelled.nil⟩
  | cons item items ih =>
    obtain ⟨ts, hitem⟩ := h item List.mem_cons_self
    obtain ⟨us, hitems⟩ := ih fun i hi => h i (List.mem_cons_of_mem item hi)
    cases items with
    | nil => exact ⟨ts, by simpa [commaSeparated] using hitem⟩
    | cons next items =>
      have hcomma : Spelled [44] [.plain 44] := Spelled.mark (by decide)
      have hall := (hitem.append hcomma).append hitems
      refine ⟨ts ++ [.plain 44] ++ us, ?_⟩
      simpa [commaSeparated, List.intercalate, List.intersperse] using hall

theorem CompactJson.spelled {text : Bytes} (h : CompactJson text) : ∃ ts, Spelled text ts := by
  induction h with
  | word h => exact ⟨_, Spelled.marks h⟩
  | string h => exact ⟨_, Spelled.string h⟩
  | array h ih =>
    obtain ⟨ts, hitems⟩ := spelled_commaSeparated ih
    have hopen : Spelled [91] [.plain 91] := Spelled.mark (by decide)
    have hclose : Spelled [93] [.plain 93] := Spelled.mark (by decide)
    exact ⟨_, (hopen.append hitems).append hclose⟩
  | @object members hnames hvalues ih =>
    have hmembers : ∀ item ∈ members.map fun m => (34 :: m.1 ++ [34]) ++ [58] ++ m.2,
        ∃ ts, Spelled item ts := by
      intro item hitem
      obtain ⟨m, hm, rfl⟩ := List.mem_map.mp hitem
      obtain ⟨ts, hvalue⟩ := ih m hm
      have hcolon : Spelled [58] [.plain 58] := Spelled.mark (by decide)
      exact ⟨_, ((Spelled.string (hnames m hm)).append hcolon).append hvalue⟩
    obtain ⟨ts, hitems⟩ := spelled_commaSeparated hmembers
    have hopen : Spelled [123] [.plain 123] := Spelled.mark (by decide)
    have hclose : Spelled [125] [.plain 125] := Spelled.mark (by decide)
    exact ⟨_, (hopen.append hitems).append hclose⟩

theorem splice_append {a : Bytes} (h : 92 ∉ a) (s : Bytes) : splice (a ++ s) = a ++ splice s := by
  induction a with
  | nil => rfl
  | cons c a ih =>
    rw [List.mem_cons, not_or] at h
    rw [List.cons_append, splice_cons (Ne.symm h.1), ih h.2]
    rfl

/-- What the compiler makes of an argument on a line of its own. -/
theorem constant_of_spelled {slug text : Bytes} {ts : List Token}
    (hslug : ∀ c ∈ slug, isNameChar c = true) (h : Spelled text ts) :
    constant slug (definition ++ declaration slug ++ [lf] ++ text ++ bytes "\n);\n") =
      some text := by
  have hname : 92 ∉ slug := fun hmem => absurd (hslug 92 hmem) (by decide)
  have hstart : (92 : UInt8) ∉ definition ++ declaration slug ++ [lf] := by
    have hdefinition : (92 : UInt8) ∉ definition := by decide
    have hbefore : (92 : UInt8) ∉ bytes "const char *SIMVACATION_" := by decide
    have hbehind : (92 : UInt8) ∉ bytes " = LONG_STRING_CONST(" := by decide
    simp [declaration, hdefinition, hbefore, hbehind, hname, lf]
  have hsource : splice (definition ++ declaration slug ++ [lf] ++ text ++ bytes "\n);\n") =
      (definition ++ declaration slug) ++ (lf :: (text ++ bytes "\n);\n")) := by
    rw [List.append_assoc, splice_append hstart, h.splices]
    have hend : splice (bytes "\n);\n") = bytes "\n);\n" := by decide
    rw [hend]
    simp
  obtain ⟨fresh, hread⟩ := h.reads 0 true (bytes "\n);\n")
  have hclose : Stringizing.read .text 0 fresh (bytes "\n);\n") = some ([.space], bytes ";\n") := by
    cases fresh <;> decide
  have hargument : Stringizing.read .text 0 false (lf :: (text ++ bytes "\n);\n")) =
      some (.space :: ts ++ [.space], bytes ";\n") := by
    have hopen : ∀ s, Stringizing.read .text 0 false (lf :: s) =
        prepend [.space] (Stringizing.read .text 0 true s) := fun s => by
      simp [Stringizing.read, lf]
    rw [hopen, hread, hclose]
    rfl
  unfold constant
  simp only [hsource, List.drop_left, hargument, ite_true]
  rw [if_pos (List.isPrefixOf_iff_prefix.mpr (List.prefix_append _ _)), stringize_lines h.space,
    literalValue_flatMap h.backslash, h.text]

/-- The built-in configuration is the JSON that was emitted, whatever quotes, backslashes,
parentheses, white space and comment signs its strings have. -/
theorem constant_genimbed {addFile : Bytes → Option Bytes} {progname file slug json header : Bytes}
    (hslug : ∀ c ∈ slug, isNameChar c = true) (hfile : addFile file = some json)
    (hjson : CompactJson json) (h : genimbed addFile [progname, file, slug] = .ok header) :
    constant slug header = some json := by
  obtain ⟨ts, hspelled⟩ := hjson.spelled
  simp only [genimbed, hfile] at h
  cases h
  exact constant_of_spelled hslug hspelled

/-- A text with an escaped quote, a parenthesis and the start of a comment in a string. -/
def quoteJson : Bytes := bytes "\x7b\"core\":\"\\\"(//\"\x7d"

theorem constant_genimbed_quote : constant (bytes "CONFIG_BASE")
    (definition ++ declaration (bytes "CONFIG_BASE") ++ [lf] ++ quoteJson ++ bytes "\n);\n") =
    some quoteJson := by
  have hname : LiteralBody (bytes "core") :=
    .char (by decide) (.char (by decide) (.char (by decide) (.char (by decide) .nil)))
  have hbody : LiteralBody (bytes "\\\"(//") :=
    .escape (by decide) (.char (by decide) (.char (by decide) (.char (by decide) .nil)))
  have hjson : CompactJson quoteJson := by
    have hobject := @CompactJson.object [(bytes "core", 34 :: bytes "\\\"(//" ++ [34])]
      (by simpa using hname) (by simpa using CompactJson.string hbody)
    exact hobject
  have hslug : ∀ c ∈ bytes "CONFIG_BASE", isNameChar c = true :=
    List.all_eq_true.mp (by decide)
  have hheader : genimbed some [bytes "genimbed", quoteJson, bytes "CONFIG_BASE"] =
      .ok (definition ++ declaration (bytes "CONFIG_BASE") ++ [lf] ++ quoteJson ++
        bytes "\n);\n") := by
    simp only [genimbed]
  exact constant_genimbed hslug (Eq.refl (some quoteJson)) hjson hheader

end Simvacation.EmbeddedConfig
