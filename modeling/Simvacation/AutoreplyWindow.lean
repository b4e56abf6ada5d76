import Simvacation.Calendar
import Simvacation.Ldap

/-!
When a directory entry replies. Times are written as GeneralizedTime in UTC,
to the hour, the minute or the second. The backend reads every one of them
right, but takes a time at or before the epoch for none at all.
-/

namespace Simvacation.AutoreplyWindow

open CString Numerals Calendar CTime Ldap

/-- A number with as many decimal digits as asked for. -/
def decimal : ℕ → ℕ → Bytes
  | 0, _ => []
  | w + 1, n => decimal w (n / 10) ++ [UInt8.ofNat (48 + n % 10)]

/-- The time of day, as precise as it is given. A minute may have a leap second. -/
inductive TimeOfDay where
  | hour (h : Fin 24)
  | minute (h : Fin 24) (m : Fin 60)
  | second (h : Fin 24) (m : Fin 60) (s : Fin 61)

def TimeOfDay.text : TimeOfDay → Bytes
  | .hour h => decimal 2 h
  | .minute h m => decimal 2 h ++ decimal 2 m
  | .second h m s => decimal 2 h ++ decimal 2 m ++ decimal 2 s

def TimeOfDay.seconds : TimeOfDay → ℤ
  | .hour h => h * 3600
  | .minute h m => h * 3600 + m * 60
  | .second h m s => h * 3600 + m * 60 + s

structure GeneralizedTime extends Date where
  year_lt : year < 10000
  time : TimeOfDay

namespace GeneralizedTime

def text (t : GeneralizedTime) : Bytes :=
  decimal 4 t.year ++ decimal 2 t.month ++ decimal 2 t.day ++ t.time.text ++ bytes "Z"

/-- The seconds between the epoch and the instant. -/
def instant (t : GeneralizedTime) : ℤ := t.epochDay * 86400 + t.time.seconds

end GeneralizedTime

theorem decimalDigit : ∀ d < 10, isdigit (UInt8.ofNat (48 + d)) = true ∧
    digitValue (UInt8.ofNat (48 + d)) = d := by decide

theorem length_decimal (w n : ℕ) : (decimal w n).length = w := by
  induction w generalizing n with
  | zero => rfl
  | succ w ih => rw [decimal, List.length_append, ih, List.length_singleton]

theorem isdigit_decimal {w n : ℕ} {c : UInt8} (h : c ∈ decimal w n) : isdigit c = true := by
  induction w generalizing n with
  | zero => cases h
  | succ w ih =>
    rcases List.mem_append.mp h with h | h
    · exact ih h
    · rw [List.mem_singleton.mp h]
      exact (decimalDigit _ (Nat.mod_lt _ (by decide))).1

theorem readBase_decimal {w n : ℕ} (h : n < 10 ^ w) : readBase 10 (decimal w n) = n := by
  induction w generalizing n with
  | zero => simp_all [decimal, readBase]
  | succ w ih =>
    have hdigit := (decimalDigit (n % 10) (Nat.mod_lt _ (by decide))).2
    have hread := ih (n := n / 10) (by omega)
    rw [readBase] at hread
    rw [readBase, decimal, List.foldl_append, hread, List.foldl_cons, List.foldl_nil, hdigit]
    omega

/-- A field that is as wide as its specification is read whole. -/
theorem read_decimal (field : Directive) {n : ℕ} (rest : Bytes) (hn : n < 10 ^ field.width)
    (hleast : field.least ≤ n) (hmost : n ≤ field.most) :
    field.read (decimal field.width n ++ rest) = some (n, rest) := by
  have htake : (decimal field.width n ++ rest).take field.width = decimal field.width n := by
    rw [List.take_append_of_le_length (by rw [length_decimal]), List.take_of_length_le]
    rw [length_decimal]
  have hdigits : (decimal field.width n).takeWhile isdigit = decimal field.width n :=
    List.takeWhile_eq_self_iff.mpr fun _ hc => isdigit_decimal hc
  have hne : decimal field.width n ≠ [] := by
    intro hnil
    have hlen := length_decimal field.width n
    rw [hnil] at hlen
    cases field <;> cases hlen
  have hrest : (decimal field.width n ++ rest).drop (decimal field.width n).length = rest :=
    List.drop_left
  simp only [Directive.read, htake, hdigits, readBase_decimal hn, hrest]
  simp [hne, hleast, hmost]

theorem strptime_decimal (field : Directive) (format : List Directive) (rest : Bytes) (tm : Tm)
    {w n : ℕ} (hw : field.width = w) (hn : n < 10 ^ w) (hleast : field.least ≤ n)
    (hmost : n ≤ field.most) : strptime (field :: format) (decimal w n ++ rest) tm =
      strptime format rest (field.store n tm) := by
  subst hw
  rw [strptime, read_decimal field rest hn hleast hmost]

/-- No field begins with the zone. -/
theorem strptime_zone (field : Directive) (format : List Directive) (tm : Tm) :
    strptime (field :: format) (bytes "Z") tm = (none, tm) := by
  have hread : field.read (bytes "Z") = none := by cases field <;> rfl
  rw [strptime, hread]

/-- The date is common to the three formats. -/
theorem strptime_date (t : GeneralizedTime) (format : List Directive) (rest : Bytes) (tm : Tm) :
    strptime (.Y :: .m :: .d :: format)
      (decimal 4 t.year ++ (decimal 2 t.month ++ (decimal 2 t.day ++ rest))) tm =
      strptime format rest
        { tm with year := t.year - 1900, mon := t.month - 1, mday := t.day } := by
  have hyear := t.year_lt
  have hmonth := t.month_le
  have hday : t.day ≤ 31 := by
    have hle := t.day_le
    unfold monthLength at hle
    split at hle
    · split at hle <;> omega
    · split at hle <;> omega
  rw [strptime_decimal .Y _ _ _ (w := 4) rfl (by omega) (Nat.zero_le _)
      (by change t.year ≤ 9999; omega),
    strptime_decimal .m _ _ _ (w := 2) rfl (by omega) t.month_pos hmonth,
    strptime_decimal .d _ _ _ (w := 2) rfl (by omega) t.day_pos hday]
  rfl

theorem strptime_hour (h : Fin 24) (format : List Directive) (rest : Bytes) (tm : Tm) :
    strptime (.H :: format) (decimal 2 h ++ rest) tm = strptime format rest { tm with hour := h } :=
  strptime_decimal .H _ _ _ rfl (by omega) (Nat.zero_le _) (by change h.val ≤ 23; omega)

theorem strptime_minute (m : Fin 60) (format : List Directive) (rest : Bytes) (tm : Tm) :
    strptime (.M :: format) (decimal 2 m ++ rest) tm = strptime format rest { tm with min := m } :=
  strptime_decimal .M _ _ _ rfl (by omega) (Nat.zero_le _) (by change m.val ≤ 59; omega)

theorem strptime_second (s : Fin 61) (format : List Directive) (rest : Bytes) (tm : Tm) :
    strptime (.S :: format) (decimal 2 s ++ rest) tm = strptime format rest { tm with sec := s } :=
  strptime_decimal .S _ _ _ rfl (by omega) (Nat.zero_le _) (by change s.val ≤ 60; omega)

/-- The broken-down time of an instant. -/
def GeneralizedTime.tm (t : GeneralizedTime) : Tm :=
  match t.time with
  | .hour h => ⟨t.year - 1900, t.month - 1, t.day, h, 0, 0⟩
  | .minute h m => ⟨t.year - 1900, t.month - 1, t.day, h, m, 0⟩
  | .second h m s => ⟨t.year - 1900, t.month - 1, t.day, h, m, s⟩

theorem mktime_date (date : Date) (h m s : ℤ) :
    mktime ⟨date.year - 1900, date.month - 1, date.day, h, m, s⟩ =
      date.epochDay * 86400 + h * 3600 + m * 60 + s := by
  have hpos := date.month_pos
  have hleap :
      Tm.leap ⟨date.year - 1900, date.month - 1, date.day, h, m, s⟩ = isLeap date.year := by
    have hyear : (date.year : ℤ) - 1900 + 1900 = date.year := by omega
    simp only [Tm.leap, isLeap, hyear]
    norm_cast
  have hindex : ((date.month : ℤ) - 1).toNat = date.month - 1 := by omega
  have hafter : ((date.month : ℤ) - 1 > 1 && isLeap date.year) =
      decide (2 < date.month ∧ isLeap date.year = true) := by
    have hmonth : ((date.month : ℤ) - 1 > 1) ↔ 2 < date.month := by omega
    simp [hmonth]
  have hyday : Tm.yday ⟨date.year - 1900, date.month - 1, date.day, h, m, s⟩ =
      monthStart date.year date.month + (date.day - 1) := by
    rw [monthStart_eq hpos date.month_le, Tm.yday, hleap]
    simp only [hindex, hafter, decide_eq_true_eq]
    rfl
  rw [mktime, hyday, Date.epochDay, yearStart_eq, yearFormula]
  ring

theorem mktime_tm (t : GeneralizedTime) : mktime t.tm = t.instant := by
  unfold GeneralizedTime.tm GeneralizedTime.instant
  rcases t.time with h | ⟨h, m⟩ | ⟨h, m, s⟩
  all_goals
    simp only [mktime_date, TimeOfDay.seconds]
    ring

theorem nul_notMem_text (t : GeneralizedTime) : 0 ∉ t.text := by
  have hdecimal : ∀ w n, 0 ∉ decimal w n := fun w n hmem => by
    have hdigit := isdigit_decimal hmem
    exact absurd hdigit (by decide)
  have htime : 0 ∉ t.time.text := by
    rcases t.time with h | ⟨h, m⟩ | ⟨h, m, s⟩ <;> simp [TimeOfDay.text, hdecimal]
  simp [GeneralizedTime.text, hdecimal, htime, bytes]

/-- What a format that fails has stored is stored again by the next one. -/
theorem ldapVluTime_text (t : GeneralizedTime) : ldapVluTime t.text = t.instant := by
  rw [ldapVluTime, cstr_eq_self (nul_notMem_text t), ← mktime_tm]
  simp only [GeneralizedTime.text, GeneralizedTime.tm, List.append_assoc]
  rcases t.time with h | ⟨h, m⟩ | ⟨h, m, s⟩
  · simp only [TimeOfDay.text, strptime_date, strptime_hour, strptime_zone]
    rfl
  · simp only [TimeOfDay.text, List.append_assoc, strptime_date, strptime_hour, strptime_minute,
      strptime_zone]
    rfl
  · simp only [TimeOfDay.text, List.append_assoc, strptime_date, strptime_hour, strptime_minute,
      strptime_second]
    rfl

/-- TRUE, whatever the case of its letters. -/
def FlagTrue (values : List Bytes) : Prop := ∃ v ∈ values.head?, lower v = bytes "true"

/-- The first value, if there is one, is a time. -/
def Denotes (values : List Bytes) (t : Option GeneralizedTime) : Prop :=
  values.head? = t.map GeneralizedTime.text

def Past (now : ℤ) (t : Option GeneralizedTime) : Prop := ∃ time ∈ t, time.instant < now

/-- A time that the backend does not take for an absent one. -/
def AfterEpoch (t : Option GeneralizedTime) : Prop := ∃ time ∈ t, 0 < time.instant

/-- The entry asks for replies. -/
def Away (flag : Prop) (now : ℤ) (start stop : Option GeneralizedTime) : Prop :=
  (flag ∨ Past now start) ∧ ¬ Past now stop

theorem statusTrue_iff (values : List Bytes) : statusTrue values = true ↔ FlagTrue values := by
  cases values with
  | nil => simp [statusTrue, FlagTrue]
  | cons v values =>
    have hnul : (0 : UInt8) ∉ bytes "TRUE" := by decide
    have hword : lower (bytes "TRUE") = bytes "true" := rfl
    have hfour : (bytes "true").length = 4 := rfl
    have hcmp : strncasecmp v (bytes "TRUE") (bytes "TRUE").length = 0 ↔
        lower (bytes "TRUE") <+: lower v := strncasecmp_eq_zero_iff' hnul
    rw [hword] at hcmp
    simp only [statusTrue, FlagTrue, List.head?_cons, Option.mem_some_iff, exists_eq_left',
      Bool.and_eq_true, decide_eq_true_eq]
    change v.length = 4 ∧ strncasecmp v (bytes "TRUE") (bytes "TRUE").length = 0 ↔ _
    rw [hcmp]
    constructor
    · rintro ⟨hlen, hstart⟩
      apply (hstart.eq_of_length _).symm
      rw [lower_length, hlen, hfour]
    · intro heq
      refine ⟨?_, by rw [heq]⟩
      rw [← lower_length v, heq, hfour]

theorem isPast_iff {now : ℤ} {values : List Bytes} {t : Option GeneralizedTime}
    (h : Denotes values t) : isPast now values = true ↔ Past now t ∧ AfterEpoch t := by
  cases values with
  | nil =>
    cases t with
    | none => simp [isPast, Past]
    | some time => cases h
  | cons v values =>
    cases t with
    | none => cases h
    | some time =>
      have hv : v = time.text := Option.some.inj h
      simp only [isPast, hv, ldapVluTime_text, Past, AfterEpoch, Option.mem_some_iff,
        exists_eq_left', Bool.and_eq_true, decide_eq_true_eq]
      exact and_comm

section

variable {calls : LdapCalls} {vlu : VluLdap} {now : ℤ} {start stop : Option GeneralizedTime}

theorem ldapVluOnvacation_iff (hclock : calls.clock = some now)
    (hstart : Denotes (vlu.values vlu.attrAutoreplyStart) start)
    (hstop : Denotes (vlu.values vlu.attrAutoreplyEnd) stop) :
    ldapVluOnvacation calls vlu = true ↔
      (FlagTrue (vlu.values vlu.attrVacation) ∨ Past now start ∧ AfterEpoch start) ∧
        ¬ (Past now stop ∧ AfterEpoch stop) := by
  rw [← isPast_iff hstart, ← isPast_iff hstop, ← statusTrue_iff]
  simp only [ldapVluOnvacation, hclock, Bool.and_eq_true, Bool.or_eq_true, Bool.not_eq_true',
    Bool.not_eq_true]

/-- Times at or before the epoch count as absent, and that is all that goes wrong. -/
theorem onvacation_iff_away_iff (hclock : calls.clock = some now)
    (hstart : Denotes (vlu.values vlu.attrAutoreplyStart) start)
    (hstop : Denotes (vlu.values vlu.attrAutoreplyEnd) stop) :
    (ldapVluOnvacation calls vlu = true ↔
      Away (FlagTrue (vlu.values vlu.attrVacation)) now start stop) ↔
      (Past now stop → AfterEpoch stop ∨
        ¬ (FlagTrue (vlu.values vlu.attrVacation) ∨ Past now start ∧ AfterEpoch start)) ∧
      (¬ Past now stop →
        FlagTrue (vlu.values vlu.attrVacation) ∨ (Past now start → AfterEpoch start)) := by
  rw [ldapVluOnvacation_iff hclock hstart hstop, Away]
  generalize FlagTrue (vlu.values vlu.attrVacation) = flag
  generalize Past now start = started, AfterEpoch start = startCounts
  generalize Past now stop = ended, AfterEpoch stop = endCounts
  clear hclock hstart hstop
  tauto

end

/-- The first second of 1970. -/
def epochTime : GeneralizedTime where
  year := 1970
  month := 1
  day := 1
  month_pos := by decide
  month_le := by decide
  day_pos := by decide
  day_le := by decide
  year_lt := by decide
  time := .second 0 0 0

/-- A handle with an entry that replies from a given time on. -/
def replyFrom (start : Bytes) : VluLdap where
  searchBase := bytes "ou=People"
  groupSearchBase := bytes "ou=Groups"
  attrVacation := bytes "onVacation"
  attrAutoreplyStart := bytes "umichAutoReplyStart"
  attrAutoreplyEnd := bytes "umichAutoReplyEnd"
  attrVacationMsg := bytes "vacationMessage"
  attrGroupMsg := bytes "umichAutoReply"
  attrName := bytes "displayName"
  result := some {
    values := fun attr =>
      if attr = bytes "onVacation" then [bytes "FALSE"]
      else if attr = bytes "umichAutoReplyStart" then [start]
      else []
    rdn := bytes "bob" }
  defaultMsg := []
  subjectPrefix := none
  interval := 0
  attrMsg := none

def callsAt (now : ℤ) : LdapCalls := ⟨true, true, true, true, fun _ _ _ => .success [], some now⟩

theorem onvacation_epoch :
    (ldapVluOnvacation (callsAt 1700000000) (replyFrom epochTime.text) = true ↔
      Away (FlagTrue [bytes "FALSE"]) 1700000000 (some epochTime) none) ↔
      (Past 1700000000 none → AfterEpoch none ∨
        ¬ (FlagTrue [bytes "FALSE"] ∨
          Past 1700000000 (some epochTime) ∧ AfterEpoch (some epochTime))) ∧
      (¬ Past 1700000000 none → FlagTrue [bytes "FALSE"] ∨
        (Past 1700000000 (some epochTime) → AfterEpoch (some epochTime))) := by
  have hclock : (callsAt 1700000000).clock = some 1700000000 := rfl
  have hstart : Denotes ((replyFrom epochTime.text).values (bytes "umichAutoReplyStart"))
      (some epochTime) := rfl
  have hstop : Denotes ((replyFrom epochTime.text).values (bytes "umichAutoReplyEnd")) none := rfl
  exact onvacation_iff_away_iff hclock hstart hstop

/-- A start at the epoch is ignored. -/
theorem epoch_start_ignored : epochTime.text = bytes "19700101000000Z" ∧
    ¬ (ldapVluOnvacation (callsAt 1700000000) (replyFrom (bytes "19700101000000Z")) = true ↔
      Away (FlagTrue [bytes "FALSE"]) 1700000000 (some epochTime) none) := by
  have hcode : ldapVluOnvacation (callsAt 1700000000) (replyFrom (bytes "19700101000000Z")) =
      false := by decide +kernel
  have hzero : epochTime.instant = 0 := by
    rw [← mktime_tm]
    rfl
  have haway : Away (FlagTrue [bytes "FALSE"]) 1700000000 (some epochTime) none := by
    refine ⟨Or.inr ⟨epochTime, rfl, ?_⟩, ?_⟩
    · rw [hzero]
      decide
    · rintro ⟨time, htime, -⟩
      cases htime
  refine ⟨rfl, fun h => ?_⟩
  rw [h.mpr haway] at hcode
  cases hcode

end Simvacation.AutoreplyWindow
