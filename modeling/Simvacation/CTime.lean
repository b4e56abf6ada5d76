import Simvacation.Numerals

/-!
The time functions of the C library, as far as the directory backend uses
them: `strptime` on formats of numeric fields, and `mktime` in UTC.
-/

namespace Simvacation.CTime

open CString Numerals

/-- `struct tm`; years count from 1900, months from 0. -/
structure Tm where
  year : ℤ
  mon : ℤ
  mday : ℤ
  hour : ℤ
  min : ℤ
  sec : ℤ
  deriving DecidableEq, Repr

/-- What `memset` leaves. -/
def Tm.zero : Tm := ⟨0, 0, 0, 0, 0, 0⟩

/-- The conversion specifications, by their letter. -/
inductive Directive where
  | Y
  | m
  | d
  | H
  | M
  | S
  deriving DecidableEq, Repr

/-- The most digits a field takes. -/
def Directive.width : Directive → ℕ
  | .Y => 4
  | .m => 2
  | .d => 2
  | .H => 2
  | .M => 2
  | .S => 2

def Directive.least : Directive → ℕ
  | .Y => 0
  | .m => 1
  | .d => 1
  | .H => 0
  | .M => 0
  | .S => 0

def Directive.most : Directive → ℕ
  | .Y => 9999
  | .m => 12
  | .d => 31
  | .H => 23
  | .M => 59
  | .S => 60

def Directive.store (n : ℕ) (tm : Tm) : Directive → Tm
  | .Y => { tm with year := n - 1900 }
  | .m => { tm with mon := n - 1 }
  | .d => { tm with mday := n }
  | .H => { tm with hour := n }
  | .M => { tm with min := n }
  | .S => { tm with sec := n }

/-- The number at the front of `buf`, and the rest. -/
def Directive.read (field : Directive) (buf : Bytes) : Option (ℕ × Bytes) :=
  let digits := (buf.take field.width).takeWhile isdigit
  let n := readBase 10 digits
  if digits ≠ [] && field.least ≤ n && n ≤ field.most then some (n, buf.drop digits.length)
  else none

/-- The fields before the one that fails stay stored. Only values whose fields have all
their digits are read as the C library reads them: libraries differ on blanks in front of a
number, on a number that ends early, and on a second 61. -/
def strptime : List Directive → Bytes → Tm → Option Bytes × Tm
  | [], buf, tm => (some buf, tm)
  | field :: format, buf, tm =>
    match field.read buf with
    | none => (none, tm)
    | some (n, rest) => strptime format rest (field.store n tm)

/-- The days before each month. -/
def monYday : List ℤ := [0, 31, 59, 90, 120, 151, 181, 212, 243, 273, 304, 334]

def Tm.leap (tm : Tm) : Bool :=
  (tm.year + 1900) % 4 = 0 && ((tm.year + 1900) % 100 ≠ 0 || (tm.year + 1900) % 400 = 0)

def Tm.yday (tm : Tm) : ℤ :=
  monYday.getD tm.mon.toNat 0 + (if tm.mon > 1 && tm.leap then 1 else 0) + (tm.mday - 1)

/-- The seconds since the epoch, in UTC. -/
def mktime (tm : Tm) : ℤ :=
  tm.sec + tm.min * 60 + tm.hour * 3600 + tm.yday * 86400 + (tm.year - 70) * 31536000 +
    (tm.year - 69) / 4 * 86400 - (tm.year - 1) / 100 * 86400 + (tm.year + 299) / 400 * 86400

end Simvacation.CTime
