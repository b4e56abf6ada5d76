import Simvacation.Vdb

/-!
The recipient lookup (`vlu.c`). A backend is a table of functions on a handle;
the handle of the null backend is empty, that of the directory backend is its
own. Numeric options of the configuration stand next to the strings.
-/

namespace Simvacation.Vlu

open CString Yasl Vutil Vdb

/-- `vac_config`. An option that is not a string has no entry in `strings`. -/
structure VacConfig where
  strings : Config
  /-- `ucl_object_todouble`, cast to `time_t` -/
  seconds : Bytes → ℤ

/-- A handle; `ldap` is what the directory backend keeps. -/
inductive VLU (L : Type) where
  | null
  | ldap (ldap : L)
  deriving DecidableEq, Repr

/-- The searches leave what they found in the handle. -/
structure VluBackend (L : Type) where
  init : VacConfig → Bool → Option (VLU L)
  /-- `none` when it crashes -/
  search : VacConfig → VLU L → Bytes → Option (VacResult × VLU L)
  groupSearch : VacConfig → VLU L → Bytes → VacResult × VLU L
  message : VacConfig → VLU L → Bytes → Option Bytes
  subjectPrefix : VacConfig → VLU L → Bytes → Bytes
  interval : VacConfig → VLU L → Bytes → ℤ
  aliases : VacConfig → VLU L → Bytes → List Bytes
  displayName : VacConfig → VLU L → Bytes → Option Bytes

/-- The default functions; `init` may fail to allocate. -/
def nullVlu {L : Type} : VluBackend L where
  init _ calloc := if calloc then some .null else none
  search _ vlu _ := some (.ok, vlu)
  groupSearch _ vlu _ := (.ok, vlu)
  message _ _ _ := none
  subjectPrefix config _ _ := yaslauto (config.strings (bytes "core.subject_prefix"))
  interval config _ _ := config.seconds (bytes "core.interval")
  aliases _ _ rcpt := [rcpt]
  displayName _ _ rcpt := some (yaslauto (some rcpt))

def vluBackend {L : Type} (build : Build) (ldapVlu : VluBackend L) (provider : Bytes) :
    Option (VluBackend L) :=
  if strcasecmp (cstr provider) (bytes "ldap") = 0 then
    if build.haveLdap then some ldapVlu else none
  else if strcasecmp (cstr provider) (bytes "null") = 0 then some nullVlu
  else none

end Simvacation.Vlu
