import Simvacation.FilterGrammar
import Simvacation.Ldap
import Simvacation.RecipientMatch

/-!
What the directory is asked for. The two searches paste the recipient into a
filter, the one into a buffer of fixed size. A recipient that needs an escape is
read as something else or not at all.
-/

namespace Simvacation.LookupFilters

open CString Yasl Ldap FilterGrammar RecipientMatch

/-- Every dot and underscore replaced by a space. -/
def spaced (s : Bytes) : Bytes := s.map fun c => if isSeparator c then 32 else c

/-- Both searches ask for the recipient and nothing else, and the first filter and its NUL
stay within the buffer. -/
structure AsksFor (rcpt : Bytes) : Prop where
  fits : (searchFilter rcpt).length + 1 ≤ filterSize
  user : ∀ f, Reads (searchFilter rcpt) f ↔ f = .equality (bytes "uid") rcpt
  group : ∀ f, Reads (cstr (groupSearchFilter rcpt)) f ↔ f = .equality (bytes "cn") (spaced rcpt)

theorem attr_uid : Attr (bytes "uid") := .oid (Or.inl ⟨⟨117, rfl, by decide⟩, by decide +kernel⟩)

theorem attr_cn : Attr (bytes "cn") := .oid (Or.inl ⟨⟨99, rfl, by decide⟩, by decide +kernel⟩)

section

variable {rcpt : Bytes}

theorem searchFilter_eq (h : 0 ∉ rcpt) : searchFilter rcpt = bytes "uid" ++ 61 :: rcpt := by
  rw [searchFilter, cstr_eq_self h]
  rfl

theorem notMem_spaced {c : UInt8} (hc : c ≠ 32) (h : c ∉ rcpt) : c ∉ spaced rcpt := by
  intro hmem
  obtain ⟨d, hd, heq⟩ := List.mem_map.mp hmem
  split at heq
  · exact hc heq.symm
  · exact h (heq ▸ hd)

theorem groupSearchFilter_eq (h : 0 ∉ rcpt) :
    cstr (groupSearchFilter rcpt) = bytes "cn" ++ 61 :: spaced rcpt := by
  have hmap : groupSearchFilter rcpt = bytes "cn" ++ 61 :: spaced rcpt := by
    rw [groupSearchFilter, yaslmapchars, mapchar_name, List.map_append]
    rfl
  have hzero : 0 ∉ spaced rcpt := notMem_spaced (by decide) h
  have hname : 0 ∉ bytes "cn" := by decide
  rw [hmap]
  exact cstr_eq_self (by simp [hname, hzero])

theorem spaced_not_special (h : ∀ c ∈ rcpt, ¬ Special c) : ∀ c ∈ spaced rcpt, ¬ Special c := by
  intro c hc hspecial
  have hblank : c ≠ 32 := by
    rintro rfl
    exact absurd hspecial (by decide)
  exact notMem_spaced hblank (fun hmem => h c hmem hspecial) hc

theorem utf8_spaced (h : Utf8 rcpt) : Utf8 (spaced rcpt) := by
  refine h.map ?_ ?_
  · intro c hc
    split
    · decide
    · exact hc
  · intro c hc
    have hplain : isSeparator c = false := by
      apply Bool.eq_false_iff.mpr
      intro hsep
      rcases (by simpa [isSeparator] using hsep : c = 46 ∨ c = 95) with rfl | rfl <;>
        exact absurd hc (by decide)
    simp [hplain]

/-- The lookups ask for a recipient if and only if it has at most 59 bytes, is UTF-8 and has
none of the bytes that a filter escapes. -/
theorem asksFor_iff (h : 0 ∉ rcpt) :
    AsksFor rcpt ↔ rcpt.length ≤ 59 ∧ (∀ c ∈ rcpt, ¬ Special c) ∧ Utf8 rcpt := by
  have hfits : (searchFilter rcpt).length + 1 ≤ filterSize ↔ rcpt.length ≤ 59 := by
    have hname : (bytes "uid").length = 3 := rfl
    rw [searchFilter_eq h, List.length_append, List.length_cons, hname, filterSize]
    omega
  constructor
  · intro hasks
    have huser := hasks.user
    rw [searchFilter_eq h] at huser
    exact ⟨hfits.mp hasks.fits, attr_uid.pasted_iff.mp huser⟩
  · rintro ⟨hlen, hplain, hutf⟩
    refine ⟨hfits.mpr hlen, ?_, ?_⟩
    · rw [searchFilter_eq h]
      exact attr_uid.pasted_iff.mpr ⟨hplain, hutf⟩
    · rw [groupSearchFilter_eq h]
      exact attr_cn.pasted_iff.mpr ⟨spaced_not_special hplain, utf8_spaced hutf⟩

end

theorem asksFor_bob : AsksFor (bytes "bob.smith") :=
  (asksFor_iff (by decide +kernel)).mpr
    ⟨by decide +kernel, by decide +kernel, Utf8.of_ascii (by decide +kernel)⟩

/-- The recipient `*` asks for every entry that has a `uid`. -/
theorem asterisk_asks_for_all : 0 ∉ bytes "*" ∧
    Reads (searchFilter (bytes "*")) (.present (bytes "uid")) ∧ ¬ AsksFor (bytes "*") := by
  have hreads : Reads (searchFilter (bytes "*")) (.present (bytes "uid")) :=
    Or.inr (.item (.present attr_uid))
  refine ⟨by decide +kernel, hreads, ?_⟩
  intro hasks
  cases (hasks.user _).mp hreads

end Simvacation.LookupFilters
