import ExportLint.Issue.Basic
import Mathlib.Data.List.Nodup

/-!
# The numbers of issues

Issues count from one, and the number of an issue can be read back from its identity. No two issues
of a run share one.
-/
namespace ExportLint

namespace Text

/-- Zeros in front of a number do not change what it reads as. -/
theorem ofDigitChars_padZero (width n : Nat) :
    Nat.ofDigitChars 10 (padZero width n).toList 0 = n := by
  have hdigits : (toString n).toList = Nat.toDigits 10 n := by
    rw [Nat.toString_eq_repr, Nat.toList_repr]
  simp only [padZero, String.toList_append, String.toList_ofList, hdigits,
    Nat.ofDigitChars_append, Nat.ofDigitChars_replicate_zero, Nat.mul_zero,
    Nat.ofDigitChars_ten_toDigits]

theorem padZero_inj {width m n : Nat} : padZero width m = padZero width n ↔ m = n := by
  constructor
  · intro h
    rw [← ofDigitChars_padZero width m, h, ofDigitChars_padZero]
  · rintro rfl
    rfl

end Text

namespace Issue

/-- The identity of the issue with a number. -/
def idOf (n : Nat) : String := "EXP-" ++ Text.padZero 4 n

theorem idOf_inj {m n : Nat} : idOf m = idOf n ↔ m = n := by
  have hpad : Text.padZero 4 m = Text.padZero 4 n ↔ m = n := Text.padZero_inj
  simp only [idOf, String.append_right_inj, hpad]

theorem idOf_ne_empty (n : Nat) : idOf n ≠ "" := by
  intro h
  have hlength := congrArg String.length h
  simp [idOf] at hlength

variable {fs : List Finding} {i j : Issue}

theorem map_toFinding_numbered (fs : List Finding) : (numbered fs).map (·.toFinding) = fs := by
  simp [numbered, Function.comp_def]

/-- The issues of a run have the numbers from one on, in their order. -/
theorem map_id_numbered (fs : List Finding) :
    (numbered fs).map (·.id) = (List.range fs.length).map fun k => idOf (k + 1) := by
  apply List.ext_getElem
  · simp [numbered]
  · intro k hk hk'
    simp [numbered, idOf]

theorem id_of_getElem?_numbered {k : Nat} (h : (numbered fs)[k]? = some i) :
    i.id = idOf (k + 1) := by
  have hids := congrArg (·[k]?) (map_id_numbered fs)
  have hk : k < fs.length := by
    have := (List.getElem?_eq_some_iff.1 h).1
    simpa [numbered] using this
  simpa [h, List.getElem?_range hk] using hids

theorem id_ne_empty (h : i ∈ numbered fs) : i.id ≠ "" := by
  obtain ⟨k, hk⟩ := List.getElem?_of_mem h
  rw [id_of_getElem?_numbered hk]
  exact idOf_ne_empty _

theorem nodup_numbered (fs : List Finding) : ((numbered fs).map (·.id)).Nodup := by
  rw [map_id_numbered]
  refine List.nodup_range.map ?_
  intro m n h
  exact Nat.succ_inj.1 (idOf_inj.1 h)

/-- Issues of a run with one identity are the same. -/
theorem eq_of_id_eq (hi : i ∈ numbered fs) (hj : j ∈ numbered fs) (h : i.id = j.id) : i = j :=
  List.inj_on_of_nodup_map (nodup_numbered fs) hi hj h

end Issue

end ExportLint
