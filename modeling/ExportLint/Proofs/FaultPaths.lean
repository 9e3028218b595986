import ExportLint.Proofs.ReadSettings
import ExportLint.Proofs.StyledNames

/-!
# Faults name fields

Reading settings tries every field, and each fault has the path of the field that it is about. The
steps of a path are keys and positions in lists, which hold no spaces. So the text of a fault has a
colon in front of its first space.
-/
namespace ExportLint

namespace FieldFault

variable {f : FieldFault}

/-- No step of the path holds a space. -/
def Spaceless (f : FieldFault) : Prop := ∀ s ∈ f.path, ' ' ∉ s.toList

/-- The path leads to a field. -/
structure Placed (f : FieldFault) : Prop where
  ne_nil : f.path ≠ []
  spaceless : f.Spaceless

theorem spaceless_nil (message : String) : Spaceless ⟨[], message⟩ := List.forall_mem_nil _

theorem Spaceless.under {step : String} (h : f.Spaceless) (hs : ' ' ∉ step.toList) :
    (f.under step).Placed :=
  ⟨List.cons_ne_nil _ _, List.forall_mem_cons.2 ⟨hs, h⟩⟩

theorem not_mem_intercalate {c : Char} {ss : List String} (hc : c ≠ '.')
    (h : ∀ s ∈ ss, c ∉ s.toList) : c ∉ (".".intercalate ss).toList := by
  rw [String.toList_intercalate]
  induction ss with
  | nil => exact List.not_mem_nil
  | cons s ss ih =>
    obtain ⟨hs, hss⟩ := List.forall_mem_cons.1 h
    cases ss with
    | nil => simpa using hs
    | cons t ss =>
      have hpoint : c ∉ ".".toList := by simpa using hc
      rw [List.map_cons, List.map_cons, List.intercalate_cons_cons, List.mem_append,
        List.mem_append]
      exact not_or.2 ⟨not_or.2 ⟨hs, hpoint⟩, by simpa using ih hss⟩

/-- A fault of a field says where it is, then a colon and a space. -/
theorem Placed.exists_text (h : f.Placed) :
    ∃ place rest, f.text.toList = (place ++ [':']) ++ ' ' :: rest ∧ ' ' ∉ place := by
  have hne : f.path.isEmpty = false := by simpa using h.ne_nil
  refine ⟨_, f.message.toList, ?_, not_mem_intercalate (by decide) h.spaceless⟩
  rw [text, hne, if_neg Bool.false_ne_true, String.toList_append, String.toList_append]
  simp

end FieldFault

namespace Validated

variable {α β : Type} {P Q : FieldFault → Prop} {v : Validated α}

/-- Every fault has a property. -/
def EveryFault (P : FieldFault → Prop) : Validated α → Prop
  | .valid _ => True
  | .invalid faults => ∀ f ∈ faults, P f

theorem EveryFault.mono (h : v.EveryFault P) (hpq : ∀ f, P f → Q f) : v.EveryFault Q := by
  cases v with
  | valid a => trivial
  | invalid faults => exact fun f hf => hpq f (h f hf)

theorem EveryFault.map (h : v.EveryFault P) (g : α → β) : (g <$> v).EveryFault P := by
  cases v with
  | valid a => trivial
  | invalid faults => exact h

/-- The faults of a pair are those of its parts. -/
theorem EveryFault.seq {g : Validated (α → β)} (hg : g.EveryFault P) (h : v.EveryFault P) :
    (g <*> v).EveryFault P := by
  cases g with
  | valid g =>
    cases v with
    | valid a => trivial
    | invalid faults => exact h
  | invalid faults =>
    cases v with
    | valid a => exact hg
    | invalid others =>
      exact fun f hf => (List.mem_append.1 hf).elim (hg f) (h f)

theorem EveryFault.under {step : String} (h : v.EveryFault P)
    (hpq : ∀ f, P f → Q (f.under step)) : (v.under step).EveryFault Q := by
  cases v with
  | valid a => trivial
  | invalid faults =>
    intro f hf
    obtain ⟨f', hf', rfl⟩ := List.mem_map.1 hf
    exact hpq f' (h f' hf')

theorem everyFault_fail {message : String} (h : P ⟨[], message⟩) :
    (fail message : Validated α).EveryFault P := by
  intro f hf
  rw [List.mem_singleton.1 hf]
  exact h

end Validated

namespace Schema

open FieldFault (Placed Spaceless spaceless_nil)
open Validated (EveryFault everyFault_fail)

variable {α : Type} {read : Reader α} {key : String} {ms : Json.Members}

/-- The faults that a reader shows have paths without spaces. -/
def Locates (read : Reader α) : Prop := ∀ v, (read v).EveryFault Spaceless

theorem everyFault_refused (message : String) :
    (Validated.fail message : Validated α).EveryFault Spaceless :=
  everyFault_fail (spaceless_nil message)

section Values

theorem locates_string : Locates string := by
  intro v
  cases v with
  | str s => trivial
  | _ => exact everyFault_refused _

theorem everyFault_boolOfInt (i : Int) : (boolOfInt i).EveryFault Spaceless := by
  rw [boolOfInt]
  split
  · trivial
  · split
    · trivial
    · exact everyFault_refused _

theorem locates_boolean : Locates boolean := by
  intro v
  unfold boolean
  split
  · trivial
  · exact everyFault_boolOfInt _
  · split
    · exact everyFault_boolOfInt _
    · exact everyFault_refused _
  · split
    · trivial
    · split
      · trivial
      · exact everyFault_refused _
  · exact everyFault_refused _

theorem locates_integer : Locates integer := by
  intro v
  unfold integer
  split
  · trivial
  · trivial
  · split
    · split
      · trivial
      · exact everyFault_refused _
    · exact everyFault_refused _
    · exact everyFault_refused _
  · split
    · trivial
    · exact everyFault_refused _
  · exact everyFault_refused _

theorem locates_named [Named α] : Locates (named : Reader α) := by
  intro v
  unfold named
  split
  · split
    · trivial
    · exact everyFault_refused _
  · exact everyFault_refused _

theorem locates_free : Locates free := by
  intro v
  cases v with
  | obj ms => trivial
  | _ => exact everyFault_refused _

theorem locates_optional (h : Locates read) : Locates (optional read) := by
  intro v
  unfold optional
  split
  · trivial
  · exact (h _).map some

/-- A position in a list is a number. -/
theorem space_not_mem_toString (i : Nat) : ' ' ∉ (toString i).toList := by
  rw [Nat.toString_eq_repr, Nat.toList_repr]
  intro hc
  exact absurd (Nat.isDigit_of_mem_toDigits (by omega) (by omega) hc) (by decide)

theorem everyFault_itemsFrom (h : Locates read) (i : Nat) (vs : List Json) :
    (itemsFrom read i vs).EveryFault Spaceless := by
  induction vs generalizing i with
  | nil => trivial
  | cons v vs ih =>
    have hfirst : ((read v).under (toString i)).EveryFault Spaceless :=
      (h v).under fun f hf => (hf.under (space_not_mem_toString i)).spaceless
    exact (hfirst.map List.cons).seq (ih (i + 1))

theorem locates_list (h : Locates read) : Locates (list read) := by
  intro v
  cases v with
  | arr vs => exact everyFault_itemsFrom h 0 vs
  | _ => exact everyFault_refused _

end Values

section Fields

theorem space_not_mem_underscored (h : ' ' ∉ key.toList) : ' ' ∉ (underscored key).toList := by
  rw [underscored, String.toList_ofList, List.mem_flatMap]
  rintro ⟨c, hc, hspace⟩
  split at hspace
  · rename_i hupper
    obtain ⟨hlow, hhigh⟩ := Naming.toNat_mem_of_isAsciiUpper hupper
    have hall : ∀ n < 91, 65 ≤ n → ' ' ∉ ['_', Char.ofNat (n + 32)] := by decide
    rw [Text.CaseMap.asciiLower, if_pos hupper] at hspace
    exact hall _ hhigh hlow hspace
  · rw [List.mem_singleton] at hspace
    exact h (hspace ▸ hc)

theorem everyFault_under (hr : Locates read) {k : String} {v : Json} (hk : ' ' ∉ k.toList) :
    ((read v).under k).EveryFault Placed :=
  (hr v).under fun _ hf => hf.under hk

theorem space_not_mem_of_lookup? (hk : ' ' ∉ key.toList) {k : String} {v : Json}
    (h : lookup? ms key = some (k, v)) : ' ' ∉ k.toList := by
  rcases (mem_of_lookup? h).2 with rfl | rfl
  · exact hk
  · exact space_not_mem_underscored hk

theorem placed_field (hk : ' ' ∉ key.toList) (hr : Locates read) :
    (field ms key read).EveryFault Placed := by
  rw [field]
  split
  · rename_i hlookup
    exact everyFault_under hr (space_not_mem_of_lookup? hk hlookup)
  · intro f hf
    rw [List.mem_singleton.1 hf]
    exact ⟨List.cons_ne_nil _ _, List.forall_mem_cons.2 ⟨hk, List.forall_mem_nil _⟩⟩

theorem placed_fieldOr {default : α} (hk : ' ' ∉ key.toList) (hr : Locates read) :
    (fieldOr ms key default read).EveryFault Placed := by
  rw [fieldOr]
  split
  · rename_i hlookup
    exact everyFault_under hr (space_not_mem_of_lookup? hk hlookup)
  · trivial

theorem locates_record {kind : String} {f : Json.Members → Validated α}
    (h : ∀ ms, (f ms).EveryFault Placed) : Locates (record kind f) := by
  intro v
  cases v with
  | obj ms => exact (h ms).mono fun _ => Placed.spaceless
  | _ => exact everyFault_refused _

end Fields

end Schema

open Schema

theorem ScanOptions.locates_read : Locates read :=
  locates_record fun _ =>
    (placed_fieldOr (by decide) (locates_list locates_string)).map _
      |>.seq (placed_fieldOr (by decide) (locates_list locates_string))
      |>.seq (placed_fieldOr (by decide) locates_boolean)
      |>.seq (placed_fieldOr (by decide) (locates_optional locates_integer))
      |>.seq (placed_fieldOr (by decide) locates_boolean)

theorem RuleSetting.locates_read : Locates read :=
  locates_record fun _ =>
    (placed_field (by decide) locates_string).map _
      |>.seq (placed_fieldOr (by decide) locates_string)
      |>.seq (placed_fieldOr (by decide) locates_boolean)
      |>.seq (placed_fieldOr (by decide) locates_named)
      |>.seq (placed_fieldOr (by decide) locates_free)

theorem Convention.locates_read : Locates read :=
  locates_record fun _ =>
    (placed_field (by decide) locates_string).map _
      |>.seq (placed_field (by decide) locates_named)

theorem Conventions.locates_read : Locates read :=
  locates_record fun _ =>
    (placed_fieldOr (by decide) Convention.locates_read).map _
      |>.seq (placed_fieldOr (by decide) Convention.locates_read)
      |>.seq (placed_fieldOr (by decide) Convention.locates_read)
      |>.seq (placed_fieldOr (by decide) Convention.locates_read)
      |>.seq (placed_fieldOr (by decide) Convention.locates_read)
      |>.seq (placed_fieldOr (by decide) Convention.locates_read)

theorem FixPolicy.locates_read : Locates read :=
  locates_record fun _ =>
    (placed_fieldOr (by decide) locates_boolean).map _
      |>.seq (placed_fieldOr (by decide) locates_boolean)
      |>.seq (placed_fieldOr (by decide) locates_named)
      |>.seq (placed_fieldOr (by decide) (locates_optional locates_string))

theorem ReportingOptions.locates_read : Locates read :=
  locates_record fun _ =>
    (placed_fieldOr (by decide) locates_named).map _
      |>.seq (placed_fieldOr (by decide) (locates_optional locates_string))
      |>.seq (placed_fieldOr (by decide) locates_boolean)

/-- Every fault of settings that are an object is the fault of a field. -/
theorem Config.placed_read (ms : Json.Members) :
    (Config.read (.obj ms)).EveryFault FieldFault.Placed :=
  (placed_field (by decide) locates_string).map _
    |>.seq (placed_fieldOr (by decide) ScanOptions.locates_read)
    |>.seq (placed_fieldOr (by decide) (locates_list RuleSetting.locates_read))
    |>.seq (placed_fieldOr (by decide) Conventions.locates_read)
    |>.seq (placed_fieldOr (by decide) FixPolicy.locates_read)
    |>.seq (placed_fieldOr (by decide) ReportingOptions.locates_read)

end ExportLint
