import ExportLint.Issue.Basic
import ExportLint.Proofs.PlainData

/-!
# Issues read back from their data

What is optional in a record is left out where there is nothing, and reading it back finds nothing
there. So an issue is read back as it is, whatever its metadata hold.
-/
namespace ExportLint

namespace Json

variable {key : String} {p : Decimal.Binary64 → Prop}

@[simp] theorem Members.get?_append (ms ns : Members) (key : String) :
    (ms ++ ns).get? key = (ms.get? key).or (ns.get? key) := by
  induction ms with
  | nil => rfl
  | cons m ms ih =>
    rw [List.cons_append, get?_cons, get?_cons, ih]
    split <;> rfl

@[simp] theorem get?_optional (key other : String) (v : Option Json) :
    Members.get? (optional key v) other = if other = key then v else none := by
  cases v with
  | none => exact (ite_self none).symm
  | some v => rfl

/-- What is optional has its key or none. -/
theorem keys_optional_sublist (key : String) (v : Option Json) :
    (Members.keys (optional key v)).Sublist [key] := by
  cases v with
  | none => exact List.nil_sublist [key]
  | some v => exact List.Sublist.refl [key]

/-- Members with some of the keys of a list, in its order, and values of a sort. -/
structure Within (p : Decimal.Binary64 → Prop) (keys : List String) (ms : Members) : Prop where
  keys : (Members.keys ms).Sublist keys
  values : ∀ m ∈ ms, OfSort p m.2

namespace Within

variable {ks ls : List String} {ms ns : Members}

theorem optional (key : String) {v : Option Json} (h : ∀ w ∈ v, OfSort p w) :
    Within p [key] (Json.optional key v) := by
  refine ⟨keys_optional_sublist key v, ?_⟩
  cases v with
  | none => exact List.forall_mem_nil _
  | some w =>
    intro m hm
    rw [List.mem_singleton.1 hm]
    exact h w rfl

theorem append (h : Within p ks ms) (h' : Within p ls ns) : Within p (ks ++ ls) (ms ++ ns) where
  keys := by
    rw [Members.keys_append]
    exact h.keys.append h'.keys
  values := List.forall_mem_append.2 ⟨h.values, h'.values⟩

/-- An object with such members is of the sort, if no key of the list is there twice. -/
theorem obj (h : Within p ks ms) (hks : ks.Nodup) : OfSort p (.obj ms) :=
  ⟨hks.sublist h.keys, membersOfSort_iff.2 h.values⟩

end Within

end Json

namespace Schema

variable {α : Type} {ms : Json.Members} {key : String} {read : Reader α} {write : α → Json} {a : α}

theorem string_str (s : String) : string (.str s) = .valid s := rfl

theorem boolean_bool (b : Bool) : boolean (.bool b) = .valid b := rfl

theorem free_obj (ms : Json.Members) : free (.obj ms) = .valid ms := rfl

/-- A field is read from the member with its key. -/
theorem field_of_get? {v : Json} (hget : ms.get? key = some v) (hread : read v = .valid a) :
    field ms key read = .valid a := by
  rw [field, lookup?, hget]
  dsimp only
  rw [hread, Validated.under_valid]

theorem fieldOr_of_get? {v : Json} {default : α} (hget : ms.get? key = some v)
    (hread : read v = .valid a) : fieldOr ms key default read = .valid a := by
  rw [fieldOr, lookup?, hget]
  dsimp only
  rw [hread, Validated.under_valid]

/-- A field that may be left out is read back, be it there or not. It is not there in the other
spelling either. -/
theorem fieldOr_optional {a : Option α} (hget : ms.get? key = a.map write)
    (hspelling : underscored key = key ∨ ms.get? (underscored key) = none)
    (hread : ∀ a, read (write a) = .valid a) (hnull : ∀ a, write a ≠ .null) :
    fieldOr ms key none (optional read) = .valid a := by
  cases a with
  | none =>
    rw [Option.map_none] at hget
    have hnone : ms.get? (underscored key) = none := by
      rcases hspelling with h | h
      · rw [h, hget]
      · exact h
    rw [fieldOr, lookup?, hget]
    dsimp only
    rw [hnone]
    rfl
  | some a =>
    refine fieldOr_of_get? hget ?_
    have hsome : optional read (write a) = some <$> read (write a) := by
      unfold optional
      split
      · rename_i h
        exact absurd h (hnull a)
      · rfl
    rw [hsome, hread]
    rfl

theorem list_map (hread : ∀ a, read (write a) = .valid a) (as : List α) :
    list read (.arr (as.map write)) = .valid as := by
  have hitems (i : Nat) : itemsFrom read i (as.map write) = .valid as := by
    induction as generalizing i with
    | nil => rfl
    | cons a as ih =>
      rw [List.map_cons, itemsFrom, hread, ih, Validated.under_valid]
      rfl
  exact hitems 0

theorem list_strings (ss : List String) : list string (Json.strings ss) = .valid ss :=
  list_map string_str ss

end Schema

/-- A place is read back from its data. -/
theorem Location.read_toJson (l : Location) : Location.read l.toJson = .valid l := rfl

namespace Issue

theorem named_kind (k : IssueKind) : Schema.named (.str (Named.name k)) = .valid k := by
  cases k <;> rfl

theorem named_severity (s : Severity) : Schema.named (.str (Named.name s)) = .valid s := by
  cases s <;> rfl

/-- The members that tell an issue. -/
structure Told (i : Issue) (ms : Json.Members) : Prop where
  id : ms.get? "id" = some (.str i.id)
  kind : ms.get? "type" = some (.str (Named.name i.kind))
  severity : ms.get? "severity" = some (.str (Named.name i.severity))
  file : ms.get? "filePath" = some (.str i.file)
  message : ms.get? "message" = some (.str i.message)
  suggestion : ms.get? "suggestion" = i.suggestion.map .str
  autoFixable : ms.get? "autoFixable" = some (.bool i.autoFixable)
  relatedFiles : ms.get? "relatedFiles" = some (Json.strings i.relatedFiles)
  location : ms.get? "sourceLocation" = i.location.map (·.toJson)
  rule : ms.get? "rule" = i.rule.map .str
  metadata : ms.get? "metadata" = some (.obj i.metadata)
  spelling : ms.get? "source_location" = none

theorem exists_told (i : Issue) : ∃ ms, i.toJson = .obj ms ∧ i.Told ms := by
  refine ⟨_, rfl, ?_⟩
  constructor <;> simp [Json.Members.get?_cons]

theorem Told.read {i : Issue} {ms : Json.Members} (h : i.Told ms) :
    Issue.read (.obj ms) = .valid i := by
  have hspelling : Schema.underscored "sourceLocation" = "source_location" := by decide
  rw [Issue.read, Schema.record, Schema.field_of_get? h.id (Schema.string_str i.id),
    Schema.field_of_get? h.kind (named_kind i.kind),
    Schema.field_of_get? h.severity (named_severity i.severity),
    Schema.field_of_get? h.file (Schema.string_str i.file),
    Schema.field_of_get? h.message (Schema.string_str i.message),
    Schema.fieldOr_optional h.suggestion (.inl (by decide)) Schema.string_str (by simp),
    Schema.fieldOr_of_get? h.autoFixable (Schema.boolean_bool i.autoFixable),
    Schema.fieldOr_of_get? h.relatedFiles (Schema.list_strings i.relatedFiles),
    Schema.fieldOr_optional h.location (.inr (hspelling ▸ h.spelling)) Location.read_toJson
      (by simp [Location.toJson]),
    Schema.fieldOr_optional h.rule (.inl (by decide)) Schema.string_str (by simp),
    Schema.fieldOr_of_get? h.metadata (Schema.free_obj i.metadata)]
  rfl

/-- An issue is read back from its data. -/
theorem read_toJson (i : Issue) : read i.toJson = .valid i := by
  obtain ⟨ms, hms, h⟩ := exists_told i
  rw [hms, h.read]

end Issue

end ExportLint
