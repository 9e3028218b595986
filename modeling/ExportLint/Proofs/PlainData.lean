import ExportLint.Proofs.JsonMembers
import ExportLint.Proofs.NumberTexts

/-!
# Data that a text can hold

An integer that is read from a text has a number of digits that is allowed, a number is one of the
format or none, and no object holds a key twice. Plain data is that without what is no number.
-/
namespace ExportLint.Json

open Decimal (Binary64)

section Numbers

variable {p q : Binary64 → Prop}

mutual

/-- A value that a text can hold if it can hold numbers of some sort. -/
def WithNumbers (p : Binary64 → Prop) : Json → Prop
  | .int i => i.natAbs < 10 ^ digitLimit
  | .real x => p x
  | .arr vs => ItemsWithNumbers p vs
  | .obj ms => (Members.keys ms).Nodup ∧ MembersWithNumbers p ms
  | _ => True

def ItemsWithNumbers (p : Binary64 → Prop) : List Json → Prop
  | [] => True
  | v :: vs => WithNumbers p v ∧ ItemsWithNumbers p vs

def MembersWithNumbers (p : Binary64 → Prop) : List (String × Json) → Prop
  | [] => True
  | (_, v) :: ms => WithNumbers p v ∧ MembersWithNumbers p ms

end

theorem itemsWithNumbers_iff {vs : List Json} :
    ItemsWithNumbers p vs ↔ ∀ v ∈ vs, WithNumbers p v := by
  induction vs with
  | nil => simp [ItemsWithNumbers]
  | cons v vs ih => simp [ItemsWithNumbers, ih]

theorem membersWithNumbers_iff {ms : List (String × Json)} :
    MembersWithNumbers p ms ↔ ∀ m ∈ ms, WithNumbers p m.2 := by
  induction ms with
  | nil => simp [MembersWithNumbers]
  | cons m ms ih => simp [MembersWithNumbers, ih]

theorem withNumbers_obj_iff {ms : List (String × Json)} :
    WithNumbers p (.obj ms) ↔ (Members.keys ms).Nodup ∧ ∀ m ∈ ms, WithNumbers p m.2 := by
  rw [WithNumbers, membersWithNumbers_iff]

theorem withNumbers_arr_iff {vs : List Json} :
    WithNumbers p (.arr vs) ↔ ∀ v ∈ vs, WithNumbers p v := by
  rw [WithNumbers, itemsWithNumbers_iff]

/-- A value that is found in such data is of the same sort. -/
theorem WithNumbers.of_get? {ms : Members} {key : String} {v : Json}
    (h : WithNumbers p (.obj ms)) (hv : ms.get? key = some v) : WithNumbers p v :=
  (withNumbers_obj_iff.1 h).2 _ (mem_of_get? hv)

mutual

theorem WithNumbers.mono (hpq : ∀ x, p x → q x) : ∀ v : Json, WithNumbers p v → WithNumbers q v
  | .null, _ | .bool _, _ | .str _, _ => trivial
  | .int _, h => h
  | .real _, h => hpq _ h
  | .arr vs, h => ItemsWithNumbers.mono hpq vs h
  | .obj ms, h => ⟨h.1, MembersWithNumbers.mono hpq ms h.2⟩

theorem ItemsWithNumbers.mono (hpq : ∀ x, p x → q x) :
    ∀ vs : List Json, ItemsWithNumbers p vs → ItemsWithNumbers q vs
  | [], _ => trivial
  | v :: vs, h => ⟨WithNumbers.mono hpq v h.1, ItemsWithNumbers.mono hpq vs h.2⟩

theorem MembersWithNumbers.mono (hpq : ∀ x, p x → q x) :
    ∀ ms : List (String × Json), MembersWithNumbers p ms → MembersWithNumbers q ms
  | [], _ => trivial
  | (_, v) :: ms, h => ⟨WithNumbers.mono hpq v h.1, MembersWithNumbers.mono hpq ms h.2⟩

end

mutual

/-- A value whose numbers are of some sort, with integers of any length, and in which no object
holds a key twice. -/
def OfSort (p : Binary64 → Prop) : Json → Prop
  | .real x => p x
  | .arr vs => ItemsOfSort p vs
  | .obj ms => (Members.keys ms).Nodup ∧ MembersOfSort p ms
  | _ => True

def ItemsOfSort (p : Binary64 → Prop) : List Json → Prop
  | [] => True
  | v :: vs => OfSort p v ∧ ItemsOfSort p vs

def MembersOfSort (p : Binary64 → Prop) : List (String × Json) → Prop
  | [] => True
  | (_, v) :: ms => OfSort p v ∧ MembersOfSort p ms

end

theorem membersOfSort_iff {ms : List (String × Json)} :
    MembersOfSort p ms ↔ ∀ m ∈ ms, OfSort p m.2 := by
  induction ms with
  | nil => simp [MembersOfSort]
  | cons m ms ih => simp [MembersOfSort, ih]

mutual

theorem OfSort.mono (hpq : ∀ x, p x → q x) : ∀ v : Json, OfSort p v → OfSort q v
  | .null, _ | .bool _, _ | .str _, _ | .int _, _ => trivial
  | .real _, h => hpq _ h
  | .arr vs, h => ItemsOfSort.mono hpq vs h
  | .obj ms, h => ⟨h.1, MembersOfSort.mono hpq ms h.2⟩

theorem ItemsOfSort.mono (hpq : ∀ x, p x → q x) :
    ∀ vs : List Json, ItemsOfSort p vs → ItemsOfSort q vs
  | [], _ => trivial
  | v :: vs, h => ⟨OfSort.mono hpq v h.1, ItemsOfSort.mono hpq vs h.2⟩

theorem MembersOfSort.mono (hpq : ∀ x, p x → q x) :
    ∀ ms : List (String × Json), MembersOfSort p ms → MembersOfSort q ms
  | [], _ => trivial
  | (_, v) :: ms, h => ⟨OfSort.mono hpq v h.1, MembersOfSort.mono hpq ms h.2⟩

end

mutual

/-- A text can hold a value of a sort exactly if it holds no integer that is too long. -/
theorem withNumbers_iff : ∀ v : Json, WithNumbers p v ↔ OfSort p v ∧ v.holdsLong = false
  | .null | .bool _ | .str _ => by simp [WithNumbers, OfSort, holdsLong]
  | .int _ => by simp [WithNumbers, OfSort, holdsLong]
  | .real _ => by simp [WithNumbers, OfSort, holdsLong]
  | .arr vs => by
    rw [WithNumbers, OfSort, holdsLong]
    exact itemsWithNumbers_iff_ofSort vs
  | .obj ms => by
    rw [WithNumbers, OfSort, holdsLong, and_assoc, membersWithNumbers_iff_ofSort ms]

theorem itemsWithNumbers_iff_ofSort :
    ∀ vs : List Json, ItemsWithNumbers p vs ↔ ItemsOfSort p vs ∧ holdsLongIn vs = false
  | [] => by simp [ItemsWithNumbers, ItemsOfSort, holdsLongIn]
  | v :: vs => by
    rw [ItemsWithNumbers, ItemsOfSort, holdsLongIn, Bool.or_eq_false_iff, withNumbers_iff v,
      itemsWithNumbers_iff_ofSort vs]
    exact and_and_and_comm

theorem membersWithNumbers_iff_ofSort :
    ∀ ms : List (String × Json), MembersWithNumbers p ms ↔
      MembersOfSort p ms ∧ holdsLongOf ms = false
  | [] => by simp [MembersWithNumbers, MembersOfSort, holdsLongOf]
  | (_, v) :: ms => by
    rw [MembersWithNumbers, MembersOfSort, holdsLongOf, Bool.or_eq_false_iff, withNumbers_iff v,
      membersWithNumbers_iff_ofSort ms]
    exact and_and_and_comm

end

/-- A number of the format, or what is none. -/
def IsNumberOrNaN (x : Binary64) : Prop := x = .nan ∨ x.IsNumber

/-- A value that a text can hold. -/
abbrev Legible : Json → Prop := WithNumbers IsNumberOrNaN

abbrev LegibleItems : List Json → Prop := ItemsWithNumbers IsNumberOrNaN

abbrev LegibleMembers : List (String × Json) → Prop := MembersWithNumbers IsNumberOrNaN

/-- A value that a text can hold, without what is no number. -/
abbrev Plain : Json → Prop := WithNumbers Binary64.IsNumber

abbrev PlainItems : List Json → Prop := ItemsWithNumbers Binary64.IsNumber

abbrev PlainMembers : List (String × Json) → Prop := MembersWithNumbers Binary64.IsNumber

/-- A number of one digit is short enough. -/
theorem lt_of_one_digit {n : Nat} (h : n < 10) : n < 10 ^ digitLimit :=
  h.trans_le (Nat.le_self_pow (by decide) 10)

theorem Plain.legible {v : Json} (h : Plain v) : Legible v :=
  WithNumbers.mono (fun _ => Or.inr) v h

end Numbers

section Reading

mutual

/-- A value holds what is no number, at any depth. -/
def holdsNaN : Json → Bool
  | .real .nan => true
  | .arr vs => holdsNaNIn vs
  | .obj ms => holdsNaNOf ms
  | _ => false

def holdsNaNIn : List Json → Bool
  | [] => false
  | v :: vs => holdsNaN v || holdsNaNIn vs

def holdsNaNOf : List (String × Json) → Bool
  | [] => false
  | (_, v) :: ms => holdsNaN v || holdsNaNOf ms

end

mutual

/-- A value is plain if it can be held and holds nothing that is no number. -/
theorem Legible.plain : ∀ v : Json, Legible v → holdsNaN v = false → Plain v
  | .null, _, _ | .bool _, _, _ | .str _, _, _ => trivial
  | .int _, h, _ => h
  | .real .nan, _, hnan => absurd hnan (by simp [holdsNaN])
  | .real (.infinite _), _, _ => trivial
  | .real (.finite _ _ _), h, _ => h.resolve_left (by simp)
  | .arr vs, h, hnan => plain_items vs h hnan
  | .obj ms, h, hnan => ⟨h.1, plain_members ms h.2 hnan⟩

theorem plain_items : ∀ vs : List Json, LegibleItems vs → holdsNaNIn vs = false →
    PlainItems vs
  | [], _, _ => trivial
  | v :: vs, h, hnan => by
    rw [holdsNaNIn, Bool.or_eq_false_iff] at hnan
    exact ⟨Legible.plain v h.1 hnan.1, plain_items vs h.2 hnan.2⟩

theorem plain_members : ∀ ms : List (String × Json), LegibleMembers ms →
    holdsNaNOf ms = false → PlainMembers ms
  | [], _, _ => trivial
  | (_, v) :: ms, h, hnan => by
    rw [holdsNaNOf, Bool.or_eq_false_iff] at hnan
    exact ⟨Legible.plain v h.1 hnan.1, plain_members ms h.2 hnan.2⟩

end

variable {fuel : Nat} {cs after : List Char} {v : Json}

theorem legible_ofList {ms : List (String × Json)} (h : ∀ m ∈ ms, Legible m.2) :
    Legible (.obj (Members.ofList ms)) :=
  withNumbers_obj_iff.2
    ⟨Members.nodup_keys_ofList ms, fun m hm => h m (Members.mem_of_mem_ofList hm)⟩

theorem legible_of_readWord? (h : readWord? cs = some (v, after)) : Legible v := by
  obtain ⟨w, hw, hfound⟩ := List.exists_of_findSome?_eq_some h
  obtain ⟨_, -, he⟩ := Option.map_eq_some_iff.1 hfound
  cases he
  simp only [words, List.mem_cons, List.not_mem_nil, or_false] at hw
  rcases hw with rfl | rfl | rfl | rfl | rfl | rfl
  · trivial
  · trivial
  · trivial
  · exact .inl rfl
  · exact .inr trivial
  · exact .inr trivial

theorem legible_of_readNumber (h : readNumber cs = .ok (v, after)) : Legible v := by
  have hnum := isNumeral_of_readNumber h
  cases v with
  | int i => exact hnum
  | real x => exact .inr hnum
  | _ => exact hnum.elim

/-- Values, items and members that are read with some fuel. -/
structure ReadsLegible (fuel : Nat) : Prop where
  value : ∀ cs v after, readValue fuel cs = .ok (v, after) → Legible v
  items : ∀ acc cs v after, (∀ w ∈ acc, Legible w) →
    readItems fuel acc cs = .ok (v, after) → Legible v
  members : ∀ acc cs v after, (∀ m ∈ acc, Legible m.2) →
    readMembers fuel acc cs = .ok (v, after) → Legible v

theorem ReadsLegible.value_succ (ih : ReadsLegible fuel)
    (h : readValue (fuel + 1) cs = .ok (v, after)) : Legible v := by
  unfold readValue at h
  split at h
  · cases h
  · split at h
    · cases h
    · cases h
      trivial
  · split at h
    · cases h
      trivial
    · exact ih.items [] _ v after (fun w hw => (List.not_mem_nil hw).elim) h
  · split at h
    · cases h
      exact legible_ofList fun m hm => (List.not_mem_nil hm).elim
    · exact ih.members [] _ v after (fun m hm => (List.not_mem_nil hm).elim) h
  · split at h
    · rename_i hword
      cases h
      exact legible_of_readWord? hword
    · exact legible_of_readNumber h

theorem ReadsLegible.items_succ (ih : ReadsLegible fuel) {acc : List Json}
    (hacc : ∀ w ∈ acc, Legible w) (h : readItems (fuel + 1) acc cs = .ok (v, after)) :
    Legible v := by
  unfold readItems at h
  split at h
  · cases h
  · rename_i w rest hw
    have hnew : ∀ u ∈ w :: acc, Legible u :=
      List.forall_mem_cons.2 ⟨ih.value _ _ _ hw, hacc⟩
    split at h
    · cases h
      exact withNumbers_arr_iff.2 fun u hu => hnew u (List.mem_reverse.1 hu)
    · exact ih.items _ _ _ _ hnew h
    · cases h

theorem ReadsLegible.members_succ (ih : ReadsLegible fuel) {acc : List (String × Json)}
    (hacc : ∀ m ∈ acc, Legible m.2) (h : readMembers (fuel + 1) acc cs = .ok (v, after)) :
    Legible v := by
  unfold readMembers at h
  split at h
  · split at h
    · cases h
    · rename_i key rest _
      split at h
      · split at h
        · cases h
        · rename_i w rest hw
          have hnew : ∀ m ∈ (key, w) :: acc, Legible m.2 :=
            List.forall_mem_cons.2 ⟨ih.value _ _ _ hw, hacc⟩
          split at h
          · cases h
            exact legible_ofList fun m hm => hnew m (List.mem_reverse.1 hm)
          · exact ih.members _ _ _ _ hnew h
          · cases h
      · cases h
  · cases h

theorem readsLegible (fuel : Nat) : ReadsLegible fuel := by
  induction fuel with
  | zero =>
    refine ⟨fun _ _ _ h => ?_, fun _ _ _ _ _ h => ?_, fun _ _ _ _ _ h => ?_⟩ <;> cases h
  | succ fuel ih =>
    exact ⟨fun _ _ _ => ih.value_succ, fun _ _ _ _ => ih.items_succ, fun _ _ _ _ => ih.members_succ⟩

/-- What is read from a text is what a text can hold. -/
theorem legible_of_read {text : String} (h : read text = .ok v) : Legible v := by
  unfold read at h
  split at h
  · rename_i w hw
    cases h
    unfold readText at hw
    split at hw
    · cases hw
    · split at hw
      · cases hw
      · rename_i hread
        split at hw
        · cases hw
          exact (readsLegible _).value _ _ _ hread
        · cases hw
  · cases h

end Reading

end ExportLint.Json
