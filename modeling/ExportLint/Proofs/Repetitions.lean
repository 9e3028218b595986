import Mathlib.Data.List.Perm.Basic

/-!
# Repetitions

What is listed more than once is kept in its first place. Where the members of a list each stand for
some repetitions of themselves, the list goes through them in its own order. Where no key of a table
comes twice, the order of the table has no part in what is found under a key.
-/
namespace ExportLint

section Members

variable {α : Type} [BEq α] [LawfulBEq α]

theorem nodup_eraseDups (l : List α) : l.eraseDups.Nodup := by
  induction hn : l.length using Nat.strongRecOn generalizing l with
  | ind n ih =>
    cases l with
    | nil => simp
    | cons a l =>
      rw [List.eraseDups_cons, List.nodup_cons]
      constructor
      · rw [List.mem_eraseDups, List.mem_filter]
        simp
      · refine ih _ ?_ _ rfl
        have := List.length_filter_le (fun b => !b == a) l
        rw [← hn, List.length_cons]
        omega

theorem eraseDups_eq_self {l : List α} (h : l.Nodup) : l.eraseDups = l := by
  induction l with
  | nil => rfl
  | cons a l ih =>
    obtain ⟨ha, hl⟩ := List.nodup_cons.1 h
    have hrest : (l.filter fun b => !b == a) = l := by
      rw [List.filter_eq_self]
      intro b hb
      have hne : b ≠ a := fun hab => ha (hab ▸ hb)
      simpa using hne
    rw [List.eraseDups_cons, hrest, ih hl]

/-- Repetitions may be dropped before or after a selection. -/
theorem eraseDups_filter (l : List α) (q : α → Bool) :
    (l.filter q).eraseDups = l.eraseDups.filter q := by
  induction hn : l.length using Nat.strongRecOn generalizing l with
  | ind n ih =>
    cases l with
    | nil => rfl
    | cons a l =>
      have hlen : (l.filter fun b => !b == a).length < n := by
        have := List.length_filter_le (fun b => !b == a) l
        rw [← hn, List.length_cons]
        omega
      have hrest := ih _ hlen _ rfl
      have hcomm : (l.filter q).filter (fun b => !b == a) =
          (l.filter fun b => !b == a).filter q := by
        rw [List.filter_filter, List.filter_filter]
        exact List.filter_congr fun b _ => Bool.and_comm _ _
      rw [List.eraseDups_cons]
      by_cases hq : q a = true
      · rw [List.filter_cons_of_pos hq, List.filter_cons_of_pos hq, List.eraseDups_cons, hcomm,
          hrest]
      · rw [List.filter_cons_of_neg hq, List.filter_cons_of_neg hq, ← hrest, ← hcomm]
        congr 1
        rw [eq_comm, List.filter_eq_self]
        intro b hb
        have hne : b ≠ a := fun hab => hq (hab ▸ (List.mem_filter.1 hb).2)
        simpa using hne

/-- Members that all repeat themselves come out in the order of the list. The test drops the members
that were met before. -/
theorem eraseDups_filter_flatMap {l : List α} {g : α → List α} (hg : ∀ a ∈ l, ∀ b ∈ g a, b = a)
    (q : α → Bool) :
    ((l.flatMap g).filter q).eraseDups =
      ((l.filter fun a => !(g a).isEmpty).filter q).eraseDups := by
  induction l generalizing q with
  | nil => rfl
  | cons a l ih =>
    have ih := ih fun b hb => hg b (List.mem_cons_of_mem a hb)
    have ha := hg a List.mem_cons_self
    rw [List.flatMap_cons, List.filter_append]
    cases hga : g a with
    | nil =>
      have hdrop : ((a :: l).filter fun a => !(g a).isEmpty) = l.filter fun a => !(g a).isEmpty :=
        List.filter_cons_of_neg (by simp [hga])
      rw [hdrop, List.filter_nil, List.nil_append]
      exact ih q
    | cons b bs =>
      rw [hga] at ha
      obtain rfl : b = a := ha b List.mem_cons_self
      have hkeep : ((b :: l).filter fun a => !(g a).isEmpty) =
          b :: l.filter fun a => !(g a).isEmpty :=
        List.filter_cons_of_pos (by simp [hga])
      rw [hkeep]
      by_cases hq : q b = true
      · have hbs : (bs.filter q).filter (fun x => !x == b) = [] := by
          rw [List.filter_eq_nil_iff]
          intro x hx
          simp [ha x (List.mem_cons_of_mem b (List.mem_filter.1 hx).1)]
        rw [List.filter_cons_of_pos hq, List.filter_cons_of_pos hq, List.cons_append,
          List.eraseDups_cons, List.eraseDups_cons, List.filter_append, hbs, List.nil_append,
          List.filter_filter, List.filter_filter, ih]
      · have hnone : (b :: bs).filter q = [] := by
          rw [List.filter_eq_nil_iff]
          intro x hx
          rwa [ha x hx]
        rw [hnone, List.nil_append, List.filter_cons_of_neg hq]
        exact ih q

theorem eraseDups_flatMap {l : List α} {g : α → List α} (hg : ∀ a ∈ l, ∀ b ∈ g a, b = a) :
    (l.flatMap g).eraseDups = (l.filter fun a => !(g a).isEmpty).eraseDups := by
  have h := eraseDups_filter_flatMap hg fun _ => true
  rwa [List.filter_eq_self.2 fun _ _ => rfl, List.filter_eq_self.2 fun _ _ => rfl] at h

/-- A list in which one member alone satisfies a test. -/
theorem filter_eq_singleton {l : List α} (hl : l.Nodup) {q : α → Bool} {a : α} (ha : a ∈ l)
    (hq : ∀ b ∈ l, q b = true ↔ b = a) : l.filter q = [a] := by
  have hcongr : l.filter q = l.filter fun b => b == a := by
    apply List.filter_congr
    intro b hb
    rw [Bool.eq_iff_iff, hq b hb, beq_iff_eq]
  rw [hcongr, List.filter_beq, hl.count, if_pos ha]
  rfl

omit [BEq α] [LawfulBEq α] in
/-- A list without repetitions has a second member exactly if one differs from a member of it. -/
theorem length_lt_two_iff {l : List α} (hl : l.Nodup) {a : α} (ha : a ∈ l) :
    l.length < 2 ↔ ∀ b ∈ l, b = a := by
  cases l with
  | nil => cases ha
  | cons x l =>
    cases l with
    | nil => simp [List.mem_singleton.1 ha]
    | cons y l =>
      have hne : x ≠ y := fun h => (List.nodup_cons.1 hl).1 (h ▸ List.mem_cons_self)
      refine iff_of_false (by simp) fun hall => hne ?_
      rw [hall x List.mem_cons_self, hall y (List.mem_cons_of_mem x List.mem_cons_self)]

end Members

section Keys

variable {α β : Type} [BEq α] [LawfulBEq α] {l l' : List (α × β)} {a : α} {b : β}

theorem lookup_eq_some_iff_of_nodup (h : (l.map (·.1)).Nodup) :
    l.lookup a = some b ↔ (a, b) ∈ l := by
  induction l with
  | nil => simp
  | cons e l ih =>
    obtain ⟨k, v⟩ := e
    rw [List.map_cons, List.nodup_cons] at h
    rw [List.lookup_cons, List.mem_cons, Prod.mk.injEq]
    cases hk : a == k with
    | true =>
      obtain rfl := beq_iff_eq.1 hk
      have hnot : (a, b) ∉ l := fun hm => h.1 (List.mem_map.2 ⟨(a, b), hm, rfl⟩)
      simp [hnot, eq_comm]
    | false =>
      have hne : a ≠ k := beq_eq_false_iff_ne.1 hk
      simp [hne, ih h.2]

theorem lookup_eq_of_perm (hp : l.Perm l') (h : (l.map (·.1)).Nodup) (a : α) :
    l.lookup a = l'.lookup a := by
  have h' : (l'.map (·.1)).Nodup := (hp.map _).nodup_iff.1 h
  apply Option.ext
  intro b
  rw [lookup_eq_some_iff_of_nodup h, lookup_eq_some_iff_of_nodup h', hp.mem_iff]

/-- A table of a function over its keys. -/
theorem lookup_map_key (f : α → β) (ks : List α) (a : α) :
    (ks.map fun k => (k, f k)).lookup a = if a ∈ ks then some (f a) else none := by
  induction ks with
  | nil => simp
  | cons k ks ih =>
    rw [List.map_cons, List.lookup_cons, ih]
    cases hk : a == k with
    | true => simp [beq_iff_eq.1 hk]
    | false =>
      have hne : a ≠ k := beq_eq_false_iff_ne.1 hk
      simp [hne]

end Keys

end ExportLint
