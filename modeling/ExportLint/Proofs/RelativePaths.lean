import ExportLint.Project.Basic
import ExportLint.Proofs.PathTexts
import Mathlib.Data.List.Count

/-!
# Paths as seen from a root

A relative path goes up from where it starts as far as its place is not below, and down from there.
As no step to a place leads up, the steps up can be told from those down, and the place is known
from the relative path. Its first steps lead to a place above the start or to one above its own
place. Of two ways that start together, one goes on from where the other one leads, except that a
way up is followed by every way that goes up as far, wherever it turns.
-/
namespace ExportLint

namespace Path

variable {here start target target' other a b ss taken : List String} {p s : String} {rooted : Bool}

/-- A step is taken, or it cancels another one. -/
theorem mem_climb {t : String} (h : s ∈ climb rooted taken t) : s ∈ taken ∨ s = t := by
  unfold climb at h
  split at h
  · rename_i ht
    cases taken with
    | nil =>
      cases rooted
      · exact .inr ((List.mem_singleton.1 h).trans ht.symm)
      · exact absurd h List.not_mem_nil
    | cons u us =>
      dsimp only at h
      split at h
      · rcases List.mem_cons.1 h with rfl | h
        · exact .inr ht.symm
        · exact .inl h
      · exact .inl (List.mem_cons_of_mem u h)
  · rcases List.mem_cons.1 h with rfl | h
    · exact .inr rfl
    · exact .inl h

theorem mem_foldl_climb (h : s ∈ ss.foldl (climb rooted) taken) : s ∈ taken ∨ s ∈ ss := by
  induction ss generalizing taken with
  | nil => exact .inl h
  | cons t ss ih =>
    rcases ih h with h | h
    · rcases mem_climb h with h | rfl
      · exact .inl h
      · exact .inr List.mem_cons_self
    · exact .inr (List.mem_cons_of_mem t h)

/-- With a root, a step up is never taken. -/
theorem up_not_mem_climb (h : ".." ∉ taken) (s : String) : ".." ∉ climb true taken s := by
  unfold climb
  split
  · cases taken with
    | nil => exact List.not_mem_nil
    | cons t ts =>
      obtain ⟨ht, hts⟩ := not_or.1 (mt List.mem_cons.2 h)
      dsimp only
      rw [if_neg (Ne.symm ht)]
      exact hts
  · rename_i hs
    exact List.not_mem_cons_of_ne_of_not_mem (Ne.symm hs) h

theorem up_not_mem_foldl_climb (h : ".." ∉ taken) : ".." ∉ ss.foldl (climb true) taken := by
  induction ss generalizing taken with
  | nil => exact h
  | cons s ss ih => exact ih (up_not_mem_climb h s)

/-- With a root, what is left after going up are steps that do not lead up. -/
theorem mem_reduce (h : s ∈ reduce true ss) : s ∈ ss ∧ s ≠ ".." := by
  have h := List.mem_reverse.1 h
  refine ⟨(mem_foldl_climb h).resolve_left List.not_mem_nil, ?_⟩
  rintro rfl
  exact up_not_mem_foldl_climb List.not_mem_nil h

/-- The steps of a place are steps, and none leads up. -/
theorem mem_absolute {s : String} (hhere : ∀ s ∈ here, IsStep s) (h : s ∈ absolute here p) :
    IsStep s ∧ s ≠ ".." := by
  rw [absolute] at h
  split at h
  · obtain ⟨hs, hne⟩ := mem_reduce h
    exact ⟨(List.mem_append.1 hs).elim (hhere s) isStep_of_mem_stepsOf, hne⟩
  · obtain ⟨hs, hne⟩ := mem_reduce h
    exact ⟨isStep_of_mem_stepsOf hs, hne⟩

theorem take_commonLead (start target : List String) :
    target.take (commonLead start target) = start.take (commonLead start target) := by
  induction start generalizing target with
  | nil => cases target <;> rfl
  | cons a start ih =>
    cases target with
    | nil => rfl
    | cons b target =>
      rw [commonLead]
      split
      · rename_i hab
        rw [List.take_succ_cons, List.take_succ_cons, ih, hab]
      · rfl

theorem commonLead_le (start target : List String) :
    commonLead start target ≤ start.length := by
  induction start generalizing target with
  | nil => exact Nat.le_refl 0
  | cons a start ih =>
    cases target with
    | nil => exact Nat.zero_le _
    | cons b target =>
      rw [commonLead]
      split
      · exact Nat.succ_le_succ (ih target)
      · exact Nat.zero_le _

/-- The number of steps that lead up tells where the way turns down. -/
theorem count_stepsBetween (h : ".." ∉ target) :
    (stepsBetween start target).count ".." = start.length - commonLead start target := by
  have hdown : (target.drop (commonLead start target)).count ".." = 0 :=
    List.count_eq_zero.2 fun hm => h (List.mem_of_mem_drop hm)
  rw [stepsBetween, List.count_append, List.count_replicate_self, hdown, Nat.add_zero]

/-- The steps from one place to another tell where they lead. -/
theorem stepsBetween_inj (h : ".." ∉ target) (h' : ".." ∉ target')
    (he : stepsBetween start target = stepsBetween start target') : target = target' := by
  have hcount := congrArg (List.count "..") he
  rw [count_stepsBetween h, count_stepsBetween h'] at hcount
  have hlead : commonLead start target = commonLead start target' := by
    have := commonLead_le start target
    have := commonLead_le start target'
    omega
  rw [stepsBetween, stepsBetween, hlead] at he
  have hdown := List.append_cancel_left he
  calc target
      = target.take (commonLead start target) ++ target.drop (commonLead start target) :=
        (List.take_append_drop _ _).symm
    _ = target'.take (commonLead start target') ++ target'.drop (commonLead start target') := by
        rw [take_commonLead, take_commonLead, hlead, hdown]
    _ = target' := List.take_append_drop _ _

theorem isStep_of_mem_stepsBetween {s : String} (htarget : ∀ s ∈ target, IsStep s)
    (h : s ∈ stepsBetween start target) : IsStep s := by
  rcases List.mem_append.1 h with h | h
  · rw [List.eq_of_mem_replicate h]
    exact ⟨by decide, by decide, by decide⟩
  · exact htarget s (List.mem_of_mem_drop h)

/-- A way between two places is a path that stands for its text. -/
theorem wellFormed_stepsBetween (hhere : ∀ s ∈ here, IsStep s) :
    (Path.mk "" (stepsBetween start (absolute here p))).WellFormed :=
  ⟨.inl rfl, fun _ hs => isStep_of_mem_stepsBetween (fun _ hs => (mem_absolute hhere hs).1) hs⟩

/-- A path seen from a start is the text of the steps from one to the other. -/
theorem relative?_eq (start : String) (hp : p ≠ "") :
    relative? here p start =
      some (Path.mk "" (stepsBetween (absolute here start) (absolute here p))).text := by
  have hempty : p.isEmpty = false := by
    rw [Bool.eq_false_iff]
    exact fun he => hp (String.isEmpty_iff.1 he)
  rw [relative?, hempty, text]
  cases stepsBetween (absolute here start) (absolute here p) with
  | nil => rfl
  | cons s ss => simp

/-- A directory holds the places below it. -/
def Holds (directory place : List String) : Prop := directory <+: place ∧ directory ≠ place

theorem Holds.of_lead (h : Holds b other) (hab : a <+: b) : Holds a other := by
  refine ⟨hab.trans h.1, ?_⟩
  rintro rfl
  exact h.2 (h.1.eq_of_length_le hab.length_le)

/-- What a directory holds has a directory in it or that directory itself. -/
theorem Holds.prefix_dropLast (h : Holds a other) : a <+: other.dropLast := by
  obtain ⟨⟨rest, rfl⟩, hne⟩ := h
  have hrest : rest ≠ [] := by
    rintro rfl
    exact hne (List.append_nil a).symm
  rw [List.dropLast_append_of_ne_nil hrest]
  exact List.prefix_append a rest.dropLast

/-- Where steps lead from a place. -/
def arrive (start ss : List String) : List String := reduce true (start ++ ss)

theorem foldl_climb_down (h : ".." ∉ ss) (rooted : Bool) (taken : List String) :
    ss.foldl (climb rooted) taken = ss.reverse ++ taken := by
  induction ss generalizing taken with
  | nil => rfl
  | cons s ss ih =>
    obtain ⟨hs, hss⟩ := not_or.1 (mt List.mem_cons.2 h)
    have hstep : climb rooted taken s = s :: taken := by simp [climb, Ne.symm hs]
    rw [List.foldl_cons, hstep, ih hss, List.reverse_cons, List.append_assoc]
    rfl

theorem foldl_climb_up (h : ".." ∉ taken) (n : Nat) :
    (List.replicate n "..").foldl (climb true) taken = taken.drop n := by
  induction n generalizing taken with
  | zero => rfl
  | succ n ih =>
    cases taken with
    | nil => simpa [List.replicate_succ, climb] using ih h
    | cons t ts =>
      obtain ⟨ht, hts⟩ := not_or.1 (mt List.mem_cons.2 h)
      have hstep : climb true (t :: ts) ".." = ts := by simp [climb, Ne.symm ht]
      rw [List.replicate_succ, List.foldl_cons, hstep, ih hts]
      rfl

/-- Going up drops the last steps of a place, and going down adds some. -/
theorem arrive_up_down (hstart : ".." ∉ start) (hss : ".." ∉ ss) (n : Nat) :
    arrive start (List.replicate n ".." ++ ss) = start.take (start.length - n) ++ ss := by
  rw [arrive, reduce, List.foldl_append, List.foldl_append, foldl_climb_down hstart,
    List.append_nil, foldl_climb_up (mt List.mem_reverse.1 hstart), foldl_climb_down hss,
    List.reverse_append, List.reverse_reverse, List.drop_reverse, List.reverse_reverse]

/-- Two places have as much in common as the one has steps that the other one starts with. -/
theorem le_commonLead_iff {n : Nat} :
    n ≤ commonLead a b ↔ n ≤ a.length ∧ a.take n <+: b := by
  induction a generalizing b n with
  | nil =>
    cases n <;> simp [commonLead]
  | cons x a ih =>
    cases n with
    | zero => simp
    | succ n =>
      cases b with
      | nil => simp [commonLead]
      | cons y b =>
        rw [commonLead]
        split
        · rename_i hxy
          simp [ih, hxy]
        · rename_i hxy
          simp [hxy]

/-- The number of steps that a way goes up. -/
def stepsUp (start target : List String) : Nat := start.length - commonLead start target

theorem stepsBetween_eq (start target : List String) : stepsBetween start target =
    List.replicate (stepsUp start target) ".." ++ target.drop (commonLead start target) := rfl

/-- The first steps of a way go up, and if there are more of them down to the target. -/
theorem eq_of_prefix_stepsBetween (h : b <+: stepsBetween start target) :
    b = List.replicate (min b.length (stepsUp start target)) ".." ++
      (target.drop (commonLead start target)).take (b.length - stepsUp start target) := by
  have htake := List.prefix_iff_eq_take.1 h
  rw [stepsBetween_eq, List.take_append, List.take_replicate, List.length_replicate] at htake
  exact htake

theorem commonLead_le_right (a b : List String) : commonLead a b ≤ b.length := by
  obtain ⟨hle, hlead⟩ := le_commonLead_iff.1 (Nat.le_refl (commonLead a b))
  have := hlead.length_le
  rw [List.length_take] at this
  omega

/-- The steps down do not lead further than the target. -/
theorem turn_add_le_length (h : b <+: stepsBetween start target)
    (hlen : stepsUp start target < b.length) :
    commonLead start target + (b.length - stepsUp start target) ≤ target.length := by
  have hle := h.length_le
  have hlead := commonLead_le_right start target
  rw [stepsBetween_eq, List.length_append, List.length_replicate, List.length_drop] at hle
  omega

/-- The ways to two places turn down alike if the places have more in common than that. -/
theorem commonLead_eq_of_take {n : Nat} (hn : commonLead start target < n)
    (hmax : n ≤ target.length) (hin : target.take n <+: other) :
    commonLead start other = commonLead start target := by
  have hfirst {m : Nat} (hm : m ≤ n) : target.take m <+: other :=
    (List.take_prefix_take_left hm).trans hin
  refine Nat.le_antisymm ?_ ?_
  · -- One step more would be in common with the target as well.
    by_contra hlt
    obtain ⟨hle, hlead⟩ := le_commonLead_iff.1 (Nat.lt_of_not_le hlt)
    have hlength : (start.take (commonLead start target + 1)).length =
        (target.take (commonLead start target + 1)).length := by
      rw [List.length_take, List.length_take]
      omega
    have hsteps := (List.prefix_of_prefix_length_le hlead (hfirst hn)
      (Nat.le_of_eq hlength)).eq_of_length hlength
    have hmore : commonLead start target + 1 ≤ commonLead start target :=
      le_commonLead_iff.2 ⟨hle, by rw [hsteps]; exact List.take_prefix _ _⟩
    omega
  · refine le_commonLead_iff.2 ⟨commonLead_le start target, ?_⟩
    rw [← take_commonLead]
    exact hfirst (Nat.le_of_lt hn)

theorem count_up_of_lead (htarget : ".." ∉ target) (h : b <+: stepsBetween start target) :
    b.count ".." = min b.length (stepsUp start target) := by
  have hdown : ((target.drop (commonLead start target)).take
      (b.length - stepsUp start target)).count ".." = 0 :=
    List.count_eq_zero.2 fun hm => htarget (List.mem_of_mem_drop (List.mem_of_mem_take hm))
  have hcount := congrArg (List.count "..") (eq_of_prefix_stepsBetween h)
  rwa [List.count_append, List.count_replicate_self, hdown] at hcount

/-- A way up is followed by every way that goes up as far. -/
theorem prefix_iff_of_above (hother : ".." ∉ other) (h : b <+: stepsBetween start target)
    (hlen : b.length ≤ stepsUp start target) :
    b <+: stepsBetween start other ↔ b.length ≤ stepsUp start other := by
  have hb : b = List.replicate b.length ".." := by
    have := eq_of_prefix_stepsBetween h
    rwa [Nat.min_eq_left hlen, Nat.sub_eq_zero_of_le hlen, List.take_zero, List.append_nil] at this
  constructor
  · intro hlead
    have hcount := hlead.sublist.count_le ".."
    rw [count_stepsBetween hother, hb, List.count_replicate_self] at hcount
    exact hcount
  · intro hle
    have hup : List.replicate b.length ".." <+: List.replicate (stepsUp start other) ".." := by
      rw [List.prefix_iff_eq_take, List.take_replicate, List.length_replicate, Nat.min_eq_left hle]
    rw [hb]
    exact hup.trans (List.prefix_append _ _)

section Arrival

variable (hstart : ".." ∉ start) (htarget : ".." ∉ target) (h : b <+: stepsBetween start target)
include hstart htarget h

theorem arrive_eq : arrive start b = start.take (start.length - min b.length (stepsUp start target))
    ++ (target.drop (commonLead start target)).take (b.length - stepsUp start target) := by
  have hdown : ".." ∉ (target.drop (commonLead start target)).take
      (b.length - stepsUp start target) :=
    fun hm => htarget (List.mem_of_mem_drop (List.mem_of_mem_take hm))
  rw [← arrive_up_down hstart hdown, ← eq_of_prefix_stepsBetween h]

/-- Steps that only go up lead to a place above the start. -/
theorem arrive_above (hlen : b.length ≤ stepsUp start target) :
    arrive start b = start.take (start.length - b.length) := by
  rw [arrive_eq hstart htarget h, Nat.min_eq_left hlen, Nat.sub_eq_zero_of_le hlen, List.take_zero,
    List.append_nil]

/-- Steps that go down as well lead to a place above the target, further down than the start. -/
theorem arrive_below (hlen : stepsUp start target < b.length) : arrive start b =
    target.take (commonLead start target + (b.length - stepsUp start target)) := by
  have hle := commonLead_le start target
  have hturn : start.length - stepsUp start target = commonLead start target := by
    rw [stepsUp]
    omega
  rw [arrive_eq hstart htarget h, Nat.min_eq_right (Nat.le_of_lt hlen), hturn,
    ← take_commonLead, List.take_add]

/-- Steps that go down as well lead to no place above the start. -/
theorem arrive_below_not_above (hlen : stepsUp start target < b.length) :
    ¬arrive start b <+: start := by
  intro hd
  have hmax := turn_add_le_length h hlen
  rw [arrive_below hstart htarget h hlen] at hd
  have hsame := List.prefix_iff_eq_take.1 hd
  rw [List.length_take, Nat.min_eq_left hmax] at hsame
  have hle : commonLead start target + (b.length - stepsUp start target) ≤
      commonLead start target := by
    refine le_commonLead_iff.2 ⟨?_, hsame ▸ List.take_prefix _ _⟩
    have := hd.length_le
    rw [List.length_take] at this
    omega
  omega

/-- Steps go nowhere only if there are none. -/
theorem arrive_eq_start_iff : arrive start b = start ↔ b = [] := by
  constructor
  · intro hd
    by_cases hlen : b.length ≤ stepsUp start target
    · have hlength := congrArg List.length hd
      rw [arrive_above hstart htarget h hlen, List.length_take] at hlength
      rw [← List.length_eq_zero_iff]
      rw [stepsUp] at hlen
      have hle := commonLead_le start target
      omega
    · have hlead : arrive start b <+: start := ⟨[], by rw [List.append_nil, hd]⟩
      exact absurd hlead (arrive_below_not_above hstart htarget h (Nat.lt_of_not_le hlen))
  · rintro rfl
    rw [arrive_above hstart htarget h (Nat.zero_le _), List.length_nil, Nat.sub_zero,
      List.take_length]

/-- A way that goes down is followed by those that lead to places below. -/
theorem prefix_iff_of_below (hother : ".." ∉ other) (hlen : stepsUp start target < b.length) :
    b <+: stepsBetween start other ↔ arrive start b <+: other := by
  constructor
  · intro hlead
    have hups : stepsUp start other = stepsUp start target := by
      have hups := count_up_of_lead htarget h
      rw [count_up_of_lead hother hlead] at hups
      omega
    rw [arrive_below hstart hother hlead (hups ▸ hlen)]
    exact List.take_prefix _ _
  · intro hd
    have hmax := turn_add_le_length h hlen
    rw [arrive_below hstart htarget h hlen] at hd
    have hsame := List.prefix_iff_eq_take.1 hd
    rw [List.length_take, Nat.min_eq_left hmax] at hsame
    have hturn : commonLead start other = commonLead start target :=
      commonLead_eq_of_take (by omega) hmax hd
    have hups : stepsUp start other = stepsUp start target := by rw [stepsUp, stepsUp, hturn]
    have hdown := congrArg (List.drop (commonLead start target)) hsame
    rw [List.drop_take, List.drop_take, Nat.add_sub_cancel_left] at hdown
    rw [List.prefix_iff_eq_take, stepsBetween_eq, List.take_append, List.take_replicate,
      List.length_replicate, hups, hturn, ← hdown]
    exact eq_of_prefix_stepsBetween h

/-- A step before the target, a way is above the start or above the target. -/
theorem arrive_prefix_or (hlast : b <+: (stepsBetween start target).dropLast) :
    arrive start b <+: start ∨ arrive start b <+: target.dropLast := by
  by_cases hlen : b.length ≤ stepsUp start target
  · rw [arrive_above hstart htarget h hlen]
    exact .inl (List.take_prefix _ _)
  · have hlen := Nat.lt_of_not_le hlen
    have hmax := hlast.length_le
    rw [List.length_dropLast, stepsBetween_eq, List.length_append, List.length_replicate,
      List.length_drop] at hmax
    rw [arrive_below hstart htarget h hlen, List.dropLast_eq_take]
    exact .inr (List.take_prefix_take_left (by omega))

/-- What is on the way to another place tells whether that place is below, except at the place
itself and for a place above the start, where the other way turns down somewhere else. -/
theorem prefix_iff_holds (hother : ".." ∉ other) (hb : b ≠ []) :
    (b <+: stepsBetween start other ↔ Holds (arrive start b) other) ↔
      ¬(other = arrive start b ∨ (arrive start b <+: start ∧
        commonLead start other ≠ (arrive start b).length)) := by
  have hne : 0 < b.length := List.length_pos_iff.2 hb
  by_cases hlen : b.length ≤ stepsUp start target
  · have hd := arrive_above hstart htarget h hlen
    have habove : arrive start b <+: start := hd ▸ List.take_prefix _ _
    have hlength : (arrive start b).length = start.length - b.length := by
      rw [hd, List.length_take]
      omega
    have hother' : arrive start b <+: other ↔ start.length - b.length ≤ commonLead start other := by
      rw [le_commonLead_iff, hd]
      exact (and_iff_right (Nat.sub_le _ _)).symm
    have hleft := commonLead_le start other
    rw [prefix_iff_of_above hother h hlen, Holds, hother', and_iff_right habove, hlength, stepsUp]
    rw [stepsUp] at hlen
    by_cases hself : other = arrive start b
    · have hright : commonLead start other ≤ start.length - b.length := by
        rw [← hlength, ← hself]
        exact commonLead_le_right start other
      have hfollowed : b.length ≤ start.length - commonLead start other := by omega
      exact iff_of_false (fun hiff => (hiff.1 hfollowed).2 hself.symm) (fun hno => hno (.inl hself))
    · simp only [ne_eq, Ne.symm hself, not_false_iff, and_true, hself, false_or, not_not]
      omega
  · have hlen := Nat.lt_of_not_le hlen
    have habove := arrive_below_not_above hstart htarget h hlen
    rw [prefix_iff_of_below hstart htarget h hother hlen, Holds]
    by_cases hself : other = arrive start b
    · simp [← hself]
    · simp [hself, Ne.symm hself, habove]

end Arrival

end Path

namespace Project

variable {p : Project} {a b : String}

/-- A file is shown by the steps that lead to it from the root. -/
theorem relative_eq (hhere : ∀ s ∈ p.here, Path.IsStep s) (ha : a ≠ "") :
    p.relative a = (Path.mk "" (Path.stepsBetween (Path.absolute p.here p.root)
      (Path.absolute p.here a))).text := by
  rw [relative, Path.relative?_eq p.root ha]
  dsimp only
  rw [Path.tidy, Path.parse_text (Path.wellFormed_stepsBetween hhere)]

/-- Files at different places are shown by different paths. -/
theorem absolute_eq_of_relative_eq (hhere : ∀ s ∈ p.here, Path.IsStep s) (ha : a ≠ "")
    (hb : b ≠ "") (h : p.relative a = p.relative b) :
    Path.absolute p.here a = Path.absolute p.here b := by
  rw [relative_eq hhere ha, relative_eq hhere hb] at h
  have hsteps := congrArg Path.stepsOf h
  rw [Path.stepsOf_text (Path.wellFormed_stepsBetween hhere),
    Path.stepsOf_text (Path.wellFormed_stepsBetween hhere)] at hsteps
  exact Path.stepsBetween_inj (fun hm => (Path.mem_absolute hhere hm).2 rfl)
    (fun hm => (Path.mem_absolute hhere hm).2 rfl) hsteps

end Project

end ExportLint
