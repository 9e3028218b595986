import ExportLint.Project.Resolver
import ExportLint.Proofs.RelativePaths

/-!
# Specifiers that resolve alike

The normal form of a path is its root with the steps that are left of its own. What is joined to a
path goes on from there, and a path that ends in a name goes one step further than its directory. So
a specifier leads from all paths of one file to the same place, and the source directory can be
named by the paths of the files in it.
-/
namespace ExportLint

namespace Path

variable {a b p s : String} {rooted : Bool} {taken ss ts : List String}

theorem stepsOf_append_slash (a b : String) :
    stepsOf (a ++ "/" ++ b) = stepsOf a ++ stepsOf b := by
  have hchars : (a ++ "/" ++ b).toList = a.toList ++ '/' :: b.toList := by
    rw [String.toList_append, String.toList_append, List.append_assoc]
    rfl
  rw [stepsOf, Text.splitAtChar, hchars,
    Text.splitWhere_append_cons (p := (· == '/')) (beq_self_eq_true '/'), List.map_append,
    List.filter_append]
  rfl

def slashes (n : Nat) : String := String.ofList (List.replicate n '/')

theorem slashes_zero : slashes 0 = "" := rfl

theorem slashes_succ (n : Nat) : slashes (n + 1) = slashes n ++ "/" := by
  rw [← String.toList_inj]
  simp [slashes, List.replicate_succ']

/-- Slashes alone make no step. -/
theorem stepsOf_append_slashes (a : String) (n : Nat) : stepsOf (a ++ slashes n) = stepsOf a := by
  induction n with
  | zero => rw [slashes_zero, String.append_empty]
  | succ n ih =>
    have h := stepsOf_append_slash (a ++ slashes n) ""
    rw [String.append_empty, show stepsOf "" = [] from rfl, List.append_nil, ih] at h
    rw [slashes_succ, ← String.append_assoc, h]

theorem stepsOf_slashes (n : Nat) : stepsOf (slashes n) = [] := by
  have h := stepsOf_append_slashes "" n
  rwa [String.empty_append] at h

theorem exists_replicate_append (cs : List Char) :
    ∃ n, cs = List.replicate n '/' ++ cs.dropWhile (· = '/') := by
  have hlead : cs.takeWhile (· = '/') = List.replicate (cs.takeWhile (· = '/')).length '/' :=
    List.eq_replicate_of_mem fun c hc =>
      of_decide_eq_true (List.all_eq_true.1 List.all_takeWhile c hc)
  exact ⟨_, by rw [← hlead, List.takeWhile_append_dropWhile]⟩

theorem head?_dropWhile_slash_ne (cs : List Char) : (cs.dropWhile (· = '/')).head? ≠ some '/' := by
  intro h
  have hc := List.head?_dropWhile_not (· = '/') cs
  rw [h] at hc
  simp at hc

/-- The slashes that a path starts with. -/
theorem exists_slashes_append (a : String) :
    ∃ n d, a = slashes n ++ d ∧ d.toList.head? ≠ some '/' := by
  obtain ⟨n, hn⟩ := exists_replicate_append a.toList
  refine ⟨n, String.ofList (a.toList.dropWhile (· = '/')), ?_, ?_⟩
  · rw [← String.toList_inj, String.toList_append, slashes, String.toList_ofList,
      String.toList_ofList, ← hn]
  · rw [String.toList_ofList]
    exact head?_dropWhile_slash_ne a.toList

/-- A path without slashes in front has as many slashes for its root as are put there, up to two. -/
theorem rootOf_slashes_append (n : Nat) (hb : b.toList.head? ≠ some '/') :
    rootOf (slashes n ++ b) = rootOf (slashes n) := by
  match n with
  | 0 => exact rootOf_append (.inl rfl) hb
  | 1 => exact rootOf_append (.inr (.inl rfl)) hb
  | 2 => exact rootOf_append (.inr (.inr rfl)) hb
  | n + 3 =>
    rw [rootOf, rootOf, String.toList_append, slashes, String.toList_ofList]
    rfl

/-- A path keeps its root when something is put behind it that does not start with a slash, or if it
is more than slashes itself. -/
theorem rootOf_append_left (h : b.toList.head? ≠ some '/' ∨ ∃ c ∈ a.toList, c ≠ '/') :
    rootOf (a ++ b) = rootOf a := by
  obtain ⟨n, d, rfl, hd⟩ := exists_slashes_append a
  have hdb : (d ++ b).toList.head? ≠ some '/' := by
    rw [String.toList_append]
    cases hcs : d.toList with
    | nil =>
      refine h.resolve_right ?_
      rintro ⟨c, hc, hne⟩
      rw [String.toList_append, hcs, List.append_nil, slashes, String.toList_ofList] at hc
      exact hne (List.eq_of_mem_replicate hc)
    | cons c cs =>
      rw [hcs] at hd
      exact hd
  rw [String.append_assoc, rootOf_slashes_append n hdb, rootOf_slashes_append n hd]

/-- A text that ends with a slash is one with a slash behind it. -/
theorem exists_append_slash (h : a.toList.getLast? = some '/') : ∃ d, a = d ++ "/" := by
  obtain ⟨ds, hds⟩ := List.getLast?_eq_some_iff.1 h
  refine ⟨String.ofList ds, ?_⟩
  rw [← String.toList_inj, hds, String.toList_append, String.toList_ofList]
  rfl

/-- What is joined to a path adds its own steps. -/
theorem stepsOf_join (hb : b.toList.head? ≠ some '/') :
    stepsOf (join a b) = stepsOf a ++ stepsOf b := by
  rw [join, if_neg hb]
  split
  · rename_i ha
    rw [Bool.or_eq_true, String.isEmpty_iff, decide_eq_true_eq] at ha
    rcases ha with rfl | ha
    · rw [String.empty_append]
      rfl
    · obtain ⟨d, rfl⟩ := exists_append_slash ha
      have hd := stepsOf_append_slash d ""
      rw [String.append_empty] at hd
      rw [stepsOf_append_slash, hd]
      exact congrArg (· ++ stepsOf b) (List.append_nil _).symm
  · exact stepsOf_append_slash a b

theorem rootOf_join (hb : b.toList.head? ≠ some '/') : rootOf (join a b) = rootOf a := by
  rw [join, if_neg hb]
  split
  · exact rootOf_append_left (.inl hb)
  · rename_i ha
    rw [Bool.or_eq_true, String.isEmpty_iff, decide_eq_true_eq, not_or] at ha
    have hne : a.toList ≠ [] := fun he => ha.1 (String.toList_inj.1 he)
    have hlast : ∃ c ∈ a.toList, c ≠ '/' :=
      ⟨a.toList.getLast hne, List.getLast_mem hne, fun he =>
        ha.2 (by rw [List.getLast?_eq_some_getLast hne, he])⟩
    rw [String.append_assoc]
    exact rootOf_append_left (.inr hlast)

theorem intercalate_eq_empty_iff (h : ∀ s ∈ ss, IsStep s) : "/".intercalate ss = "" ↔ ss = [] := by
  refine ⟨fun he => ?_, fun he => by rw [he]; rfl⟩
  rw [← stepsOf_intercalate h, he]
  rfl

/-- A path after further steps. -/
def climbed (p : Path) (ss : List String) : Path :=
  { p with steps := (ss.foldl (climb (p.root != "")) p.steps.reverse).reverse }

theorem climbed_append (p : Path) (ss ts : List String) :
    p.climbed (ss ++ ts) = (p.climbed ss).climbed ts := by
  simp [climbed]

theorem climbed_name (p : Path) (hs : s ≠ "..") : p.climbed [s] = ⟨p.root, p.steps ++ [s]⟩ := by
  simp [climbed, climb, hs]

/-- The root of a path with the steps that its normal form has. -/
def normalPath (p : String) : Path := Path.climbed ⟨rootOf p, []⟩ (stepsOf p)

theorem wellFormed_normalPath (p : String) : (normalPath p).WellFormed := by
  refine ⟨rootOf_cases p, fun s hs => ?_⟩
  rcases mem_foldl_climb (List.mem_reverse.1 hs) with h | h
  · exact absurd h List.not_mem_nil
  · exact isStep_of_mem_stepsOf h

theorem normal_eq_text (p : String) : normal p = (normalPath p).text := by
  have hsteps : (normalPath p).steps = reduce (rootOf p != "") (stepsOf p) := rfl
  have hempty : (rootOf p ++ "/".intercalate (normalPath p).steps).isEmpty =
      ((rootOf p).isEmpty && (normalPath p).steps.isEmpty) := by
    rw [Bool.eq_iff_iff, Bool.and_eq_true, String.isEmpty_iff, String.isEmpty_iff,
      List.isEmpty_iff, String.append_eq_empty_iff,
      intercalate_eq_empty_iff (wellFormed_normalPath p).steps]
  rw [normal, text, ← hsteps, hempty]
  rfl

/-- Paths have one normal form exactly if they have the same root and the same steps are left. -/
theorem normal_eq_iff : normal a = normal b ↔ normalPath a = normalPath b := by
  rw [normal_eq_text, normal_eq_text]
  refine ⟨fun h => ?_, congrArg text⟩
  rw [← parse_text (wellFormed_normalPath a), h, parse_text (wellFormed_normalPath b)]

/-- What is joined to a path goes on from its normal form. -/
theorem normalPath_join (hb : b.toList.head? ≠ some '/') :
    normalPath (join a b) = (normalPath a).climbed (stepsOf b) := by
  rw [normalPath, rootOf_join hb, stepsOf_join hb, climbed_append]
  rfl

/-- The text behind the last slash. -/
def lastPart (p : String) : String :=
  String.ofList (p.toList.reverse.takeWhile (· ≠ '/')).reverse

/-- A name that a file can have. -/
structure IsFileName (s : String) : Prop where
  ne_empty : s ≠ ""
  ne_point : s ≠ "."
  ne_points : s ≠ ".."

theorem slash_not_mem_lastPart (p : String) : '/' ∉ (lastPart p).toList := by
  rw [lastPart, String.toList_ofList, List.mem_reverse]
  intro h
  exact absurd (List.all_eq_true.1 List.all_takeWhile '/' h) (by decide)

theorem head?_lastPart_ne (p : String) : (lastPart p).toList.head? ≠ some '/' :=
  fun h => slash_not_mem_lastPart p (List.mem_of_head? h)

/-- A path is its directory and what is behind the last slash, with slashes in between unless the
directory is slashes alone. -/
theorem directory_cases (p : String) :
    (∃ n, directory p = slashes n ∧ p = slashes n ++ lastPart p) ∨
      ((∃ c ∈ (directory p).toList, c ≠ '/') ∧
        ∃ n, p = directory p ++ slashes n ++ "/" ++ lastPart p) := by
  have hp : p.toList = (p.toList.reverse.dropWhile (· ≠ '/')).reverse ++ (lastPart p).toList := by
    rw [lastPart, String.toList_ofList, ← List.reverse_append, List.takeWhile_append_dropWhile,
      List.reverse_reverse]
  cases hfront : p.toList.reverse.dropWhile (· ≠ '/') with
  | nil =>
    refine .inl ⟨0, ?_, ?_⟩
    · rw [directory, hfront, slashes_zero]
      simp
    · rw [slashes_zero, String.empty_append, ← String.toList_inj, hp, hfront, List.reverse_nil,
        List.nil_append]
  | cons c front =>
    have hc : c = '/' := by
      have h := List.head?_dropWhile_not (· ≠ '/') p.toList.reverse
      rw [hfront] at h
      simpa using h
    subst hc
    -- What is left are slashes and, unless the path starts with these, the directory before them.
    obtain ⟨n, hn⟩ := exists_replicate_append front
    have hdrop : ('/' :: front).dropWhile (· = '/') = front.dropWhile (· = '/') := rfl
    rw [hfront] at hp
    cases hhead : front.dropWhile (· = '/') with
    | nil =>
      have hslashes : ('/' :: front).reverse = List.replicate (n + 1) '/' := by
        rw [hn, hhead, List.append_nil, ← List.replicate_succ, List.reverse_replicate]
      have hdir : directory p = slashes (n + 1) := by
        rw [directory, hfront, hdrop, hhead, hslashes, slashes]
        simp
      refine .inl ⟨n + 1, hdir, ?_⟩
      rw [← String.toList_inj, hp, String.toList_append, hslashes, slashes, String.toList_ofList]
    | cons c head =>
      have hdir : directory p = String.ofList (c :: head).reverse := by
        rw [directory, hfront, hdrop, hhead]
        simp
      refine .inr ⟨⟨c, ?_, ?_⟩, n, ?_⟩
      · simp [hdir]
      · rintro rfl
        exact head?_dropWhile_slash_ne front (by rw [hhead]; rfl)
      · rw [← String.toList_inj, hp, hn, hhead, hdir]
        simp [slashes]

theorem rootOf_directory (p : String) : rootOf (directory p) = rootOf p := by
  rcases directory_cases p with ⟨n, hd, hp⟩ | ⟨hd, n, hp⟩
  · rw [hp, rootOf_slashes_append n (head?_lastPart_ne p), ← hp, hd]
  · rw [String.append_assoc, String.append_assoc] at hp
    have h := rootOf_append_left (b := slashes n ++ ("/" ++ lastPart p)) (.inr hd)
    rw [← hp] at h
    exact h.symm

theorem stepsOf_directory_append (p : String) :
    stepsOf p = stepsOf (directory p) ++ stepsOf (lastPart p) := by
  rcases directory_cases p with ⟨n, hd, hp⟩ | ⟨-, n, hp⟩
  · rw [hd, stepsOf_slashes, List.nil_append]
    cases n with
    | zero => rw [slashes_zero, String.empty_append] at hp; rw [← hp]
    | succ n =>
      have h := stepsOf_append_slash (slashes n) (lastPart p)
      rwa [← slashes_succ, ← hp, stepsOf_slashes, List.nil_append] at h
  · have h := stepsOf_append_slash (directory p ++ slashes n) (lastPart p)
    rwa [← hp, stepsOf_append_slashes] at h

theorem stepsOf_lastPart (h : IsFileName (lastPart p)) : stepsOf (lastPart p) = [lastPart p] := by
  have hstep : ∀ s ∈ [lastPart p], IsStep s := by
    simpa using ⟨h.ne_empty, h.ne_point, slash_not_mem_lastPart p⟩
  have hjoined : "/".intercalate [lastPart p] = lastPart p := String.intercalate_singleton
  rw [← hjoined, stepsOf_intercalate hstep, hjoined]

/-- A path that ends in a name goes one step further than its directory. -/
theorem normalPath_of_isFileName (h : IsFileName (lastPart p)) : normalPath p =
    ⟨(normalPath (directory p)).root, (normalPath (directory p)).steps ++ [lastPart p]⟩ := by
  have hroot : rootOf p = rootOf (directory p) := (rootOf_directory p).symm
  have hsteps : stepsOf p = stepsOf (directory p) ++ [lastPart p] := by
    rw [stepsOf_directory_append, stepsOf_lastPart h]
  rw [normalPath, hroot, hsteps, climbed_append, climbed_name _ h.ne_points]
  rfl

theorem eq_of_parts {p q : Path} (hroot : p.root = q.root) (hsteps : p.steps = q.steps) :
    p = q := by
  cases p
  cases q
  simp_all

/-- Paths of one file have directories that are one place. -/
theorem normalPath_directory_eq (ha : IsFileName (lastPart a)) (hb : IsFileName (lastPart b))
    (h : normal a = normal b) : normalPath (directory a) = normalPath (directory b) := by
  rw [normal_eq_iff, normalPath_of_isFileName ha, normalPath_of_isFileName hb, Path.mk.injEq] at h
  obtain ⟨hroot, hsteps⟩ := h
  exact eq_of_parts hroot (List.append_inj_left' hsteps rfl)

/-- A path of a file that lies directly in a directory. -/
structure LiesIn (dir file : String) : Prop where
  named : IsFileName (lastPart file)
  place : normal file = normal (join dir (lastPart file))

theorem LiesIn.normalPath_directory {dir : String} (h : LiesIn dir p) :
    normalPath (directory p) = normalPath dir := by
  have hplace := normal_eq_iff.1 h.place
  rw [normalPath_of_isFileName h.named, normalPath_join (head?_lastPart_ne p),
    stepsOf_lastPart h.named, climbed_name _ h.named.ne_points, Path.mk.injEq] at hplace
  exact eq_of_parts hplace.1 (List.append_inj_left' hplace.2 rfl)

/-- From directories with one normal form, a path leads to the same place. -/
theorem normal_join_congr {dir dir' : String} (hs : s.toList.head? ≠ some '/')
    (h : normalPath dir = normalPath dir') : normal (join dir s) = normal (join dir' s) := by
  rw [normal_eq_iff, normalPath_join hs, normalPath_join hs, h]

end Path

namespace Resolver

open ExportLint.Path

variable {r : Resolver} {a b p specifier : String}

theorem target?_eq_of_normal_eq (ha : IsFileName (lastPart a)) (hb : IsFileName (lastPart b))
    (h : normal a = normal b) : r.target? a specifier = r.target? b specifier := by
  rw [target?, target?]
  split
  · rename_i hs
    rw [normal_join_congr (by rw [hs]; simp) (normalPath_directory_eq ha hb h)]
  · rfl
  · rfl

/-- The source directory is where the files in it are. -/
theorem target?_sources (importer : String) {inside : String} (hp : p.toList.head? ≠ some '/')
    (h : LiesIn (join r.root "src") inside) :
    r.target? importer ("@/" ++ p) = r.target? inside ("./" ++ p) := by
  have hat : ("@/" ++ p).toList = '@' :: '/' :: p.toList := String.toList_append
  have hpoint : ("./" ++ p).toList = '.' :: '/' :: p.toList := String.toList_append
  have hhead : ("./" ++ p).toList.head? ≠ some '/' := by
    rw [hpoint]
    simp
  have hsteps : stepsOf ("./" ++ p) = stepsOf p := stepsOf_append_slash "." p
  simp only [target?, hat, hpoint]
  rw [String.ofList_toList, Option.some.injEq, normal_eq_iff, normalPath_join hp,
    normalPath_join hhead, hsteps, h.normalPath_directory]

theorem resolve?_congr {specifier' : String} (h : r.target? a specifier = r.target? b specifier') :
    r.resolve? a specifier = r.resolve? b specifier' := by
  rw [resolve?, resolve?, h]

theorem mem_files_of_resolve? {file : String} (h : r.resolve? a specifier = some file) :
    file ∈ r.files := by
  obtain ⟨path, -, hfile⟩ := Option.bind_eq_some_iff.1 h
  obtain ⟨candidate, -, hfound⟩ := List.exists_of_findSome?_eq_some hfile
  exact file?_mem hfound

/-- Paths of one file resolve a specifier alike. A path below the source directory is resolved from
everywhere as the files in that directory resolve it. What a specifier resolves to is a file of the
project. -/
theorem resolved_by_place (r : Resolver) :
    (∀ a b specifier, IsFileName (lastPart a) → IsFileName (lastPart b) → normal a = normal b →
        r.resolve? a specifier = r.resolve? b specifier) ∧
      (∀ p importer inside, p.toList.head? ≠ some '/' → LiesIn (join r.root "src") inside →
        r.resolve? importer ("@/" ++ p) = r.resolve? inside ("./" ++ p)) ∧
      ∀ importer specifier file, r.resolve? importer specifier = some file → file ∈ r.files :=
  ⟨fun _ _ _ ha hb h => resolve?_congr (target?_eq_of_normal_eq ha hb h),
    fun _ importer _ hp h => resolve?_congr (target?_sources importer hp h),
    fun _ _ _ h => mem_files_of_resolve? h⟩

/-- A project with a directory of modules below its source directory. -/
def libraryResolver : Resolver := ⟨"/p", ["/p/src/a.ts", "/p//src/lib/index.ts"]⟩

/-- A detour on the way to a file does not change what is found from there, and the source directory
is named by a file in it. -/
theorem library_found_alike :
    libraryResolver.resolve? "/p/src/a.ts" "./lib" =
        libraryResolver.resolve? "/p/./src//lib/../a.ts" "./lib" ∧
      libraryResolver.resolve? "/p/src/lib/index.ts" "@/lib" =
        libraryResolver.resolve? "/p/src/a.ts" "./lib" ∧
      libraryResolver.resolve? "/p/src/a.ts" "./lib" = some "/p//src/lib/index.ts" ∧
      "/p//src/lib/index.ts" ∈ libraryResolver.files := by
  obtain ⟨halike, hsources, hmem⟩ := resolved_by_place libraryResolver
  have hname : IsFileName (lastPart "/p/src/a.ts") := by
    constructor <;> decide
  have hdetour : IsFileName (lastPart "/p/./src//lib/../a.ts") := by
    constructor <;> decide
  have hfound : libraryResolver.resolve? "/p/src/a.ts" "./lib" = some "/p//src/lib/index.ts" := by
    decide +kernel
  refine ⟨halike _ _ _ hname hdetour (by decide +kernel), ?_, hfound, hmem _ _ _ hfound⟩
  exact hsources "lib" _ _ (by decide) ⟨hname, by decide +kernel⟩

end Resolver

end ExportLint
