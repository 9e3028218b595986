import ExportLint.Module.Inspector
import Mathlib.Data.List.Induction

/-!
# Sessions of an inspector

In a session an inspector is set up and closed, files are inspected, and the sources are changed by
others. What a file comes to is read off the steps so far: it is as it was when it was first read
since the last set-up or closing, or else as the sources serve it at that moment.
-/
namespace ExportLint.Inspector

/-- One step of a session. -/
inductive Step where
  | setUp (files : List String) (options : ReadOptions)
  | close
  | inspect (file : String)
  /-- From now on the sources are others. -/
  | change (sources : Sources)
  deriving Repr

/-- What was read stays known over a step. -/
def Step.keeps : Step → Bool
  | .setUp _ _ | .close => false
  | .inspect _ | .change _ => true

def step (i : Inspector) : Step → Inspector
  | .setUp files options => i.setUp files options
  | .close => i.close
  | .inspect file => (i.inspect file).2
  | .change sources => { i with sources }

/-- A new inspector after some steps. -/
def after (sources : Sources) (steps : List Step) : Inspector := steps.foldl step { sources }

/-- What inspecting a file gives after some steps. -/
def inspected (sources : Sources) (steps : List Step) (file : String) : Inventory :=
  ((after sources steps).inspect file).1

section History

/-- The sources after a step. -/
def servedNext (sources : Sources) : Step → Sources
  | .change others => others
  | _ => sources

/-- The sources after some steps. -/
def served (sources : Sources) (steps : List Step) : Sources := steps.foldl servedNext sources

/-- The options of an inspector after a step, if it is set up. Inspecting sets it up with the
standard ones. -/
def inForceNext (options : Option ReadOptions) : Step → Option ReadOptions
  | .setUp _ others => some others
  | .close => none
  | .inspect _ => some (options.getD {})
  | .change _ => options

def inForce (steps : List Step) : Option ReadOptions := steps.foldl inForceNext none

/-- The options that a file is inspected under after some steps. -/
def optionsAfter (steps : List Step) : ReadOptions := (inForce steps).getD {}

/-- After some steps the sources serve a text for the file, and the text can be read. -/
def Readable (sources : Sources) (steps : List Step) (file : String) : Prop :=
  ∃ text r, (served sources steps).text file = .ok text ∧
    ReadSource.ofText (optionsAfter steps) file text = .ok r

/-- The file was inspected when it could be read, and neither set-up nor closing came since. -/
def ReadBefore (sources : Sources) (steps : List Step) (file : String) : Prop :=
  ∃ earlier later, steps = earlier ++ .inspect file :: later ∧ (∀ s ∈ later, s.keeps = true) ∧
    Readable sources earlier file

end History

variable {i : Inspector} {sources : Sources} {steps : List Step} {s : Step} {file other : String}
  {r : ReadSource}

theorem after_concat : after sources (steps ++ [s]) = (after sources steps).step s := by
  simp [after]

theorem served_concat : served sources (steps ++ [s]) = servedNext (served sources steps) s := by
  simp [served]

theorem inForce_concat : inForce (steps ++ [s]) = inForceNext (inForce steps) s := by
  simp [inForce]

section Inspecting

/-- An inspector that is set up, for the file if it was not before. -/
def opened (i : Inspector) (file : String) : Inspector := if i.ready then i else i.setUp [file] {}

theorem ready_opened (i : Inspector) (file : String) : (i.opened file).ready = true := by
  rw [opened]
  split
  · assumption
  · rfl

theorem sources_opened (i : Inspector) (file : String) : (i.opened file).sources = i.sources := by
  rw [opened]
  split <;> rfl

theorem inspect_eq (i : Inspector) (file : String) :
    i.inspect file = (.ofResult file ((i.opened file).source file).1,
      ((i.opened file).source file).2) := rfl

/-- Looking a file up changes only what is known, and of that only this file. -/
theorem source_frame (i : Inspector) (file : String) :
    (i.source file).2.sources = i.sources ∧ (i.source file).2.options = i.options ∧
      (i.source file).2.ready = i.ready ∧
      ∀ other ≠ file, (i.source file).2.known.lookup other = i.known.lookup other := by
  rw [source]
  split
  · exact ⟨rfl, rfl, rfl, fun _ _ => rfl⟩
  · split
    · refine ⟨rfl, rfl, rfl, fun other hne => ?_⟩
      have hbeq : (other == file) = false := beq_eq_false_iff_ne.2 hne
      rw [List.lookup_cons, hbeq]
    · exact ⟨rfl, rfl, rfl, fun _ _ => rfl⟩

theorem source_of_known (h : i.known.lookup file = some r) : i.source file = (.ok r, i) := by
  rw [source, h]

/-- What could be read is known from then on. -/
theorem lookup_source_iff :
    (i.source file).2.known.lookup file = some r ↔ (i.source file).1 = .ok r := by
  cases hknown : i.known.lookup file with
  | some known => simp [source_of_known hknown, hknown]
  | none =>
    rw [source, hknown]
    dsimp only
    split
    · simp
    · simp [hknown]

theorem source_of_unknown (h : i.known.lookup file = none) :
    (i.source file).1 = i.sources.text file >>= ReadSource.ofText i.options file := by
  rw [source, h]
  dsimp only
  split
  · rename_i hread
    exact hread.symm
  · rename_i hread
    exact hread.symm

end Inspecting

/-- How the state of an inspector tells the steps so far. -/
structure Tells (sources : Sources) (steps : List Step) (i : Inspector) : Prop where
  sources_eq : i.sources = served sources steps
  inForce_eq : inForce steps = if i.ready then some i.options else none
  unknown : i.ready = false → i.known = []
  readBefore : ∀ file r, i.known.lookup file = some r → ReadBefore sources steps file

namespace Tells

theorem start (sources : Sources) : Tells sources [] { sources } where
  sources_eq := rfl
  inForce_eq := rfl
  unknown := fun _ => rfl
  readBefore := by
    intro file r h
    cases h

/-- The inspector that is set up for a file works under the options in force. -/
theorem options_opened (h : Tells sources steps i) (file : String) :
    (i.opened file).options = optionsAfter steps := by
  rw [optionsAfter, h.inForce_eq, opened]
  split <;> rfl

theorem known_opened (h : Tells sources steps i) (file : String) :
    (i.opened file).known = i.known := by
  rw [opened]
  split
  · rfl
  · rename_i hready
    rw [h.unknown (Bool.not_eq_true _ ▸ hready)]
    rfl

/-- A step that keeps what is known keeps what was read before. -/
theorem readBefore_concat (h : ReadBefore sources steps file) (hs : s.keeps = true) :
    ReadBefore sources (steps ++ [s]) file := by
  obtain ⟨earlier, later, rfl, hlater, hreadable⟩ := h
  refine ⟨earlier, later ++ [s], by simp, ?_, hreadable⟩
  intro t ht
  rcases List.mem_append.1 ht with ht | ht
  · exact hlater t ht
  · rw [List.mem_singleton.1 ht]
    exact hs

theorem inspect (h : Tells sources steps i) (file : String) :
    Tells sources (steps ++ [.inspect file]) (i.inspect file).2 := by
  obtain ⟨hsources, hoptions, hready, hother⟩ := source_frame (i.opened file) file
  rw [inspect_eq]
  refine ⟨?_, ?_, ?_, ?_⟩
  · rw [served_concat, hsources, sources_opened, h.sources_eq]
    rfl
  · rw [inForce_concat, inForceNext, hready, ready_opened, hoptions, h.options_opened]
    rfl
  · intro hclosed
    rw [hready, ready_opened] at hclosed
    cases hclosed
  · intro other r hr
    by_cases hne : other = file
    · subst hne
      cases hknown : i.known.lookup other with
      | some known => exact readBefore_concat (h.readBefore other known hknown) rfl
      | none =>
        have hread := lookup_source_iff.1 hr
        rw [source_of_unknown ((h.known_opened other).symm ▸ hknown), sources_opened,
          h.options_opened, h.sources_eq] at hread
        cases htext : (served sources steps).text other with
        | error e =>
          rw [htext] at hread
          cases hread
        | ok text =>
          rw [htext] at hread
          exact ⟨steps, [], rfl, fun _ hs => (List.not_mem_nil hs).elim, text, r, htext, hread⟩
    · rw [hother other hne, h.known_opened] at hr
      exact readBefore_concat (h.readBefore other r hr) rfl

theorem step (h : Tells sources steps i) (s : Step) :
    Tells sources (steps ++ [s]) (i.step s) := by
  cases s with
  | setUp files options =>
    refine ⟨?_, ?_, fun _ => rfl, fun file r hr => by cases hr⟩
    · rw [served_concat, ← h.sources_eq]
      rfl
    · rw [inForce_concat]
      rfl
  | close =>
    have hclosed : i.close.sources = i.sources ∧ i.close.ready = false ∧ i.close.known = [] := by
      rw [close]
      split
      · exact ⟨rfl, rfl, rfl⟩
      · rename_i hready
        have hready := Bool.not_eq_true _ ▸ hready
        exact ⟨rfl, hready, h.unknown hready⟩
    obtain ⟨hsources, hready, hknown⟩ := hclosed
    refine ⟨?_, ?_, fun _ => hknown, fun file r hr => ?_⟩
    · rw [served_concat, Inspector.step, hsources, h.sources_eq]
      rfl
    · rw [inForce_concat, Inspector.step, hready]
      rfl
    · rw [Inspector.step, hknown] at hr
      cases hr
  | inspect file => exact h.inspect file
  | change others =>
    refine ⟨?_, ?_, h.unknown, fun file r hr => readBefore_concat (h.readBefore file r hr) rfl⟩
    · rw [served_concat]
      rfl
    · rw [inForce_concat]
      exact h.inForce_eq

end Tells

/-- The state of an inspector always tells the steps so far. -/
theorem tells_after (sources : Sources) (steps : List Step) :
    Tells sources steps (after sources steps) := by
  induction steps using List.reverseRecOn with
  | nil => exact .start sources
  | append_singleton steps s ih =>
    rw [after_concat]
    exact ih.step s

section Repeating

/-- What is known stays known over steps that keep it. -/
theorem lookup_foldl_step (hr : i.known.lookup file = some r) (hready : i.ready = true) :
    ∀ steps : List Step, (∀ s ∈ steps, s.keeps = true) →
      (steps.foldl step i).known.lookup file = some r ∧ (steps.foldl step i).ready = true := by
  intro steps hkeeps
  induction steps generalizing i with
  | nil => exact ⟨hr, hready⟩
  | cons s steps ih =>
    obtain ⟨hs, hrest⟩ := List.forall_mem_cons.1 hkeeps
    cases s with
    | setUp files options => cases hs
    | close => cases hs
    | inspect other =>
      have hopened : i.opened other = i := by rw [opened, if_pos hready]
      obtain ⟨-, -, hready', hother⟩ := source_frame i other
      have hstep : i.step (.inspect other) = (i.source other).2 := by
        rw [step, inspect_eq, hopened]
      rw [List.foldl_cons, hstep]
      refine ih ?_ (hready'.trans hready) hrest
      by_cases hne : file = other
      · subst hne
        rw [lookup_source_iff, source_of_known hr]
      · rw [hother file hne, hr]
    | change others => exact ih hr hready hrest

/-- A file that can be read is known as what inspecting it gives. -/
theorem exists_known_of_readable (h : Tells sources steps i) (hread : Readable sources steps file) :
    ∃ r, (i.inspect file).1 = .ofResult file (.ok r) ∧
      (i.inspect file).2.known.lookup file = some r := by
  rw [inspect_eq]
  have hok : ∃ r, ((i.opened file).source file).1 = .ok r := by
    cases hknown : (i.opened file).known.lookup file with
    | some r => exact ⟨r, by rw [source_of_known hknown]⟩
    | none =>
      obtain ⟨text, r, htext, hr⟩ := hread
      refine ⟨r, ?_⟩
      rw [source_of_unknown hknown, sources_opened, h.options_opened, h.sources_eq, htext]
      exact hr
  obtain ⟨r, hr⟩ := hok
  exact ⟨r, by rw [hr], lookup_source_iff.2 hr⟩

theorem inspect_of_known (hr : i.known.lookup file = some r) (hready : i.ready = true) :
    (i.inspect file).1 = .ofResult file (.ok r) := by
  rw [inspect_eq, opened, if_pos hready, source_of_known hr]

end Repeating

/-- Whatever the steps of a session, a file that was inspected when it could be read comes to the
same inventory until the inspector is set up anew or closed. Any other file comes to what its text
comes to at that moment, under the options in force, or to one fault if the sources fail. -/
theorem inspected_again_or_anew (sources : Sources) (steps : List Step) (file : String) :
    (∀ earlier later, steps = earlier ++ .inspect file :: later →
      (∀ s ∈ later, s.keeps = true) → Readable sources earlier file →
        inspected sources steps file = inspected sources earlier file) ∧
    (¬ReadBefore sources steps file →
      (∀ text, (served sources steps).text file = .ok text →
        inspected sources steps file =
          inspectText { sources := served sources steps, options := optionsAfter steps } file text) ∧
      (∀ e, (served sources steps).text file = .error e →
        inspected sources steps file = { file, errors := [e.message] })) := by
  constructor
  · rintro earlier later rfl hlater hread
    obtain ⟨r, hfirst, hknown⟩ := exists_known_of_readable (tells_after sources earlier) hread
    have hready : ((after sources earlier).inspect file).2.ready = true := by
      rw [inspect_eq]
      exact (source_frame _ file).2.2.1.trans (ready_opened _ file)
    obtain ⟨hagain, hready⟩ := lookup_foldl_step hknown hready later hlater
    have hafter : after sources (earlier ++ .inspect file :: later) =
        later.foldl step ((after sources earlier).inspect file).2 := by
      rw [after, List.foldl_append]
      rfl
    rw [inspected, inspected, hfirst, hafter, inspect_of_known hagain hready]
  · intro hnew
    have htells := tells_after sources steps
    have hunknown : ((after sources steps).opened file).known.lookup file = none := by
      rw [htells.known_opened, Option.eq_none_iff_forall_ne_some]
      exact fun r hr => hnew (htells.readBefore file r hr)
    have hresult : inspected sources steps file = .ofResult file
        ((served sources steps).text file >>= ReadSource.ofText (optionsAfter steps) file) := by
      rw [inspected, inspect_eq, source_of_unknown hunknown, sources_opened,
        htells.options_opened, htells.sources_eq]
    refine ⟨fun text htext => ?_, fun e he => ?_⟩
    · rw [hresult, htext]
      rfl
    · rw [hresult, he]
      rfl

/-- Right after a closing or a set-up nothing was read before. -/
theorem not_readBefore_concat (hs : s.keeps = false) : ¬ReadBefore sources (steps ++ [s]) file := by
  rintro ⟨earlier, later, he, hlater, -⟩
  rcases later.eq_nil_or_concat with rfl | ⟨front, last, rfl⟩
  · obtain ⟨-, rfl⟩ := List.append_singleton_inj.1 he
    cases hs
  · rw [List.concat_eq_append] at he hlater
    rw [← List.cons_append, ← List.append_assoc] at he
    obtain ⟨-, rfl⟩ := List.append_singleton_inj.1 he
    rw [hlater s (by simp)] at hs
    cases hs

/-- Sources that serve one file. -/
def serving (text : String) : Sources := .inMemory [("a.ts", text)]

/-- A file that is changed after it was read is read anew once the inspector was closed. -/
theorem changed_file_read_anew :
    inspected (serving "export {a};") [.inspect "a.ts", .change (serving "export {b};")] "a.ts" =
      inspected (serving "export {a};") [] "a.ts" ∧
    inspected (serving "export {a};") [.inspect "a.ts", .change (serving "export {b};"), .close]
        "a.ts" = inspectText { sources := serving "export {b};" } "a.ts" "export {b};".toList ∧
    (inspected (serving "export {a};") [] "a.ts").exportNames = ["a"] ∧
    (inspectText { sources := serving "export {b};" } "a.ts" "export {b};".toList).exportNames =
      ["b"] := by
  have hread : Readable (serving "export {a};") [] "a.ts" := by
    have hok : (ReadSource.ofText {} "a.ts" "export {a};".toList).isOk = true := by decide +kernel
    cases hr : ReadSource.ofText {} "a.ts" "export {a};".toList with
    | error e =>
      rw [hr] at hok
      cases hok
    | ok r => exact ⟨_, r, rfl, hr⟩
  have hclosed : ¬ReadBefore (serving "export {a};")
      ([.inspect "a.ts", .change (serving "export {b};")] ++ [.close]) "a.ts" :=
    not_readBefore_concat rfl
  refine ⟨?_, ?_, by decide +kernel, by decide +kernel⟩
  · exact (inspected_again_or_anew _ _ _).1 [] [.change (serving "export {b};")] rfl (by decide)
      hread
  · exact ((inspected_again_or_anew _ [.inspect "a.ts", .change (serving "export {b};"), .close]
      "a.ts").2 hclosed).1 _ rfl

end ExportLint.Inspector
