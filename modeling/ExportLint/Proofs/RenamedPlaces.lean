import Mathlib.Data.List.Basic
import Mathlib.Data.Nat.Basic
import Mathlib.Order.Basic
import ExportLint.Proofs.BindingNames
import ExportLint.Proofs.ProposedEdits

/-!
# Where a name is changed

An issue on a name tells the place of the export, and the edit for it changes the name where it
first stands for itself on the line of that place. So the name is changed at the place of the export
exactly if it does not stand for itself before that. Another place never gives the same line, since
a name and its styled form have the same letters and the styled form ends in one of them.
-/
namespace ExportLint

namespace CaseStyle

open Naming

variable {style : CaseStyle} {cs ds : List Char} {ws : List (List Char)} {name : String}

/-- A letter or a digit comes last. -/
def EndsInPart (cs : List Char) : Prop := ∃ c, cs.getLast? = some c ∧ isWordPart c = true

theorem EndsInPart.append (h : EndsInPart ds) (cs : List Char) : EndsInPart (cs ++ ds) := by
  obtain ⟨c, hc, hpart⟩ := h
  exact ⟨c, by simp [hc], hpart⟩

theorem endsInPart_of_all (hne : cs ≠ []) (h : ∀ c ∈ cs, isWordPart c = true) : EndsInPart cs :=
  ⟨cs.getLast hne, List.getLast?_eq_some_getLast hne, h _ (List.getLast_mem hne)⟩

theorem endsInPart_separate (mark : Char) (hne : ws ≠ [])
    (h : ∀ w ∈ ws, w ≠ [] ∧ ∀ c ∈ w, isWordPart c = true) : EndsInPart (separate mark ws) := by
  fun_induction separate mark ws with
  | case1 => exact absurd rfl hne
  | case2 w =>
    obtain ⟨hw, hparts⟩ := h w List.mem_cons_self
    exact endsInPart_of_all hw hparts
  | case3 w ws hws ih =>
    have hrest := ih hws fun v hv => h v (List.mem_cons_of_mem w hv)
    exact (hrest.append [mark]).append w

theorem endsInPart_join (hne : ws ≠ []) (h : ∀ w ∈ ws, IsWord w) : EndsInPart (style.join ws) := by
  have hword : ∀ w ∈ ws, w ≠ [] ∧ ∀ c ∈ w, isWordPart c = true :=
    fun w hw => ⟨(h w hw).ne_nil, (h w hw).isWordPart⟩
  cases style with
  | camel => exact endsInPart_of_all (join_ne_nil h hne) (isWordPart_of_mem_join (.inl rfl) h)
  | pascal => exact endsInPart_of_all (join_ne_nil h hne) (isWordPart_of_mem_join (.inr rfl) h)
  | snake => exact endsInPart_separate '_' hne hword
  | kebab => exact endsInPart_separate '-' hne hword
  | constant =>
    refine endsInPart_separate '_' (by simpa using hne) (List.forall_mem_map.2 fun w hw => ?_)
    obtain ⟨hw, hparts⟩ := hword w hw
    exact ⟨by simpa using hw,
      List.forall_mem_map.2 fun c hc => isWordPart_asciiUpper (hparts c hc)⟩

/-- A styled name ends in a letter or a digit. -/
theorem endsInPart_apply (h : words name ≠ []) : EndsInPart (style.apply name).toList := by
  have hjoin : EndsInPart (style.join (words name)) :=
    endsInPart_join h fun w hw => isWord_of_mem_words hw
  rw [apply_of_words h, String.toList_ofList, guardDigit]
  split
  · exact hjoin.append ['_']
  · exact hjoin

theorem ne_empty_of_words (h : words name ≠ []) : name ≠ "" := by
  rintro rfl
  exact h (by simp [words, rawWords])

theorem apply_ne_empty (h : words name ≠ []) : style.apply name ≠ "" := by
  intro hempty
  obtain ⟨c, hc, -⟩ := (endsInPart_apply h : EndsInPart (style.apply name).toList)
  rw [hempty] at hc
  cases hc

/-- A styled name means nothing but itself where it is put in. -/
theorem backslash_not_mem_apply (h : style.apply name ≠ name) :
    '\\' ∉ (style.apply name).toList := by
  intro hslash
  have hstyled := (apply_eq_or_isStyled style name).resolve_left h _ hslash
  exact absurd hstyled (by decide)

/-- Nothing but letters and digits tells a text from a longer one that ends in one of them. -/
theorem eq_of_prefix (h : cs <+: ds) (hl : letters cs = letters ds) (hends : EndsInPart ds) :
    cs = ds := by
  obtain ⟨rest, rfl⟩ := h
  obtain ⟨c, hc, hpart⟩ := hends
  rw [letters_append, List.self_eq_append_right] at hl
  cases hrest : rest.getLast? with
  | none => rw [List.getLast?_eq_none_iff.1 hrest, List.append_nil]
  | some d =>
    obtain rfl : d = c := by simpa [hrest] using hc
    have hmem : d ∈ rest.filter isWordPart :=
      List.mem_filter.2 ⟨List.mem_of_getLast? hrest, hpart⟩
    rw [List.map_eq_nil_iff.1 hl] at hmem
    exact absurd hmem List.not_mem_nil

end CaseStyle

namespace Fix

open Naming (words letters)

section Texts

variable {old new line front back : List Char}

/-- Two texts that are shifted by the same characters start alike. -/
theorem prefix_of_shifted {α : Type} {p u x y : List α} (hp : p ≠ []) (hx : x ++ u = p ++ x)
    (hy : y ++ u = p ++ y) : x <+: y ∨ y <+: x := by
  have hperiod {z : List α} (hz : z ++ u = p ++ z) (n : Nat) :
      z <+: (List.replicate n p).flatten ++ z := by
    induction n with
    | zero => exact List.prefix_rfl
    | succ n ih =>
      rw [List.replicate_succ, List.flatten_cons, List.append_assoc]
      have hfirst : z <+: p ++ z := ⟨u, hz⟩
      exact hfirst.trans ((List.prefix_append_right_inj p).2 ih)
  have hlong (n : Nat) : n ≤ ((List.replicate n p).flatten).length := by
    have := List.length_pos_iff.2 hp
    simp
    exact Nat.le_mul_of_pos_right n this
  have hstart {z : List α} (hz : z ++ u = p ++ z) (hn : z.length ≤ x.length + y.length) :
      z <+: (List.replicate (x.length + y.length) p).flatten :=
    List.prefix_of_prefix_length_le (hperiod hz _) (List.prefix_append _ _)
      (hn.trans (hlong _))
  exact List.prefix_or_prefix_of_prefix (hstart hx (by omega)) (hstart hy (by omega))

/-- A name stands for itself in a line: no character of a name is next to it. What comes before the
line ends in `before`. -/
structure StandsIn (before : Option Char) (old line front back : List Char) : Prop where
  split : line = front ++ old ++ back
  front_ends : (front.getLast?.or before).any Replacement.isNameChar = false
  back_starts : back.head?.any Replacement.isNameChar = false

/-- The name stands for itself nowhere before this place. -/
def FirstIn (before : Option Char) (old line front : List Char) : Prop :=
  ∀ f b, StandsIn before old line f b → front.length ≤ f.length

theorem standsIn_cons_iff {before : Option Char} {c : Char} {cs : List Char} :
    StandsIn before old (c :: cs) (c :: front) back ↔ StandsIn (some c) old cs front back := by
  have hlast : (c :: front).getLast?.or before = front.getLast?.or (some c) := by
    rw [List.getLast?_cons]
    cases front.getLast? <;> rfl
  constructor
  · rintro ⟨hsplit, hfront, hback⟩
    exact ⟨List.cons_injective hsplit, hlast ▸ hfront, hback⟩
  · rintro ⟨hsplit, hfront, hback⟩
    exact ⟨congrArg (c :: ·) hsplit, hlast.symm ▸ hfront, hback⟩

/-- A name that stands for itself is replaced at the first place where it does. -/
theorem exists_replaceFirst {before : Option Char} (new : List Char) (hne : old ≠ [])
    (h : StandsIn before old line front back) :
    ∃ f b, StandsIn before old line f b ∧ FirstIn before old line f ∧
      Replacement.replaceFirst old new before line = f ++ new ++ b := by
  induction line generalizing before front with
  | nil => exact absurd h.split.symm (by simp [hne])
  | cons c cs ih =>
    rw [Replacement.replaceFirst]
    split
    · rename_i hhere
      simp only [Bool.and_eq_true, Bool.not_eq_true', List.isPrefixOf_iff_prefix] at hhere
      obtain ⟨⟨hbefore, rest, hrest⟩, hback⟩ := hhere
      rw [← hrest, List.drop_left] at hback ⊢
      exact ⟨[], rest, ⟨rfl, hbefore, hback⟩, fun f b _ => Nat.zero_le _, rfl⟩
    · rename_i hhere
      have htail {f b : List Char} (h : StandsIn before old (c :: cs) f b) :
          ∃ g, f = c :: g ∧ StandsIn (some c) old cs g b := by
        cases f with
        | nil =>
          refine absurd ?_ hhere
          have hfront : before.any Replacement.isNameChar = false := h.front_ends
          simp [h.split, hfront, h.back_starts]
        | cons d g =>
          obtain rfl : c = d := (List.cons.inj h.split).1
          exact ⟨g, rfl, standsIn_cons_iff.1 h⟩
      obtain ⟨rest, rfl, hrest⟩ := htail h
      obtain ⟨f, b, hstands, hfirst, hreplaced⟩ := ih hrest
      refine ⟨c :: f, b, standsIn_cons_iff.2 hstands, fun f' b' h' => ?_, by rw [hreplaced]; rfl⟩
      obtain ⟨g, rfl, hg⟩ := htail h'
      exact Nat.succ_le_succ (hfirst g b' hg)

/-- A name that is replaced at one of two places gives another line at each, if the new name is an
other one with the same letters and ends in one. -/
theorem length_le_of_replaced {f b : List Char} (hne : old ≠ []) (hother : old ≠ new)
    (hletters : letters old = letters new) (hends : CaseStyle.EndsInPart new)
    (hold : front ++ old ++ back = f ++ old ++ b) (hnew : front ++ new ++ back = f ++ new ++ b) :
    front.length ≤ f.length := by
  refine Nat.not_lt.1 fun hlt => ?_
  obtain ⟨p, rfl⟩ : f <+: front := by
    have hearlier : f <+: front ++ old ++ back := ⟨old ++ b, by rw [hold, List.append_assoc]⟩
    have hlater : front <+: front ++ old ++ back := ⟨old ++ back, by rw [List.append_assoc]⟩
    exact List.prefix_of_prefix_length_le hearlier hlater hlt.le
  have hp : p ≠ [] := by
    rintro rfl
    simp at hlt
  simp only [List.append_assoc, List.append_cancel_left_eq] at hold hnew
  obtain ⟨u, rfl⟩ : back <:+ b := by
    have hlength := congrArg List.length hold
    simp only [List.length_append] at hlength
    have hshorter : back <:+ old ++ b := ⟨p ++ old, by rw [← hold]; simp⟩
    exact List.suffix_of_suffix_length_le hshorter (List.suffix_append old b) (by omega)
  have hshift {z : List Char} (h : p ++ (z ++ back) = z ++ (u ++ back)) : z ++ u = p ++ z := by
    rw [← List.append_assoc, ← List.append_assoc] at h
    exact (List.append_cancel_right h).symm
  have hu : u ≠ [] := by
    rintro rfl
    have := hshift hold
    simp at this
    exact hp this
  -- Both names end as `u` does.
  have hlast : old.getLast? = new.getLast? := by
    have hend {z : List Char} (hz : z ≠ []) (h : z ++ u = p ++ z) : z.getLast? = u.getLast? := by
      have := congrArg List.getLast? h
      rw [List.getLast?_append_of_ne_nil _ hu, List.getLast?_append_of_ne_nil _ hz] at this
      exact this.symm
    have hnew' : new ≠ [] := by
      rintro rfl
      obtain ⟨c, hc, -⟩ := hends
      cases hc
    rw [hend hne (hshift hold), hend hnew' (hshift hnew)]
  have hends' : CaseStyle.EndsInPart old := by rwa [CaseStyle.EndsInPart, hlast]
  rcases prefix_of_shifted hp (hshift hold) (hshift hnew) with h | h
  · exact hother (CaseStyle.eq_of_prefix h hletters hends)
  · exact hother (CaseStyle.eq_of_prefix h hletters.symm hends').symm

end Texts

section Offers

variable {file : String} {lines : List String} {line name : String} {i : Issue} {l : Location}
  {front back : List Char}

/-- A location points at a name that stands for itself in a line of a file. -/
structure PointsAt (lines : List String) (l : Location) (name line : String)
    (front back : List Char) : Prop where
  positive : 1 ≤ l.startLine
  held : lines[(l.startLine - 1).toNat]? = some line
  column : l.startColumn = Syntax.byteLength front + 1
  stands : StandsIn none name.toList line.toList front back

theorem PointsAt.lineOf?_eq (h : PointsAt lines l name line front back)
    (hi : i.location = some l) : lineOf? lines i = some (l.startLine, line) := by
  simp only [lineOf?, Issue.line, hi, Option.map_some, Option.bind_eq_bind, Option.bind_some, guard,
    h.positive, if_true, h.held, Option.pure_def]

/-- The edit for an issue that offers a name: the first place where the old one stands for itself is
changed. -/
theorem exists_renameEdit_of_offer {old new : String} (conventions : Conventions) (file : String)
    (hold : i.metadata.get? "exportName" = some (.str old))
    (hnew : i.metadata.get? "suggestedName" = some (.str new)) (hother : new ≠ old)
    (hnone : old ≠ "" ∧ new ≠ "") (hplain : '\\' ∉ new.toList) (hi : i.location = some l)
    (h : PointsAt lines l old line front back) :
    ∃ edit f b, renameEdit conventions file lines i = .ok (some edit) ∧ edit.kind = .rename ∧
      edit.line = some l.startLine ∧ edit.expected = some line ∧
      StandsIn none old.toList line.toList f b ∧ FirstIn none old.toList line.toList f ∧
      edit.text = String.ofList (f ++ new.toList ++ b) := by
  obtain ⟨f, b, hstands, hfirst, hreplaced⟩ :=
    exists_replaceFirst new.toList (by simpa using hnone.1) h.stands
  have hgiven : given? i "exportName" = some (.str old) := by
    simp [given?, hold, Json.isTruthy, hnone.1]
  have hname : newName conventions i (.str old) = .ok (.str new) := by
    have hgiven : given? i "suggestedName" = some (.str new) := by
      simp [given?, hnew, Json.isTruthy, hnone.2]
    rw [newName, hgiven]
  have hreplaced' : String.ofList (Replacement.replaceFirst old.toList new.toList none line.toList) ≠
      line := by
    intro hsame
    have hlist := congrArg String.toList hsame
    rw [String.toList_ofList, hreplaced, hstands.split] at hlist
    exact hother (String.toList_inj.1 (List.append_cancel_left (List.append_cancel_right hlist)))
  have hequal : ¬(Json.str new).equal (.str old) = true := by simpa [Json.equal] using hother
  rw [renameEdit, h.lineOf?_eq hi, hgiven]
  simp only [hname, bind, Except.bind, if_neg hequal, Replacement.expand_eq hplain,
    if_neg hreplaced']
  exact ⟨_, f, b, rfl, rfl, rfl, rfl, hstands, hfirst, by rw [hreplaced]⟩

/-- Let a name be offered for an export whose location points at its name, which stands for itself
there. The issue leads to an edit of that line, and the edit changes the first place of the line
where the name stands for itself. So it changes the place that the location points at, and leaves the
rest of the line alone, exactly if there is no such place before it. -/
theorem renamed_in_place_iff {c : Rule.Context} {e : Export} {x : Finding}
    (hx : Rule.namingFinding c file e = .ok (some x)) (hfix : x.autoFixable = true)
    (h : PointsAt lines e.location e.name line front back) (conventions : Conventions)
    (id : String) :
    ∃ new edit, x.metadata.get? "suggestedName" = some (.str new) ∧ new ≠ e.name ∧
      edit? conventions file lines ⟨x, id⟩ = .ok (some edit) ∧ edit.kind = .rename ∧
      edit.line = some e.location.startLine ∧ edit.expected = some line ∧
      (∃ f b, StandsIn none e.name.toList line.toList f b ∧
        FirstIn none e.name.toList line.toList f ∧
        edit.text = String.ofList (f ++ new.toList ++ b)) ∧
      (edit.text = String.ofList (front ++ new.toList ++ back) ↔
        FirstIn none e.name.toList line.toList front) := by
  obtain ⟨pattern, -, htold⟩ := Rule.namingFinding_spec hx
  have hsuggested := htold.suggested hfix
  have hother : Rule.styledName c e ≠ e.name := (htold.offered_iff.1 hfix).1
  have hwords : words e.name ≠ [] := CaseStyle.words_ne_nil_of_apply_ne hother
  have hends : CaseStyle.EndsInPart (Rule.styledName c e).toList :=
    CaseStyle.endsInPart_apply hwords
  have hletters : letters e.name.toList = letters (Rule.styledName c e).toList :=
    (CaseStyle.letters_apply _ e.name).symm
  have hnone : e.name ≠ "" ∧ Rule.styledName c e ≠ "" :=
    ⟨CaseStyle.ne_empty_of_words hwords, CaseStyle.apply_ne_empty hwords⟩
  have hplain : '\\' ∉ (Rule.styledName c e).toList := CaseStyle.backslash_not_mem_apply hother
  obtain ⟨edit, f, b, hedit, hrename, hline, hexpected, hstands, hfirst, htext⟩ :=
    exists_renameEdit_of_offer (i := ⟨x, id⟩) conventions file htold.name hsuggested hother
      hnone hplain htold.on.location h
  refine ⟨_, edit, hsuggested, hother, ?_, hrename, hline, hexpected,
    ⟨f, b, hstands, hfirst, htext⟩, ?_⟩
  · simpa only [edit?, htold.kind, Category.ofIssue?] using hedit
  · rw [htext, String.ofList_inj]
    have hold : front ++ e.name.toList ++ back = f ++ e.name.toList ++ b :=
      h.stands.split.symm.trans hstands.split
    constructor
    · intro hsame f' b' h'
      have hle := length_le_of_replaced (by simpa using hnone.1)
        (fun heq => hother (String.toList_inj.1 heq.symm)) hletters hends hold hsame.symm
      exact hle.trans (hfirst f' b' h')
    · intro hfirst'
      have hlength : front.length = f.length :=
        Nat.le_antisymm (hfirst' f b hstands) (hfirst front back h.stands)
      rw [List.append_assoc, List.append_assoc] at hold
      obtain ⟨rfl, hrest⟩ := List.append_inj hold hlength
      rw [List.append_cancel_left hrest]

/-- A constant on a line that names it in a comment before its declaration. -/
def commentedLine : String := "/* bad_name */ export const bad_name = 1;"

def commentedExport : Export where
  file := "a.ts"
  name := "bad_name"
  form := .named
  location := ⟨"a.ts", 1, 29, 1, 42⟩

/-- The name is changed in the comment, and the declaration keeps it. -/
theorem commented_name_renamed :
    ∃ x edit front back,
      Rule.namingFinding Rule.namingContext "a.ts" commentedExport = .ok (some x) ∧
      x.autoFixable = true ∧
      PointsAt [commentedLine] commentedExport.location "bad_name" commentedLine front back ∧
      x.metadata.get? "suggestedName" = some (.str "badName") ∧
      edit? .standard "a.ts" [commentedLine] ⟨x, "EXP-0001"⟩ = .ok (some edit) ∧
      edit.text ≠ String.ofList (front ++ "badName".toList ++ back) := by
  have hreported : (Rule.namingFinding Rule.namingContext "a.ts" commentedExport).toOption.any
      (·.any (·.autoFixable)) = true := by decide +kernel
  obtain ⟨reported, hx, hsome⟩ := toOption_any_iff.1 hreported
  obtain ⟨x, rfl, hfix⟩ := (Option.any_eq_true ..).1 hsome
  have hpoints : PointsAt [commentedLine] commentedExport.location "bad_name" commentedLine
      "/* bad_name */ export const ".toList " = 1;".toList :=
    ⟨by decide, rfl, by decide, by decide, by decide, by decide⟩
  have hcomment : StandsIn none "bad_name".toList commentedLine.toList "/* ".toList
      " */ export const bad_name = 1;".toList := ⟨by decide, by decide, by decide⟩
  obtain ⟨new, edit, hnew, -, hedit, -, -, -, -, hplace⟩ :=
    renamed_in_place_iff hx hfix hpoints .standard "EXP-0001"
  have hstyled : new = "badName" := by
    obtain ⟨_, -, htold⟩ := Rule.namingFinding_spec hx
    have hbad : Rule.styledName Rule.namingContext commentedExport = "badName" := by decide +kernel
    rw [htold.suggested hfix, hbad] at hnew
    cases hnew
    rfl
  subst hstyled
  refine ⟨x, edit, _, _, hx, hfix, hpoints, hnew, hedit, fun hsame => ?_⟩
  have hle := hplace.1 hsame _ _ hcomment
  exact absurd hle (by decide)

end Offers

end Fix

end ExportLint
