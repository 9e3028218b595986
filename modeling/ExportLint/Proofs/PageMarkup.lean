import ExportLint.Proofs.CharacterReferences
import ExportLint.Report.Delivery
import Mathlib.Data.List.Forall2

/-!
# Markup of pages

The tags of a page are read off its characters. Two pages with the same groups, severities and
sections have the same markup and the same tags, whatever their texts say, and every text stands on
its page in escaped form.
-/
namespace ExportLint.Report.Html

/-- The tags in a text, without their marks. Within a tag, what was read of it comes in reverse. -/
def tagsFrom : Option (List Char) → List Char → List (List Char)
  | _, [] => []
  | none, c :: cs => if c = '<' then tagsFrom (some []) cs else tagsFrom none cs
  | some tag, c :: cs => if c = '>' then tag.reverse :: tagsFrom none cs
    else tagsFrom (some (c :: tag)) cs

def tags (page : String) : List (List Char) := tagsFrom none page.toList

section Tags

variable {a b a' b' : List Char} {ts us : List (List Char)} {l m : Line}

/-- A stretch of a page that stands outside of tags, with the tags that it holds. -/
def Shows (a : List Char) (ts : List (List Char)) : Prop :=
  ∀ rest, tagsFrom none (a ++ rest) = ts ++ tagsFrom none rest

theorem Shows.append (ha : Shows a ts) (hb : Shows b us) : Shows (a ++ b) (ts ++ us) := by
  intro rest
  rw [List.append_assoc, ha, hb, List.append_assoc]

theorem Shows.tags_eq (h : Shows a ts) : tagsFrom none a = ts := by
  have hall := h []
  rwa [List.append_nil, tagsFrom, List.append_nil] at hall

/-- What holds no mark of a tag shows none. -/
theorem shows_of_no_angle (h : ∀ c ∈ a, isAngle c = false) : Shows a [] := by
  intro rest
  induction a with
  | nil => rfl
  | cons c cs ih =>
    obtain ⟨hc, hcs⟩ := List.forall_mem_cons.1 h
    have hne : c ≠ '<' := by
      rintro rfl
      cases hc
    rw [List.cons_append, tagsFrom, if_neg hne, ih hcs]

/-- Reading ends outside of tags. -/
def endsOutside : Bool → List Char → Bool
  | inside, [] => !inside
  | false, c :: cs => endsOutside (c == '<') cs
  | true, c :: cs => endsOutside (c != '>') cs

theorem tagsFrom_append (tag : Option (List Char)) (h : endsOutside tag.isSome a = true)
    (rest : List Char) : tagsFrom tag (a ++ rest) = tagsFrom tag a ++ tagsFrom none rest := by
  induction a generalizing tag with
  | nil =>
    cases tag with
    | none => rfl
    | some read => cases h
  | cons c cs ih =>
    cases tag with
    | none =>
      by_cases hc : c = '<'
      · subst hc
        simpa [tagsFrom] using ih (some []) h
      · have hrest : endsOutside (c == '<') cs = true := h
        rw [beq_false_of_ne hc] at hrest
        simpa [tagsFrom, hc] using ih none hrest
    | some read =>
      by_cases hc : c = '>'
      · subst hc
        simpa [tagsFrom] using ih none h
      · have hrest : endsOutside (c != '>') cs = true := h
        rw [bne_iff_ne.2 hc] at hrest
        simpa [tagsFrom, hc] using ih (some (c :: read)) hrest

theorem shows_of_endsOutside (h : endsOutside false a = true) : Shows a (tagsFrom none a) :=
  fun rest => tagsFrom_append none h rest

/-- Two stretches with the same tags. -/
def SameTags (a b : List Char) : Prop := ∃ ts, Shows a ts ∧ Shows b ts

theorem SameTags.append (ha : SameTags a a') (hb : SameTags b b') :
    SameTags (a ++ b) (a' ++ b') := by
  obtain ⟨ts, h₁, h₂⟩ := ha
  obtain ⟨us, h₃, h₄⟩ := hb
  exact ⟨ts ++ us, h₁.append h₃, h₂.append h₄⟩

theorem SameTags.tags_eq (h : SameTags a b) : tagsFrom none a = tagsFrom none b := by
  obtain ⟨ts, ha, hb⟩ := h
  rw [ha.tags_eq, hb.tags_eq]

theorem sameTags_self (h : endsOutside false a = true) : SameTags a a :=
  ⟨_, shows_of_endsOutside h, shows_of_endsOutside h⟩

theorem sameTags_escape (s t : String) : SameTags (escape s).toList (escape t).toList :=
  ⟨[], shows_of_no_angle fun _ hc => isAngle_of_mem_escape hc,
    shows_of_no_angle fun _ hc => isAngle_of_mem_escape hc⟩

/-- Texts joined by a separator have the tags of their parts. -/
theorem sameTags_intercalate {sep : List Char} (hsep : endsOutside false sep = true)
    {as bs : List (List Char)} (h : List.Forall₂ SameTags as bs) :
    SameTags (sep.intercalate as) (sep.intercalate bs) := by
  induction h with
  | nil => exact sameTags_self rfl
  | cons hab hrest ih =>
    cases hrest with
    | nil => simpa using hab
    | cons hab' hrest =>
      rw [List.intercalate_cons_cons, List.intercalate_cons_cons]
      exact (hab.append (sameTags_self hsep)).append ih

end Tags

section Lines

variable {l m : Line}

def Piece.markup? : Piece → Option String
  | .markup s => some s
  | .text _ => none

theorem toList_renderLine (l : Line) :
    (renderLine l).toList = l.flatMap fun p => p.render.toList := by
  rw [renderLine, String.toList_join, List.flatMap_map]

/-- Lines with the same markup and the same tags. -/
def AlikeLines (l m : Line) : Prop :=
  l.filterMap Piece.markup? = m.filterMap Piece.markup? ∧
    SameTags (renderLine l).toList (renderLine m).toList

/-- Pieces that agree up to texts. Markup leaves no tag open. -/
def AlikePieces : Piece → Piece → Prop
  | .markup s, .markup t => s = t ∧ endsOutside false s.toList = true
  | .text _, .text _ => True
  | _, _ => False

theorem alikeLines_of_forall₂ (h : List.Forall₂ AlikePieces l m) : AlikeLines l m := by
  rw [AlikeLines, toList_renderLine, toList_renderLine]
  induction h with
  | nil => exact ⟨rfl, sameTags_self rfl⟩
  | @cons p q l m hpq hrest ih =>
    obtain ⟨hmarkup, htags⟩ := ih
    cases p with
    | markup s =>
      cases q with
      | markup t =>
        obtain ⟨rfl, hs⟩ := hpq
        exact ⟨congrArg (s :: ·) hmarkup, (sameTags_self hs).append htags⟩
      | text t => exact hpq.elim
    | text s =>
      cases q with
      | markup t => exact hpq.elim
      | text t =>
        exact ⟨hmarkup, (sameTags_escape s t).append htags⟩

theorem alikeLines_markup {s : String} (h : endsOutside false s.toList = true) :
    AlikeLines (markup s) (markup s) :=
  alikeLines_of_forall₂ (.cons ⟨rfl, h⟩ .nil)

theorem alikeLines_wrapped {before after : String} (s t : String)
    (hbefore : endsOutside false before.toList = true)
    (hafter : endsOutside false after.toList = true) :
    AlikeLines (wrapped before s after) (wrapped before t after) :=
  alikeLines_of_forall₂ (.cons ⟨rfl, hbefore⟩ (.cons trivial (.cons ⟨rfl, hafter⟩ .nil)))

end Lines

section Pages

variable {c d : Content}

/-- Issues that are shown in the same form: under one severity, and both with a suggestion or
none. -/
def AlikeIssues (c d : Content) (i j : Issue) : Prop :=
  i.severity = j.severity ∧ (c.suggestion? i).isSome = (d.suggestion? j).isSome

/-- Contents that differ in their texts and numbers only: they have the same sections, and in these
the same groups of issues that are shown in the same form. -/
structure Alike (c d : Content) : Prop where
  statistics : c.options.statistics = d.options.statistics
  details : c.options.details = d.options.details
  fix : c.fix.map (fun b => (givenName b.backupDirectory).isSome) =
    d.fix.map (fun b => (givenName b.backupDirectory).isSome)
  groups : List.Forall₂ (fun g h => List.Forall₂ (AlikeIssues c d) g.2 h.2) c.groups d.groups

abbrev AlikeParts (ls ms : List Line) : Prop := List.Forall₂ AlikeLines ls ms

theorem AlikeParts.append {ls ms ls' ms' : List Line} (h : AlikeParts ls ms)
    (h' : AlikeParts ls' ms') : AlikeParts (ls ++ ls') (ms ++ ms') := List.rel_append h h'

/-- Lines of markup alone. -/
theorem alikeParts_markup {ss : List String} (h : ∀ s ∈ ss, endsOutside false s.toList = true) :
    AlikeParts (ss.map markup) (ss.map markup) := by
  induction ss with
  | nil => exact .nil
  | cons s ss ih =>
    obtain ⟨hs, hss⟩ := List.forall_mem_cons.1 h
    exact .cons (alikeLines_markup hs) (ih hss)

theorem alikeParts_head (c d : Content) : AlikeParts (head c) (head d) := by
  refine AlikeParts.append (AlikeParts.append (AlikeParts.append (AlikeParts.append
    (alikeParts_markup (by decide)) ?_) (alikeParts_markup (by decide +kernel)))
    (alikeParts_markup (by decide))) ?_
  · exact .cons (alikeLines_wrapped _ _ rfl rfl) .nil
  · exact .cons (alikeLines_wrapped _ _ rfl rfl) (.cons (alikeLines_wrapped _ _ rfl rfl) .nil)

theorem alikeLines_card (label value label' value' : String) :
    AlikeLines (card label value) (card label' value') :=
  alikeLines_of_forall₂ (.cons ⟨rfl, rfl⟩ (.cons trivial (.cons ⟨rfl, rfl⟩
    (.cons trivial (.cons ⟨rfl, rfl⟩ .nil)))))

theorem alikeParts_statistics (s t : Statistics) : AlikeParts (statistics s) (statistics t) := by
  refine AlikeParts.append (AlikeParts.append ?_ ?_) (.cons (alikeLines_markup rfl) .nil)
  · exact .cons (alikeLines_markup rfl) (.cons (alikeLines_card _ _ _ _)
      (.cons (alikeLines_card _ _ _ _) (.cons (alikeLines_card _ _ _ _)
        (.cons (alikeLines_card _ _ _ _) .nil))))
  · exact List.forall₂_map_left_iff.2 (List.forall₂_map_right_iff.2
      (List.forall₂_same.2 fun _ _ => alikeLines_card _ _ _ _))

/-- Parts that are there on both sides or on none. -/
theorem alikeParts_option {f g : String → Line} (hfg : ∀ s t, AlikeLines (f s) (g t))
    {s t : Option String} (h : s.isSome = t.isSome) :
    AlikeParts (s.toList.map f) (t.toList.map g) := by
  cases s with
  | none =>
    cases t with
    | none => exact .nil
    | some t => cases h
  | some s =>
    cases t with
    | none => cases h
    | some t => exact .cons (hfg s t) .nil

theorem alikeParts_fixes {a b : Fix.Batch}
    (h : (givenName a.backupDirectory).isSome = (givenName b.backupDirectory).isSome) :
    AlikeParts (fixes a) (fixes b) := by
  refine AlikeParts.append (AlikeParts.append ?_
    (alikeParts_option (fun s t => alikeLines_wrapped s t rfl rfl) h))
    (.cons (alikeLines_markup rfl) .nil)
  refine .cons (alikeLines_markup rfl) (.cons (alikeLines_markup rfl) (.cons ?_ .nil))
  exact alikeLines_of_forall₂ (.cons ⟨rfl, rfl⟩ (.cons trivial (.cons ⟨rfl, rfl⟩
    (.cons trivial (.cons ⟨rfl, rfl⟩ (.cons trivial (.cons ⟨rfl, rfl⟩ .nil)))))))

/-- The severity is the one text that stands within a tag. -/
theorem alikeLines_severity {i j : Issue} (h : i.severity = j.severity) :
    AlikeLines [.markup "<div class=\"issue ", .text i.severityName, .markup "\">"]
      [.markup "<div class=\"issue ", .text j.severityName, .markup "\">"] := by
  rw [Issue.severityName, Issue.severityName, h]
  refine ⟨rfl, sameTags_self ?_⟩
  cases j.severity <;> decide +kernel

theorem alikeParts_issue {i j : Issue} (h : AlikeIssues c d i j) :
    AlikeParts (issue c i) (issue d j) := by
  refine AlikeParts.append (AlikeParts.append ?_
    (alikeParts_option (fun s t => alikeLines_wrapped s t rfl rfl) h.2))
    (.cons (alikeLines_markup rfl) .nil)
  refine .cons (alikeLines_severity h.1) (.cons ?_ .nil)
  exact alikeLines_of_forall₂ (.cons ⟨rfl, rfl⟩ (.cons trivial (.cons ⟨rfl, rfl⟩
    (.cons trivial (.cons ⟨rfl, rfl⟩ (.cons trivial .nil))))))

theorem alikeParts_group (key key' : String) {is js : List Issue}
    (h : List.Forall₂ (AlikeIssues c d) is js) : AlikeParts (group c key is) (group d key' js) := by
  refine AlikeParts.append (AlikeParts.append ?_
    (List.rel_flatMap h fun _ _ => alikeParts_issue)) (.cons (alikeLines_markup rfl) .nil)
  refine .cons (alikeLines_markup rfl) (.cons ?_ .nil)
  exact alikeLines_of_forall₂ (.cons ⟨rfl, rfl⟩ (.cons trivial (.cons ⟨rfl, rfl⟩
    (.cons trivial (.cons ⟨rfl, rfl⟩ .nil)))))

theorem Alike.issues (h : Alike c d) : AlikeParts (issues c) (issues d) := by
  have hempty : c.groups.isEmpty = d.groups.isEmpty := by
    rw [Bool.eq_iff_iff, List.isEmpty_iff_length_eq_zero, List.isEmpty_iff_length_eq_zero,
      h.groups.length_eq]
  rw [Html.issues, Html.issues, hempty]
  refine .cons (alikeLines_markup rfl) (AlikeParts.append ?_ ?_)
  · split
    · exact .cons (alikeLines_markup rfl) .nil
    · exact .nil
  · exact List.rel_flatMap h.groups fun g g' hg => alikeParts_group g.1 g'.1 hg

theorem Alike.page (h : Alike c d) : AlikeParts (page c) (page d) := by
  rw [Html.page, Html.page, h.statistics, h.details]
  refine AlikeParts.append (AlikeParts.append (AlikeParts.append (AlikeParts.append
    (alikeParts_head c d) ?_) ?_) ?_)
    (.cons (alikeLines_markup rfl) (.cons (alikeLines_markup rfl) .nil))
  · split
    · exact alikeParts_statistics _ _
    · exact .nil
  · have hfix := h.fix
    cases hc : c.fix with
    | none =>
      cases hd : d.fix with
      | none => exact .nil
      | some b =>
        rw [hc, hd] at hfix
        cases hfix
    | some a =>
      cases hd : d.fix with
      | none =>
        rw [hc, hd] at hfix
        cases hfix
      | some b =>
        rw [hc, hd] at hfix
        exact alikeParts_fixes (Option.some.inj hfix)
  · split
    · exact h.issues
    · exact .nil

/-- The markup of a page, without its texts. -/
def markups (c : Content) : List String := (page c).flatten.filterMap Piece.markup?

theorem toList_render (c : Content) :
    (render c).toList = ['\n'].intercalate ((page c).map fun l => (renderLine l).toList) := by
  rw [render, Text.unlines, String.toList_intercalate, List.map_map]
  rfl

theorem AlikeParts.markups_eq {ls ms : List Line} (h : AlikeParts ls ms) :
    ls.flatten.filterMap Piece.markup? = ms.flatten.filterMap Piece.markup? := by
  induction h with
  | nil => rfl
  | cons hl _ ih =>
    rw [List.flatten_cons, List.flatten_cons, List.filterMap_append, List.filterMap_append, hl.1,
      ih]

theorem Alike.tags_eq (h : Alike c d) : tags (render c) = tags (render d) := by
  rw [tags, tags, toList_render, toList_render]
  refine (sameTags_intercalate rfl ?_).tags_eq
  exact List.forall₂_map_left_iff.2 (List.forall₂_map_right_iff.2 (h.page.imp fun _ _ hl => hl.2))

end Pages

section Texts

variable {c : Content} {l : Line} {p : Piece} {t : String}

/-- The texts that a content has in the sections that are shown. -/
def texts (c : Content) : List String :=
  [c.projectName, c.time] ++ (c.fix.bind fun b => givenName b.backupDirectory).toList ++
    if c.options.details then c.groups.flatMap fun (key, is) =>
      key :: is.flatMap fun i => [i.file, i.message] ++ (c.suggestion? i).toList
    else []

/-- A text stands in a page in escaped form. -/
def Displays (c : Content) (t : String) : Prop :=
  ∃ before after, render c = before ++ escape t ++ after

theorem exists_split_of_mem {α : Type} (sep : List α) {x : List α} {xs : List (List α)}
    (h : x ∈ xs) : ∃ before after, sep.intercalate xs = before ++ x ++ after := by
  induction xs with
  | nil => cases h
  | cons y ys ih =>
    cases ys with
    | nil => exact ⟨[], [], by simp [List.mem_singleton.1 h]⟩
    | cons z zs =>
      rw [List.intercalate_cons_cons]
      rcases List.mem_cons.1 h with rfl | h
      · exact ⟨[], sep ++ sep.intercalate (z :: zs), by simp⟩
      · obtain ⟨before, after, he⟩ := ih h
        exact ⟨y ++ sep ++ before, after, by simp [he]⟩

theorem displays_of_mem (hl : l ∈ page c) (hp : .text t ∈ l) : Displays c t := by
  obtain ⟨b₁, a₁, h₁⟩ := exists_split_of_mem ['\n']
    (List.mem_map_of_mem (f := fun l => (renderLine l).toList) hl)
  obtain ⟨before, after, hsplit⟩ := List.append_of_mem hp
  refine ⟨String.ofList (b₁ ++ (renderLine before).toList),
    String.ofList ((renderLine after).toList ++ a₁), ?_⟩
  apply String.toList_inj.1
  rw [toList_render, h₁, hsplit]
  simp [toList_renderLine, Piece.render]

theorem Displays.of_append {s : String} (h : Displays c (s ++ t)) : Displays c s := by
  obtain ⟨before, after, he⟩ := h
  exact ⟨before, escape t ++ after, by simp [he, escape_append, String.append_assoc]⟩

/-- Every line of a part that is shown stands in the page. -/
theorem mem_page_of_fix {b : Fix.Batch} (hb : c.fix = some b) (hl : l ∈ fixes b) : l ∈ page c := by
  simp [page, hb, hl]

theorem mem_page_of_group {key : String} {is : List Issue} (hd : c.options.details = true)
    (hg : (key, is) ∈ c.groups) (hl : l ∈ group c key is) : l ∈ page c := by
  have hissues : l ∈ issues c :=
    List.mem_append_right _ (List.mem_flatMap.2 ⟨(key, is), hg, hl⟩)
  simp [page, hd, hissues]

theorem displays_of_mem_issue {i : Issue} {key : String} {is : List Issue}
    (hd : c.options.details = true) (hg : (key, is) ∈ c.groups) (hi : i ∈ is) (hl : l ∈ issue c i)
    (ht : .text t ∈ l) : Displays c t := by
  have hgroup : l ∈ group c key is := by
    simp only [group, List.mem_append, List.mem_flatMap]
    exact .inl (.inr ⟨i, hi, hl⟩)
  exact displays_of_mem (mem_page_of_group hd hg hgroup) ht

/-- Every text that is shown stands in the page. -/
theorem displays_of_mem_texts (ht : t ∈ texts c) : Displays c t := by
  simp only [texts, List.mem_append, List.mem_cons, List.not_mem_nil, or_false] at ht
  rcases ht with ((rfl | rfl) | ht) | ht
  · have htitle : wrapped "<title>Export Consistency Report - " c.projectName "</title>" ∈
        page c := by
      simp [page, head]
    exact displays_of_mem htitle (by simp [wrapped])
  · exact displays_of_mem (l := wrapped "Generated: " c.time "</p>") (by simp [page, head])
      (by simp [wrapped])
  · obtain ⟨b, hb, hdir⟩ := Option.bind_eq_some_iff.1 (Option.mem_toList.1 ht)
    refine displays_of_mem (mem_page_of_fix hb
      (l := wrapped "<p>Backup directory: <code>" t "</code></p>") ?_) (by simp [wrapped])
    simp [fixes, hdir]
  · split at ht
    · rename_i hd
      obtain ⟨⟨key, is⟩, hg, ht⟩ := List.mem_flatMap.1 ht
      rcases List.mem_cons.1 ht with rfl | ht
      · have htitle : [.markup "<h3>", .text t, .markup " (", .text (toString is.length),
            .markup ")</h3>"] ∈ group c t is := by
          simp [group]
        exact displays_of_mem (mem_page_of_group hd hg htitle) (by simp)
      · obtain ⟨i, hi, ht⟩ := List.mem_flatMap.1 ht
        have hline : [.markup "<strong>[", .text i.kindName, .markup "]</strong> <code>",
            .text (placeText i), .markup "</code> ", .text i.message] ∈ issue c i := by
          simp [issue]
        simp only [List.mem_append, List.mem_cons, List.not_mem_nil, or_false] at ht
        rcases ht with (rfl | rfl) | ht
        · exact (displays_of_mem_issue hd hg hi hline (t := placeText i) (by simp)).of_append
        · exact displays_of_mem_issue hd hg hi hline (by simp)
        · refine displays_of_mem_issue hd hg hi
            (l := wrapped "<div class=\"suggestion\">" t "</div>") ?_ (by simp [wrapped])
          simp [issue, Option.mem_toList.1 ht]
    · cases ht

theorem filter_isAngle_renderLine (l : Line) : (renderLine l).toList.filter isAngle =
    (l.filterMap Piece.markup?).flatMap fun s => s.toList.filter isAngle := by
  rw [toList_renderLine]
  induction l with
  | nil => rfl
  | cons p l ih =>
    rw [List.flatMap_cons, List.filter_append, ih]
    cases p with
    | markup s => rfl
    | text t =>
      have hnone : (escape t).toList.filter isAngle = [] :=
        List.filter_eq_nil_iff.2 fun d hd => by simp [isAngle_of_mem_escape hd]
      rw [Piece.render, hnone]
      rfl

theorem filter_intercalate {α : Type} {f : α → Bool} {sep : List α} (hsep : sep.filter f = [])
    (xs : List (List α)) : (sep.intercalate xs).filter f = xs.flatMap (·.filter f) := by
  induction xs with
  | nil => rfl
  | cons x xs ih =>
    cases xs with
    | nil => simp
    | cons y ys =>
      rw [List.intercalate_cons_cons, List.filter_append, List.filter_append, hsep, ih,
        List.append_nil]
      rfl

/-- The marks of tags in a page are those of its markup. -/
theorem filter_isAngle_render (c : Content) : (render c).toList.filter isAngle =
    (markups c).flatMap fun s => s.toList.filter isAngle := by
  rw [toList_render, filter_intercalate (by decide), List.flatMap_map, markups,
    List.filterMap_flatten, ← List.flatMap_def, List.flatMap_assoc]
  simp only [filter_isAngle_renderLine]

end Texts

/-- In a report as a page no text makes markup. Every mark of a tag is one of the markup; results
that differ in their texts and numbers only have the same markup and the same tags; and every text
stands in the page in escaped form, from which it is had back by resolving references. -/
theorem texts_make_no_markup {r₁ r₂ : Audit.Result} {f₁ f₂ : Option Fix.Batch} {o : Options}
    {refs : References} (ho : o.format = .html) (hrefs : refs.Standard) :
    (Report.render r₁ f₁ o).text.toList.filter isAngle =
        (markups (.of r₁ f₁ o)).flatMap (fun s => s.toList.filter isAngle) ∧
      (Alike (.of r₁ f₁ o) (.of r₂ f₂ o) →
        markups (.of r₁ f₁ o) = markups (.of r₂ f₂ o) ∧
          tags (Report.render r₁ f₁ o).text = tags (Report.render r₂ f₂ o).text) ∧
      ∀ t ∈ texts (.of r₁ f₁ o), refs.unescape (escape t).toList = t.toList ∧
        ∃ before after, (Report.render r₁ f₁ o).text = before ++ escape t ++ after := by
  have hpage (r : Audit.Result) (f : Option Fix.Batch) :
      (Report.render r f o).text = render (.of r f o) := by
    rw [Report.render, Content.render]
    have hformat : (Content.of r f o).options.format = .html := ho
    rw [hformat]
  rw [hpage, hpage]
  exact ⟨filter_isAngle_render _, fun h => ⟨h.page.markups_eq, h.tags_eq⟩,
    fun t ht => ⟨References.unescape_escape hrefs t, displays_of_mem_texts ht⟩⟩

/-- The names of the marks that a page cannot be written without. -/
def fewReferences : References where
  named name := ([("amp;", '&'), ("lt;", '<'), ("gt;", '>'), ("quot;", '"')].lookup
    (String.ofList name)).map ([·])
  numbered n := [Char.ofNat n]

theorem standard_fewReferences : fewReferences.Standard :=
  ⟨by decide, by decide, by decide, by decide, by decide⟩

/-- A result with a warning on one file and an error on another, both with some message. -/
def namedResult (project first second message : String) : Audit.Result where
  projectPath := "proj"
  projectName := project
  time := ⟨2024, 1, 2, 3, 4, 5, 0, some 0⟩
  issues := [⟨{ kind := .naming, severity := .warning, file := first, message := message,
                suggestion := some message }, "EXP-0001"⟩,
    ⟨{ kind := .cycle, severity := .error, file := second, message := message }, "EXP-0002"⟩]

/-- Each file of such a result makes a group of its own. -/
theorem groups_namedResult {project first second : String} (message : String) (f : Option Fix.Batch)
    (hle : first ≤ second) (hne : first ≠ second) :
    (Content.of (namedResult project first second message) f { format := .html }).groups =
      (namedResult project first second message).issues.map fun i => (i.file, [i]) := by
  have hsorted : (Content.of (namedResult project first second message) f
      { format := .html }).issues = (namedResult project first second message).issues := by
    refine List.mergeSort_of_pairwise ?_
    simp [namedResult, SortKey.le, hle]
  rw [Content.groups, hsorted]
  simp [Issue.groups, Issue.keys, namedResult, Content.of, GroupKey.of, List.eraseDups_cons, hne,
    hne.symm]

/-- A result whose texts look like markup has the tags of one whose texts do not. -/
theorem marked_result_has_tags_of_plain :
    tags (Report.render (namedResult "<b>" "<a>.ts" "b&lt;.ts" "</div>&amp;'\"")
        (some { backupDirectory := some "<i>" }) { format := .html }).text =
      tags (Report.render (namedResult "p" "a.ts" "b.ts" "m")
        (some { backupDirectory := some "d" }) { format := .html }).text := by
  have halike : Alike
      (.of (namedResult "<b>" "<a>.ts" "b&lt;.ts" "</div>&amp;'\"")
        (some { backupDirectory := some "<i>" }) { format := .html })
      (.of (namedResult "p" "a.ts" "b.ts" "m") (some { backupDirectory := some "d" })
        { format := .html }) := by
    refine ⟨rfl, rfl, by decide, ?_⟩
    rw [groups_namedResult _ _ (by decide) (by decide),
      groups_namedResult _ _ (by decide) (by decide)]
    exact .cons (.cons ⟨rfl, by decide⟩ .nil) (.cons (.cons ⟨rfl, by decide⟩ .nil) .nil)
  exact ((texts_make_no_markup rfl standard_fewReferences).2.1 halike).2

end ExportLint.Report.Html
