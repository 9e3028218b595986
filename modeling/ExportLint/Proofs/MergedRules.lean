import ExportLint.Proofs.MergedMembers

/-!
# Rules that are merged by their names

A list of rules keeps the standard rules in front, each under its name, whatever overrides are
merged into it; other rules come behind. So merging the list into the standard rules finds every
rule where it stands and gives the list itself.
-/
namespace ExportLint.Config

open Json (Members Plain)

variable {ns : List String} {rs os : List Json} {name s : String} {o r : Json}

/-- A rule with a name. -/
def HasName (s : String) (r : Json) : Prop :=
  ∃ ms : Members, r = .obj ms ∧ ms.get? "name" = some (.str s)

theorem HasName.ruleName_eq (h : HasName s r) : ruleName r = .ok (.str s) := by
  obtain ⟨ms, rfl, hname⟩ := h
  rw [ruleName, Json.get?, hname]
  rfl

theorem hasName_of_ruleName (h : ruleName o = .ok (.str s)) : HasName s o := by
  cases o with
  | obj ms =>
    refine ⟨ms, rfl, ?_⟩
    rw [ruleName, Json.get?] at h
    cases hget : Members.get? ms "name" with
    | none =>
      rw [hget] at h
      cases h
    | some v =>
      rw [hget] at h
      split at h
      · cases h
        rfl
      · cases h
  | _ => cases h

/-- The index of rules with names. -/
def indexOf (ns : List String) : List (Json × Nat) := (ns.map Json.str).zipIdx

theorem ruleIndex_eq (h : List.Forall₂ HasName ns rs) (k : Nat) :
    ruleIndex k rs = .ok ((ns.map Json.str).zipIdx k) := by
  induction h generalizing k with
  | nil => rfl
  | cons hr _ ih =>
    have hname := hr.ruleName_eq
    obtain ⟨ms, rfl, -⟩ := hr
    rw [ruleIndex, hname, ih]
    rfl

theorem equal_str {v : Json} : (Json.str s).equal v = true ↔ v = .str s := by
  cases v with
  | str t =>
    rw [Json.equal, beq_iff_eq, Json.str.injEq]
    exact eq_comm
  | _ => exact iff_of_false Bool.false_ne_true (by simp)

theorem positionOf?_indexOf {v : Json} {i : Nat} (h : positionOf? (indexOf ns) v = some i) :
    ∃ s, ns[i]? = some s ∧ v = .str s := by
  obtain ⟨x, hx, rfl⟩ := Option.map_eq_some_iff.1 h
  have hmem := List.mem_reverse.1 (List.mem_of_find?_eq_some hx)
  have hequal := List.find?_some hx
  rw [indexOf, List.mem_zipIdx_iff_getElem?, List.getElem?_map, Option.map_eq_some_iff] at hmem
  obtain ⟨s, hs, hx⟩ := hmem
  rw [← hx, equal_str] at hequal
  exact ⟨s, hs, hequal⟩

theorem positionOf?_indexOf_eq_none {v : Json} (h : positionOf? (indexOf ns) v = none) :
    ∀ n ∈ ns, v ≠ .str n := by
  rintro n hn rfl
  rw [positionOf?, Option.map_eq_none_iff, List.find?_eq_none] at h
  obtain ⟨i, hi⟩ := List.mem_iff_getElem?.1 hn
  have hmem : (Json.str n, i) ∈ indexOf ns := by
    rw [indexOf, List.mem_zipIdx_iff_getElem?, List.getElem?_map, hi]
    rfl
  exact h _ (List.mem_reverse.2 hmem) (equal_str.2 rfl)

/-- Where no name stands twice, each stands for its own place. -/
theorem positionOf?_indexOf_of_nodup (hn : ns.Nodup) {i : Nat} (hi : ns[i]? = some s) :
    positionOf? (indexOf ns) (.str s) = some i := by
  cases h : positionOf? (indexOf ns) (.str s) with
  | none => exact absurd rfl (positionOf?_indexOf_eq_none h s (List.mem_of_getElem? hi))
  | some j =>
    obtain ⟨s', hj, he⟩ := positionOf?_indexOf h
    cases he
    have hlt : i < ns.length := (List.getElem?_eq_some_iff.1 hi).1
    rw [(List.getElem?_inj hlt hn).1 (hi.trans hj.symm)]

/-- A rule that is none of those with a name. -/
def IsExtra (ns : List String) (o : Json) : Prop :=
  ∃ name, ruleName o = .ok name ∧ ∀ n ∈ ns, name ≠ .str n

/-- A list of rules begins with the standard ones. Those still to be merged into have the shape of
the standard ones. -/
structure ExtendsRules (ns : List String) (rs : List Json) (todo : List String) (os : List Json) :
    Prop where
  standard : ∀ (i : Nat) n r, ns[i]? = some n → rs[i]? = some r →
    ∃ o, os[i]? = some o ∧ HasName n o ∧ Absorbs "" r o ∧ (n ∈ todo → Shaped "" r o)
  extra : ∀ (i : Nat) o, rs.length ≤ i → os[i]? = some o → IsExtra ns o

theorem IsExtra.position (h : IsExtra ns o) :
    ∃ name, ruleName o = .ok name ∧ positionOf? (indexOf ns) name = none := by
  obtain ⟨name, hname, hextra⟩ := h
  refine ⟨name, hname, ?_⟩
  cases hpos : positionOf? (indexOf ns) name with
  | none => rfl
  | some i =>
    obtain ⟨s, hs, he⟩ := positionOf?_indexOf hpos
    exact absurd he (hextra s (List.mem_of_getElem? hs))

section Steps

variable {index : List (Json × Nat)} {rules : List Json} {name w : Json} {i : Nat}

theorem mergeRules_cons_none (hname : ruleName o = .ok name)
    (hpos : positionOf? index name = none) :
    mergeRules index rules (o :: os) = mergeRules index (rules ++ [o]) os := by
  rw [mergeRules, hname]
  simp only [bind, Except.bind, hpos]

theorem mergeRules_cons_some (hname : ruleName o = .ok name)
    (hpos : positionOf? index name = some i)
    (hmerge : mergeRule (rules[i]?.getD .null) o = .ok w) :
    mergeRules index rules (o :: os) = mergeRules index (rules.set i w) os := by
  rw [mergeRules, hname]
  simp only [bind, Except.bind, hpos, hmerge]

end Steps

section Absorbing

theorem mergeRule_of_absorbs {n : String} (hr : HasName s r) (ho : HasName n o)
    (h : Absorbs "" r o) : mergeRule r o = .ok o := by
  obtain ⟨base, rfl, -⟩ := hr
  obtain ⟨ms, rfl, -⟩ := ho
  rw [Absorbs, mergeValue] at h
  rw [mergeRule]
  exact h

theorem ExtendsRules.length_le {todo : List String} (hrs : List.Forall₂ HasName ns rs)
    (h : ExtendsRules ns rs todo os) : rs.length ≤ os.length := by
  by_contra hlt
  have hi : os.length < rs.length := Nat.lt_of_not_le hlt
  have hn : os.length < ns.length := by rwa [hrs.length_eq]
  obtain ⟨o, ho, -⟩ := h.standard os.length _ _ (List.getElem?_eq_getElem hn)
    (List.getElem?_eq_getElem hi)
  rw [List.getElem?_eq_none (Nat.le_refl _)] at ho
  cases ho

/-- The rules that are merged so far stand in front of the standard rules that are left. -/
theorem mergeRules_behind (hrs : List.Forall₂ HasName ns rs) (hn : ns.Nodup)
    (h : ExtendsRules ns rs [] os) (front rest : List Json) (hos : os = front ++ rest) :
    mergeRules (indexOf ns) (front ++ rs.drop front.length) rest = .ok os := by
  induction rest generalizing front with
  | nil =>
    have hlen := h.length_le hrs
    rw [hos, List.append_nil] at hlen ⊢
    rw [List.drop_eq_nil_of_le hlen, List.append_nil]
    rfl
  | cons o rest ih =>
    have ho : os[front.length]? = some o := by
      rw [hos, List.getElem?_append_right (Nat.le_refl _), Nat.sub_self]
      rfl
    have ih := ih (front ++ [o]) (by rw [hos, List.append_assoc, List.singleton_append])
    rw [List.length_append, List.length_singleton] at ih
    rcases Nat.lt_or_ge front.length rs.length with hlt | hge
    · -- A standard rule takes in the rule that stands in its place.
      have hn' : front.length < ns.length := by rwa [hrs.length_eq]
      obtain ⟨o', ho', hname, habsorbs, -⟩ := h.standard front.length _ _
        (List.getElem?_eq_getElem hn') (List.getElem?_eq_getElem hlt)
      rw [ho] at ho'
      cases ho'
      have hr := hrs.get hn' hlt
      have hplace : (front ++ rs.drop front.length)[front.length]? = some rs[front.length] := by
        rw [List.getElem?_append_right (Nat.le_refl _), Nat.sub_self, List.getElem?_drop]
        exact List.getElem?_eq_getElem hlt
      have hset : (front ++ rs.drop front.length).set front.length o =
          front ++ [o] ++ rs.drop (front.length + 1) := by
        rw [List.set_append_right _ _ (Nat.le_refl _), Nat.sub_self, List.drop_eq_getElem_cons hlt,
          List.set_cons_zero, List.append_assoc, List.singleton_append]
      have hmerge : mergeRule ((front ++ rs.drop front.length)[front.length]?.getD .null) o =
          .ok o := by
        rw [hplace]
        exact mergeRule_of_absorbs hr hname habsorbs
      rw [mergeRules_cons_some hname.ruleName_eq
        (positionOf?_indexOf_of_nodup hn (List.getElem?_eq_getElem hn')) hmerge, hset]
      exact ih
    · obtain ⟨name, hname, hnone⟩ := (h.extra front.length o hge ho).position
      rw [mergeRules_cons_none hname hnone, List.drop_eq_nil_of_le hge, List.append_nil]
      rwa [List.drop_eq_nil_of_le (by omega), List.append_nil] at ih

/-- Rules that extend the standard ones are absorbed by them. -/
theorem mergeRules_eq_self (hrs : List.Forall₂ HasName ns rs) (hn : ns.Nodup)
    (h : ExtendsRules ns rs [] os) : mergeRules (indexOf ns) rs os = .ok os :=
  mergeRules_behind hrs hn h [] os rfl

end Absorbing

section Merging

/-- The name that an override states, if it is a text. -/
def statedName? (o : Json) : Option String :=
  match o.get? "name" with
  | some (.str s) => some s
  | _ => none

/-- The names that a list of rules states. -/
def statedNames (os : List Json) : List String := os.filterMap statedName?

theorem HasName.statedName?_eq (h : HasName s o) : statedName? o = some s := by
  obtain ⟨ms, rfl, hname⟩ := h
  rw [statedName?, Json.get?, hname]

theorem hasName_of_statedName? (h : statedName? o = some s) : HasName s o := by
  rw [statedName?] at h
  split at h
  · rename_i t hget
    cases h
    cases o with
    | obj ms => exact ⟨ms, rfl, hget⟩
    | _ => cases hget
  · cases h

/-- Rules that all have names have those they state. -/
theorem forall₂_statedNames (h : ∀ o ∈ os, ∃ s, HasName s o) :
    List.Forall₂ HasName (statedNames os) os := by
  induction os with
  | nil => exact .nil
  | cons o os ih =>
    obtain ⟨⟨s, hs⟩, hos⟩ := List.forall_mem_cons.1 h
    rw [statedNames, List.filterMap_cons, hs.statedName?_eq]
    exact .cons hs (ih hos)

/-- A rule takes the name of the override that is merged into it. -/
theorem HasName.of_mergeRule {w : Json} (ho : HasName s o) (hplain : Plain o)
    (h : mergeRule r o = .ok w) : HasName s w := by
  obtain ⟨ms, rfl, hname⟩ := ho
  unfold mergeRule at h
  split at h
  · obtain ⟨merged, hmerged, he⟩ := bind_eq_ok_iff.1 h
    cases he
    obtain ⟨v, hv, hget⟩ :=
      (merges_of_mergeMembers hplain.1 hmerged).given "name" _ (Json.mem_of_get? hname)
    cases hv
    exact ⟨merged, rfl, hget⟩
  · cases h

/-- A standard rule absorbs a rule of its shape with an override merged into it. -/
theorem absorbs_of_mergeRule {a w : Json} (hshape : Shaped "" r a) (ha : Absorbs "" r a)
    (hplain : Plain a) (ho : Plain o) (h : mergeRule a o = .ok w) : Absorbs "" r w := by
  have hw := plain_mergeRule a o w hplain ho h
  unfold mergeRule at h
  split at h
  · split at h
    · exact absorbs_merged "" r _ _ w hshape ha hplain ho hw h
    · cases h
  · cases h

variable {es todo todo' : List String}

theorem ExtendsRules.append (h : ExtendsRules ns rs todo os) (ho : IsExtra ns o)
    (htodo : todo' ⊆ todo) : ExtendsRules ns rs todo' (os ++ [o]) where
  standard i n r hn hr := by
    obtain ⟨a, ha, hname, habsorbs, hshape⟩ := h.standard i n r hn hr
    have hlt := (List.getElem?_eq_some_iff.1 ha).1
    exact ⟨a, by rw [List.getElem?_append_left hlt, ha], hname, habsorbs,
      fun hm => hshape (htodo hm)⟩
  extra i a hi ha := by
    rcases Nat.lt_or_ge i os.length with hlt | hge
    · rw [List.getElem?_append_left hlt] at ha
      exact h.extra i a hi ha
    · rw [List.getElem?_append_right hge] at ha
      rw [List.mem_singleton.1 (List.mem_of_getElem? ha)]
      exact ho

/-- A rule may take the place of one that it is like. -/
theorem ExtendsRules.set (h : ExtendsRules ns rs todo os) (htodo : todo' ⊆ todo) {i : Nat}
    {w : Json} (hstandard : ∀ n r, ns[i]? = some n → rs[i]? = some r →
      HasName n w ∧ Absorbs "" r w ∧ (n ∈ todo' → Shaped "" r w))
    (hextra : rs.length ≤ i → IsExtra ns w) : ExtendsRules ns rs todo' (os.set i w) where
  standard j n r hn hr := by
    obtain ⟨a, ha, hname, habsorbs, hshape⟩ := h.standard j n r hn hr
    rw [List.getElem?_set]
    by_cases hij : i = j
    · subst hij
      have hlt := (List.getElem?_eq_some_iff.1 ha).1
      rw [if_pos rfl, if_pos hlt]
      exact ⟨w, rfl, hstandard n r hn hr⟩
    · rw [if_neg hij]
      exact ⟨a, ha, hname, habsorbs, fun hm => hshape (htodo hm)⟩
  extra j a hj ha := by
    rw [List.getElem?_set] at ha
    by_cases hij : i = j
    · rw [if_pos hij] at ha
      split at ha
      · cases ha
        exact hextra (hij ▸ hj)
      · cases ha
    · rw [if_neg hij] at ha
      exact h.extra j a hj ha

/-- Overrides that name no rule twice leave the standard rules in front. -/
theorem ExtendsRules.merged (hrs : List.Forall₂ HasName ns rs) (hes : ∀ e ∈ es, e ∉ ns)
    {items cur merged : List Json} (h : ExtendsRules ns rs (statedNames items) cur)
    (honce : (statedNames items).Nodup) (hcur : ∀ r ∈ cur, Plain r) (hitems : ∀ o ∈ items, Plain o)
    (hm : mergeRules (indexOf (ns ++ es)) cur items = .ok merged) :
    ExtendsRules ns rs [] merged := by
  induction items generalizing cur with
  | nil =>
    cases hm
    exact h
  | cons o items ih =>
    obtain ⟨ho, hitems⟩ := List.forall_mem_cons.1 hitems
    have htodo : statedNames items ⊆ statedNames (o :: items) := by
      rw [statedNames, statedNames]
      exact (List.Sublist.filterMap statedName? (List.sublist_cons_self o items)).subset
    have hrest : (statedNames items).Nodup :=
      honce.sublist (List.Sublist.filterMap statedName? (List.sublist_cons_self o items))
    rw [mergeRules] at hm
    obtain ⟨name, hname, hm⟩ := bind_eq_ok_iff.1 hm
    split at hm
    · rename_i hpos
      have hextra : IsExtra ns o := ⟨name, hname, fun n hn =>
        positionOf?_indexOf_eq_none hpos n (List.mem_append_left _ hn)⟩
      refine ih (h.append hextra htodo) hrest (fun r hr => ?_) hitems hm
      rcases List.mem_append.1 hr with hr | hr
      · exact hcur r hr
      · rw [List.mem_singleton.1 hr]
        exact ho
    · rename_i i hpos
      obtain ⟨w, hw, hm⟩ := bind_eq_ok_iff.1 hm
      obtain ⟨s, hs, rfl⟩ := positionOf?_indexOf hpos
      have hname := hasName_of_ruleName hname
      have hplain := plain_mergeRule _ o w (plain_getD hcur i) ho hw
      have hnew := hname.of_mergeRule ho hw
      rw [statedNames, List.filterMap_cons, hname.statedName?_eq] at honce h
      refine ih (h.set (List.subset_cons_self s _) (fun n r hn hr => ?_) fun hi => ?_) hrest
        (fun r hr => ?_) hitems hm
      · -- The rule is standard, and no later override names it.
        have hlt := (List.getElem?_eq_some_iff.1 hn).1
        rw [List.getElem?_append_left hlt, hn] at hs
        cases hs
        obtain ⟨a, ha, -, habsorbs, hshape⟩ := h.standard i s r hn hr
        rw [ha, Option.getD_some] at hw
        have hdone := (List.nodup_cons.1 honce).1
        exact ⟨hnew, absorbs_of_mergeRule (hshape List.mem_cons_self) habsorbs
          (hcur a (List.mem_of_getElem? ha)) ho hw, fun hm => absurd hm hdone⟩
      · rw [List.getElem?_append_right (by rwa [hrs.length_eq])] at hs
        refine ⟨.str s, hnew.ruleName_eq, fun n hn he => ?_⟩
        cases he
        exact hes s (List.mem_of_getElem? hs) hn
      · rcases List.mem_or_eq_of_mem_set hr with hr | rfl
        · exact hcur r hr
        · exact hplain

end Merging

end ExportLint.Config
