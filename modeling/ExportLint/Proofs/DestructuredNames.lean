import ExportLint.Module.Sources

/-!
# Names bound by destructuring

A destructuring pattern binds the names that stand in it for parts of a value. The key of a part
binds nothing, and neither does the value that stands in for a missing one. The bound names are
looked for in all of a pattern but its default values. So they are found in their order, each once,
and besides them the names that stand in computed keys: nothing else than the bound names is found
exactly if no name stands in a computed key.
-/
namespace ExportLint

/-- What holds of a tree if it holds of all trees right below its root holds of every tree. -/
@[elab_as_elim]
theorem Node.induction_on_children {motive : Node → Prop}
    (step : ∀ n : Node, (∀ c ∈ n.children, motive c) → motive n) (n : Node) : motive n :=
  step n fun c _ => induction_on_children step c
termination_by sizeOf n
decreasing_by
  have hlt := List.sizeOf_lt_of_mem ‹c ∈ n.children›
  cases n
  simp only [Node.mk.sizeOf_spec] at hlt ⊢
  omega

namespace Detection

/-- A name where a pattern is expected. -/
def IsName (n : Node) : Prop :=
  n.kind = "identifier" ∨ n.kind = "shorthand_property_identifier_pattern"

/-- A target with a value for the case that it is given none. -/
def HasDefault (n : Node) : Prop :=
  n.kind = "assignment_pattern" ∨ n.kind = "object_assignment_pattern"

/-- A pattern whose parts are patterns all: an object, an array, or what is left of one. -/
def IsRow (n : Node) : Prop :=
  n.kind = "object_pattern" ∨ n.kind = "array_pattern" ∨ n.kind = "rest_pattern"

/-- A key that is written as a name, a text or a number. -/
def IsPlainKey (n : Node) : Prop :=
  n.kind ∈ ["property_identifier", "private_property_identifier", "string", "number"] ∧
    ∀ c ∈ n.children, c.named = true →
      (c.kind = "string_fragment" ∨ c.kind = "escape_sequence") ∧ c.children = []

instance (n : Node) : Decidable (IsName n) := inferInstanceAs (Decidable (_ ∨ _))

instance (n : Node) : Decidable (HasDefault n) := inferInstanceAs (Decidable (_ ∨ _))

/-- Punctuation and comments. -/
def isAside (n : Node) : Bool :=
  n.field.isNone &&
    (!n.named || (n.kind == "comment" || n.kind == "html_comment") && n.children.isEmpty)

/-- What a node is made of besides punctuation and comments. -/
def parts (n : Node) : List Node := n.children.filter fun c => !isAside c

/-- Patterns in a row bind names, and some keys in them are computed. -/
inductive Binds : List Node → List Node → List Node → Prop where
  | nil : Binds [] [] []
  | name {n : Node} {ns names keys : List Node} (named : n.named = true) (kind : IsName n)
      (rest : Binds ns names keys) : Binds (n :: ns) (n :: names) keys
  | row {n : Node} {ns names names' keys keys' : List Node} (named : n.named = true)
      (kind : IsRow n) (inner : Binds (parts n) names keys) (rest : Binds ns names' keys') :
      Binds (n :: ns) (names ++ names') (keys ++ keys')
  | pair {n key value : Node} {ns names names' keys keys' : List Node} (named : n.named = true)
      (kind : n.kind = "pair_pattern") (parts_eq : parts n = [key, value])
      (key_field : key.field = some "key") (value_field : value.field = some "value")
      (plain : IsPlainKey key) (inner : Binds [value] names keys) (rest : Binds ns names' keys') :
      Binds (n :: ns) (names ++ names') (keys ++ keys')
  | computedPair {n key value : Node} {ns names names' keys keys' : List Node}
      (named : n.named = true) (kind : n.kind = "pair_pattern") (parts_eq : parts n = [key, value])
      (key_field : key.field = some "key") (value_field : value.field = some "value")
      (key_named : key.named = true) (computed : key.kind = "computed_property_name")
      (inner : Binds [value] names keys) (rest : Binds ns names' keys') :
      Binds (n :: ns) (names ++ names') (key :: keys ++ keys')
  | withDefault {n target value : Node} {ns names names' keys keys' : List Node}
      (named : n.named = true) (kind : HasDefault n) (parts_eq : parts n = [target, value])
      (target_field : target.field = some "left") (value_field : value.field = some "right")
      (inner : Binds [target] names keys) (rest : Binds ns names' keys') :
      Binds (n :: ns) (names ++ names') (keys ++ keys')

/-- The parts of a node in which names are looked for: all but the first default value. -/
def searched (n : Node) : List Node :=
  (if HasDefault n then n.children.eraseP fun c => c.field == some "right" else n.children).filter
    (·.named)

/-- A node stands in a tree, outside names and default values. -/
inductive StandsIn (m : Node) : Node → Prop where
  | self : StandsIn m m
  | within {n c : Node} (kind : ¬IsName n) (part : c ∈ searched n) (inner : StandsIn m c) :
      StandsIn m n

variable {n m : Node} {ns names keys : List Node}

theorem boundNodesOf_eq (skipRight : Bool) (ns : List Node) :
    boundNodesOf skipRight ns =
      ((if skipRight then ns.eraseP fun c => c.field == some "right" else ns).filter
        (·.named)).flatMap boundNodes := by
  induction ns generalizing skipRight with
  | nil => cases skipRight <;> rfl
  | cons n ns ih =>
    have hnone := ih false
    have hskip := ih skipRight
    rw [if_neg Bool.false_ne_true] at hnone
    rw [boundNodesOf]
    cases skipRight with
    | false => cases hn : n.named <;> simp [hn, hnone]
    | true =>
      rw [if_pos rfl] at hskip
      by_cases hright : n.field = some "right"
      · simp [hright, hnone]
      · cases hn : n.named <;> simp [hn, hright, hskip]

theorem boundNodes_of_name (h : IsName n) : boundNodes n = [n] := by
  obtain ⟨kind, field, named, start, stop, children⟩ := n
  rw [boundNodes]
  exact if_pos h

theorem boundNodes_eq_boundNodesOf (h : ¬IsName n) :
    boundNodes n = boundNodesOf (decide (HasDefault n)) n.children := by
  obtain ⟨kind, field, named, start, stop, children⟩ := n
  rw [boundNodes, ← Bool.decide_or]
  exact if_neg h

theorem boundNodes_of_not_name (h : ¬IsName n) :
    boundNodes n = (searched n).flatMap boundNodes := by
  rw [boundNodes_eq_boundNodesOf h, boundNodesOf_eq, searched]
  simp only [decide_eq_true_eq]

theorem mem_children_of_mem_searched {c : Node} (h : c ∈ searched n) : c ∈ n.children := by
  have hc := (List.mem_filter.1 h).1
  split at hc
  · exact List.mem_of_mem_eraseP hc
  · exact hc

/-- Names are found exactly where they stand outside default values. -/
theorem mem_boundNodes_iff : m ∈ boundNodes n ↔ IsName m ∧ StandsIn m n := by
  constructor
  · intro hm
    induction n using Node.induction_on_children with
    | step n ih =>
      by_cases hn : IsName n
      · rw [boundNodes_of_name hn, List.mem_singleton] at hm
        rw [hm]
        exact ⟨hn, .self⟩
      · rw [boundNodes_of_not_name hn, List.mem_flatMap] at hm
        obtain ⟨c, hc, hm⟩ := hm
        obtain ⟨hname, hin⟩ := ih c (mem_children_of_mem_searched hc) hm
        exact ⟨hname, .within hn hc hin⟩
  · rintro ⟨hm, hin⟩
    induction hin with
    | self => rw [boundNodes_of_name hm, List.mem_singleton]
    | within kind part _ ih =>
      rw [boundNodes_of_not_name kind, List.mem_flatMap]
      exact ⟨_, part, ih⟩

/-- Nothing is found in punctuation and comments, and they are no default values. -/
theorem boundNodesOf_aside {skipRight : Bool} (h : isAside n = true) :
    boundNodesOf skipRight (n :: ns) = boundNodesOf skipRight ns := by
  simp only [isAside, Bool.and_eq_true, Bool.or_eq_true, Option.isNone_iff_eq_none,
    Bool.not_eq_true', beq_iff_eq, List.isEmpty_iff] at h
  obtain ⟨hfield, haside⟩ := h
  rw [boundNodesOf, hfield, if_neg (by simp)]
  rcases haside with hmark | ⟨hkind, hempty⟩
  · rw [hmark, if_neg Bool.false_ne_true]
  · have hname : ¬IsName n := by rcases hkind with h | h <;> simp [IsName, h]
    rw [boundNodes_of_not_name hname, searched, hempty]
    simp

theorem boundNodesOf_parts (skipRight : Bool) (ns : List Node) :
    boundNodesOf skipRight (ns.filter fun c => !isAside c) = boundNodesOf skipRight ns := by
  induction ns generalizing skipRight with
  | nil => rfl
  | cons n ns ih =>
    cases hn : isAside n with
    | true => rw [List.filter_cons_of_neg (by simp [hn]), ih, boundNodesOf_aside hn]
    | false =>
      rw [List.filter_cons_of_pos (by simp [hn]), boundNodesOf, boundNodesOf, ih, ih]

theorem boundNodes_eq_parts (h : ¬IsName n) :
    boundNodes n = boundNodesOf (decide (HasDefault n)) (parts n) := by
  rw [boundNodes_eq_boundNodesOf h, parts, boundNodesOf_parts]

theorem boundNodesOf_named (h : ∀ n ∈ ns, n.named = true) :
    boundNodesOf false ns = ns.flatMap boundNodes := by
  rw [boundNodesOf_eq, if_neg Bool.false_ne_true, List.filter_eq_self.2 h]

/-- No name stands in a key that is spelled out. -/
theorem boundNodes_of_plainKey (h : IsPlainKey n) : boundNodes n = [] := by
  obtain ⟨hkind, hchildren⟩ := h
  have hname : ¬IsName n := by
    rintro (h | h) <;> simp [h] at hkind
  rw [boundNodes_of_not_name hname, List.flatMap_eq_nil_iff]
  intro c hc
  obtain ⟨hpiece, hempty⟩ := hchildren c (mem_children_of_mem_searched hc)
    (List.mem_filter.1 hc).2
  have hnot : ¬IsName c := by
    rcases hpiece with h | h <;> simp [IsName, h]
  rw [boundNodes_of_not_name hnot, searched, hempty]
  simp

theorem Binds.named (h : Binds ns names keys) : ∀ n ∈ ns, n.named = true := by
  induction h with
  | nil => simp
  | name named _ _ ih => simpa [named] using ih
  | row named _ _ _ _ ih => simpa [named] using ih
  | pair named _ _ _ _ _ _ _ _ ih => simpa [named] using ih
  | computedPair named _ _ _ _ _ _ _ _ _ ih => simpa [named] using ih
  | withDefault named _ _ _ _ _ _ _ ih => simpa [named] using ih

theorem boundNodes_of_row (h : IsRow n) (hparts : ∀ c ∈ parts n, c.named = true) :
    boundNodes n = (parts n).flatMap boundNodes := by
  have hname : ¬IsName n := by rcases h with h | h | h <;> simp [IsName, h]
  have hdefault : ¬HasDefault n := by rcases h with h | h | h <;> simp [HasDefault, h]
  rw [boundNodes_eq_parts hname, decide_eq_false hdefault, boundNodesOf_named hparts]

theorem boundNodes_of_pair {key value : Node} (h : n.kind = "pair_pattern")
    (hparts : parts n = [key, value]) (hkey : key.named = true ∨ boundNodes key = [])
    (hvalue : value.named = true) : boundNodes n = boundNodes key ++ boundNodes value := by
  have hname : ¬IsName n := by simp [IsName, h]
  have hdefault : ¬HasDefault n := by simp [HasDefault, h]
  rw [boundNodes_eq_parts hname, decide_eq_false hdefault, hparts, boundNodesOf_eq]
  rcases hkey with hkey | hkey
  · simp [hkey, hvalue]
  · cases hnamed : key.named <;> simp [hnamed, hkey, hvalue]

theorem boundNodes_of_hasDefault {target value : Node} (h : HasDefault n)
    (hparts : parts n = [target, value]) (htarget : target.field = some "left")
    (hvalue : value.field = some "right") (hnamed : target.named = true) :
    boundNodes n = boundNodes target := by
  have hname : ¬IsName n := by rcases h with h | h <;> simp [IsName, h]
  rw [boundNodes_eq_parts hname, decide_eq_true h, hparts, boundNodesOf_eq]
  simp [htarget, hvalue, hnamed]

/-- A list is made of some nodes in their order and of some others anywhere between them. -/
structure Mixes (found names others : List Node) : Prop where
  sublist : names.Sublist found
  perm : found.Perm (names ++ others)

namespace Mixes

variable {found found' names' others others' : List Node}

theorem append (h : Mixes found names others) (h' : Mixes found' names' others') :
    Mixes (found ++ found') (names ++ names') (others ++ others') where
  sublist := h.sublist.append h'.sublist
  perm := by
    have hswap : (others ++ names').Perm (names' ++ others) := List.perm_append_comm
    have hmiddle := (hswap.append_right others').append_left names
    simp only [List.append_assoc] at hmiddle ⊢
    have happend := h.perm.append h'.perm
    rw [List.append_assoc] at happend
    exact happend.trans hmiddle

theorem of_others (ns : List Node) : Mixes ns [] ns := ⟨List.nil_sublist ns, .refl ns⟩

/-- There are no others exactly if the nodes are all that there is. -/
theorem eq_iff (h : Mixes found names others) : found = names ↔ others = [] := by
  have hlength := h.perm.length_eq
  rw [List.length_append] at hlength
  constructor
  · intro heq
    rw [heq] at hlength
    exact List.length_eq_zero_iff.1 (by omega)
  · intro hnone
    rw [hnone, List.length_nil, Nat.add_zero] at hlength
    exact (h.sublist.eq_of_length hlength.symm).symm

end Mixes

/-- Found in patterns are the names that they bind and the names in computed keys. -/
theorem Binds.mixes (h : Binds ns names keys) :
    Mixes (ns.flatMap boundNodes) names (keys.flatMap boundNodes) := by
  induction h with
  | nil => exact .of_others []
  | name _ kind _ ih =>
    rw [List.flatMap_cons, boundNodes_of_name kind]
    exact ⟨ih.sublist.cons_cons _, ih.perm.cons _⟩
  | row _ kind inner _ ihInner ih =>
    rw [List.flatMap_cons, boundNodes_of_row kind inner.named, List.flatMap_append]
    exact ihInner.append ih
  | pair _ kind parts_eq _ _ plain inner _ ihInner ih =>
    have hkey := boundNodes_of_plainKey plain
    rw [List.flatMap_cons, boundNodes_of_pair kind parts_eq (.inr hkey)
      (inner.named _ List.mem_cons_self), hkey, List.nil_append, List.flatMap_append]
    rw [List.flatMap_singleton] at ihInner
    exact ihInner.append ih
  | @computedPair _ key _ _ _ _ keys _ _ kind parts_eq _ _ key_named _ inner _ ihInner ih =>
    rw [List.flatMap_cons, boundNodes_of_pair kind parts_eq (.inl key_named)
      (inner.named _ List.mem_cons_self), List.cons_append, List.flatMap_cons,
      List.flatMap_append]
    rw [List.flatMap_singleton] at ihInner
    have hpair := (Mixes.of_others (boundNodes key)).append ihInner
    have hall := hpair.append ih
    rwa [List.nil_append, List.append_assoc (boundNodes key) (keys.flatMap boundNodes)] at hall
  | withDefault _ kind parts_eq target_field value_field inner _ ihInner ih =>
    rw [List.flatMap_cons, boundNodes_of_hasDefault kind parts_eq target_field value_field
      (inner.named _ List.mem_cons_self), List.flatMap_append]
    rw [List.flatMap_singleton] at ihInner
    exact ihInner.append ih

mutual

/-- The stretches of the nodes right below the root of a tree lie one behind the other in that of
the root, and so it is for all trees within it. Names are not empty. -/
def isLaidOut : Node → Bool
  | ⟨kind, _, _, start, stop, children⟩ =>
    (kind = "identifier" ∨ kind = "shorthand_property_identifier_pattern" → start < stop) ∧
      areLaidOut start stop children

def areLaidOut (start stop : Nat) : List Node → Bool
  | [] => start ≤ stop
  | n :: ns => start ≤ n.start && isLaidOut n && areLaidOut n.stop stop ns

end

/-- Nodes that are not empty lie one behind the other in a stretch. -/
def InOrder (start stop : Nat) : List Node → Prop
  | [] => start ≤ stop
  | n :: ns => start ≤ n.start ∧ n.start < n.stop ∧ InOrder n.stop stop ns

theorem InOrder.le {start stop : Nat} (h : InOrder start stop ns) : start ≤ stop := by
  induction ns generalizing start with
  | nil => exact h
  | cons n ns ih =>
    obtain ⟨hstart, hlt, hrest⟩ := h
    have := ih hrest
    omega

theorem InOrder.append {start middle stop : Nat} {ms : List Node} (h : InOrder start middle ms)
    (h' : InOrder middle stop ns) : InOrder start stop (ms ++ ns) := by
  induction ms generalizing start with
  | nil =>
    cases ns with
    | nil => exact Nat.le_trans h h'
    | cons n ns => exact ⟨Nat.le_trans h h'.1, h'.2⟩
  | cons m ms ih => exact ⟨h.1, h.2.1, ih h.2.2⟩

/-- A node in a stretch starts behind the start of the stretch, and behind all nodes before it. -/
theorem InOrder.pairwise {start stop : Nat} (h : InOrder start stop ns) :
    (∀ n ∈ ns, start ≤ n.start) ∧ ns.Pairwise fun a b => a.start < b.start := by
  induction ns generalizing start with
  | nil => simp
  | cons n ns ih =>
    obtain ⟨hstart, hlt, hrest⟩ := h
    obtain ⟨hbehind, hpairwise⟩ := ih hrest
    refine ⟨?_, List.pairwise_cons.2 ⟨fun m hm => ?_, hpairwise⟩⟩
    · rintro m (_ | ⟨_, hm⟩)
      · exact hstart
      · have := hbehind m hm
        omega
    · exact Nat.lt_of_lt_of_le hlt (hbehind m hm)

mutual

theorem inOrder_boundNodes : ∀ n : Node, isLaidOut n = true →
    InOrder n.start n.stop (boundNodes n)
  | ⟨kind, field, named, start, stop, children⟩, h => by
    rw [isLaidOut, decide_eq_true_eq] at h
    obtain ⟨hname, hchildren⟩ := h
    rw [boundNodes]
    split
    · rename_i hkind
      exact ⟨Nat.le_refl _, hname hkind, Nat.le_refl _⟩
    · exact inOrder_boundNodesOf _ children hchildren

theorem inOrder_boundNodesOf {start stop : Nat} (skipRight : Bool) : ∀ ns : List Node,
    areLaidOut start stop ns = true → InOrder start stop (boundNodesOf skipRight ns)
  | [], h => by
    rw [areLaidOut, decide_eq_true_eq] at h
    exact h
  | n :: ns, h => by
    rw [areLaidOut, Bool.and_eq_true, Bool.and_eq_true, decide_eq_true_eq] at h
    obtain ⟨⟨hstart, hn⟩, hns⟩ := h
    have hfound := inOrder_boundNodes n hn
    have hle := hfound.le
    have hpassed : InOrder start n.stop [] := Nat.le_trans hstart hle
    have hat : InOrder start n.start [] := hstart
    rw [boundNodesOf]
    split
    · exact hpassed.append (inOrder_boundNodesOf false ns hns)
    · split
      · exact (hat.append hfound).append (inOrder_boundNodesOf skipRight ns hns)
      · exact hpassed.append (inOrder_boundNodesOf skipRight ns hns)

end

/-- What a search for the names of a pattern finds are the names that it binds and the names that
stand in its computed keys, in the order of their places and each once. The names that it binds are
found in their order, and nothing else is found exactly if no name stands in a computed key. -/
theorem destructured_names_iff (h : Binds [n] names keys) (hlaid : isLaidOut n = true) :
    (boundNodes n = names ↔ ∀ key ∈ keys, ∀ m, StandsIn m key → ¬IsName m) ∧
      names.Sublist (boundNodes n) ∧
      (∀ m, m ∈ boundNodes n ↔ m ∈ names ∨ ∃ key ∈ keys, IsName m ∧ StandsIn m key) ∧
      (boundNodes n).Pairwise fun a b => a.start < b.start := by
  have hmixes := h.mixes
  rw [List.flatMap_singleton] at hmixes
  refine ⟨?_, hmixes.sublist, fun m => ?_, (inOrder_boundNodes n hlaid).pairwise.2⟩
  · rw [hmixes.eq_iff, List.flatMap_eq_nil_iff]
    refine forall₂_congr fun key _ => ?_
    rw [List.eq_nil_iff_forall_not_mem]
    refine forall_congr' fun m => ?_
    rw [mem_boundNodes_iff, not_and']
  · rw [hmixes.perm.mem_iff, List.mem_append, List.mem_flatMap]
    simp only [mem_boundNodes_iff]

/-- A statement that exports what a pattern with a computed key binds. -/
def keyedText : String := "export const \x7b [key]: value \x7d = table;\n"

/-- The key of its pattern. -/
def computedKey : Node := ⟨"computed_property_name", some "key", true, 15, 20,
  [⟨"[", none, false, 15, 16, []⟩, ⟨"identifier", none, true, 16, 19, []⟩,
    ⟨"]", none, false, 19, 20, []⟩]⟩

/-- What its pattern binds. -/
def keyedName : Node := ⟨"identifier", some "value", true, 22, 27, []⟩

def keyedPair : Node := ⟨"pair_pattern", none, true, 15, 27,
  [computedKey, ⟨":", none, false, 20, 21, []⟩, keyedName]⟩

def keyedPattern : Node := ⟨"object_pattern", some "name", true, 13, 29,
  [⟨"\x7b", none, false, 13, 14, []⟩, keyedPair, ⟨"\x7d", none, false, 28, 29, []⟩]⟩

/-- The name in the computed key is found besides the name that the pattern binds, and both are
exported. -/
theorem computed_key_found : Binds [keyedPattern] [keyedName] [computedKey] ∧
    isLaidOut keyedPattern = true ∧ boundNodes keyedPattern ≠ [keyedName] ∧
    (Inventory.ofText {} "a.ts" keyedText.toList).exports.map
      (fun e => (e.name, e.location.startColumn)) = [("key", 17), ("value", 23)] := by
  have hname : Binds [keyedName] [keyedName] [] := .name rfl (.inl rfl) .nil
  have hpair : Binds (parts keyedPattern) [keyedName] [computedKey] :=
    .computedPair rfl rfl (rfl : parts keyedPair = [computedKey, keyedName]) rfl rfl rfl rfl hname
      .nil
  have hbinds : Binds [keyedPattern] [keyedName] [computedKey] := .row rfl (.inl rfl) hpair .nil
  have hlaid : isLaidOut keyedPattern = true := by decide
  have hin : StandsIn ⟨"identifier", none, true, 16, 19, []⟩ computedKey :=
    .within (by decide) (by simp [searched, computedKey, HasDefault]) .self
  refine ⟨hbinds, hlaid, fun hfound => ?_, by decide +kernel⟩
  exact (destructured_names_iff hbinds hlaid).1.1 hfound _ List.mem_cons_self _ hin (.inl rfl)

end Detection

end ExportLint
