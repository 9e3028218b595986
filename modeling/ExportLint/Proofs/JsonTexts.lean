import ExportLint.Proofs.PlainData
import ExportLint.Proofs.StringTexts

/-!
# Values read back from their texts

A value that a text can hold is read back from what is written for it, in any layout and with blanks
behind it. What follows an item or a member cannot be taken for a part of it.
-/
namespace ExportLint.Json

open Decimal (Binary64)

section Places

variable {lay : Layout} {rest cs : List Char}

theorem skipSpace_append {bs : List Char} (h : ∀ c ∈ bs, isSpace c = true) (cs : List Char) :
    skipSpace (bs ++ cs) = skipSpace cs := List.dropWhile_append_of_pos h

theorem isSpace_break (lay : Layout) (depth : Nat) :
    ∀ c ∈ (lay.break depth).toList, isSpace c = true := by
  rw [Layout.break]
  split
  · simp
  · simp +contextual [isSpace]

/-- What a value begins with. -/
def StartsValue : List Char → Prop
  | [] => False
  | c :: _ => isSpace c = false ∧ c ≠ ']' ∧ c ≠ '\uFEFF'

theorem StartsValue.append (h : StartsValue cs) (rest : List Char) : StartsValue (cs ++ rest) := by
  cases cs with
  | nil => exact h.elim
  | cons c cs => exact h

theorem StartsValue.skipSpace_eq (h : StartsValue cs) : skipSpace cs = cs := by
  cases cs with
  | nil => rfl
  | cons c cs => simp [skipSpace, h.1]

/-- The break in front of a value is skipped. -/
theorem StartsValue.skipSpace_break (h : StartsValue cs) (lay : Layout) (depth : Nat) :
    skipSpace ((lay.break depth).toList ++ cs) = cs := by
  rw [skipSpace_append (isSpace_break lay depth), h.skipSpace_eq]

/-- A digit is none of the other characters. -/
theorem ne_of_isDigit {c d : Char} (h : isDigit c = true) (hd : isDigit d = false) : c ≠ d := by
  rintro rfl
  rw [h] at hd
  cases hd

theorem exists_digit_of_readSigned {negative : Bool} {start : List Char} {r : Json × List Char}
    (h : readSigned negative start cs = .ok r) : ∃ d ds, cs = d :: ds ∧ isDigit d = true := by
  unfold readSigned at h
  split at h
  · exact ⟨'0', _, rfl, rfl⟩
  · split at h
    · exact ⟨_, _, rfl, ‹_›⟩
    · cases h
  · cases h

/-- What is read as a number begins with a digit, behind a sign if any. -/
theorem exists_digit_of_readNumber {r : Json × List Char} (h : readNumber cs = .ok r) :
    ∃ negative d ds, cs = signText negative ++ d :: ds ∧ isDigit d = true := by
  unfold readNumber at h
  split at h
  · obtain ⟨d, ds, rfl, hd⟩ := exists_digit_of_readSigned h
    exact ⟨true, d, ds, rfl, hd⟩
  · obtain ⟨d, ds, rfl, hd⟩ := exists_digit_of_readSigned h
    exact ⟨false, d, ds, rfl, hd⟩

theorem readWord?_of_digit (negative : Bool) {d : Char} (ds : List Char) (hd : isDigit d = true) :
    readWord? (signText negative ++ d :: ds) = none := by
  have hn : d ≠ 'n' := ne_of_isDigit hd rfl
  have ht : d ≠ 't' := ne_of_isDigit hd rfl
  have hf : d ≠ 'f' := ne_of_isDigit hd rfl
  have hN : d ≠ 'N' := ne_of_isDigit hd rfl
  have hI : d ≠ 'I' := ne_of_isDigit hd rfl
  have hminus : d ≠ '-' := ne_of_isDigit hd rfl
  cases negative <;>
    simp [readWord?, words, dropWord?, signText, Ne.symm hn, Ne.symm ht, Ne.symm hf, Ne.symm hN,
      Ne.symm hI, Ne.symm hminus]

theorem readValue_other {fuel : Nat} {c : Char} (hquote : c ≠ '"') (hlist : c ≠ '[')
    (hobject : c ≠ '{') : readValue (fuel + 1) (c :: cs) = match readWord? (c :: cs) with
      | some found => .ok found
      | none => readNumber (c :: cs) := by
  unfold readValue
  split
  · rename_i h
    cases h
  · rename_i h
    exact absurd (List.cons.inj h).1 hquote
  · rename_i h
    exact absurd (List.cons.inj h).1 hlist
  · rename_i h
    exact absurd (List.cons.inj h).1 hobject
  · rfl

theorem readValue_number {fuel : Nat} {r : Json × List Char} (h : readNumber cs = .ok r) :
    readValue (fuel + 1) cs = .ok r := by
  obtain ⟨negative, d, ds, rfl, hd⟩ := exists_digit_of_readNumber h
  have hword := readWord?_of_digit negative ds hd
  have hother {c : Char} {cs : List Char} (hcs : signText negative ++ d :: ds = c :: cs)
      (hquote : c ≠ '"') (hlist : c ≠ '[') (hobject : c ≠ '{') :
      readValue (fuel + 1) (signText negative ++ d :: ds) = .ok r := by
    rw [hcs] at h hword ⊢
    rw [readValue_other hquote hlist hobject, hword]
    exact h
  cases negative with
  | true => exact hother rfl (by decide) (by decide) (by decide)
  | false => exact hother rfl (ne_of_isDigit hd rfl) (ne_of_isDigit hd rfl) (ne_of_isDigit hd rfl)

end Places

section Values

/-- A value without items and members. -/
def isFlat : Json → Bool
  | .arr (_ :: _) => false
  | .obj (_ :: _) => false
  | _ => true

variable {lay : Layout} {fuel depth : Nat} {acc : List Json} {members : List (String × Json)}
  {cs rest : List Char} {v : Json} {key : String}

theorem endsNumber_break (lay : Layout) (depth : Nat) {c : Char} (hc : EndsNumber (c :: rest)) :
    EndsNumber ((lay.break depth).toList ++ c :: rest) := by
  rw [Layout.break]
  split
  · exact hc
  · rw [String.toList_append, List.append_assoc]
    exact ⟨rfl, by decide, by decide, by decide⟩

theorem skipSpace_close (lay : Layout) (depth : Nat) {c : Char} (hc : isSpace c = false) :
    skipSpace ((lay.break depth).toList ++ c :: rest) = c :: rest := by
  rw [skipSpace_append (isSpace_break lay depth)]
  simp [skipSpace, hc]

/-- What is read behind an item of a list. -/
def itemsEnd (fuel : Nat) (acc : List Json) (cs : List Char) : Reading Json :=
  match skipSpace cs with
  | ']' :: rest => .ok (.arr acc.reverse, rest)
  | ',' :: rest => readItems fuel acc (skipSpace rest)
  | rest => .error (.comma, rest)

/-- What is read behind a member of an object. -/
def membersEnd (fuel : Nat) (members : List (String × Json)) (cs : List Char) : Reading Json :=
  match skipSpace cs with
  | '}' :: rest => .ok (.obj (Members.ofList members.reverse), rest)
  | ',' :: rest => readMembers fuel members (skipSpace rest)
  | rest => .error (.comma, rest)

theorem readItems_eq (h : readValue fuel cs = .ok (v, rest)) :
    readItems (fuel + 1) acc cs = itemsEnd fuel (v :: acc) rest := by
  rw [readItems, h]
  rfl

theorem toList_quote (ascii : Bool) (s : String) :
    (quote ascii s).toList = '"' :: (escaped ascii s.toList ++ ['"']) := by
  rw [quote, String.toList_ofList]
  rfl

theorem readString_quote (ascii : Bool) (s : String) {start : List Char} :
    readString start ((escaped ascii s.toList ++ '"' :: rest).length + 1) []
      (escaped ascii s.toList ++ '"' :: rest) = .ok (s, rest) := by
  have hle := length_le_escaped ascii s.toList
  rw [readString_escaped ascii s.toList (by rw [List.length_append]; omega), List.reverse_nil,
    List.nil_append, String.ofList_toList]

theorem exists_colon (lay : Layout) :
    ∃ blanks, lay.colon.toList = ':' :: blanks ∧ ∀ c ∈ blanks, isSpace c = true := by
  rw [Layout.colon]
  split
  · exact ⟨[' '], rfl, by simp [isSpace]⟩
  · exact ⟨[], rfl, by simp⟩

theorem readMembers_eq (ascii : Bool) (h : readValue fuel cs = .ok (v, rest))
    (hcs : StartsValue cs) :
    readMembers (fuel + 1) members
      ((quote ascii key).toList ++ (lay.colon.toList ++ cs)) =
        membersEnd fuel ((key, v) :: members) rest := by
  rw [toList_quote, List.cons_append, List.append_assoc, List.singleton_append, readMembers,
    readString_quote]
  obtain ⟨blanks, hcolon, hblanks⟩ := exists_colon lay
  have hskip : skipSpace (':' :: (blanks ++ cs)) = ':' :: (blanks ++ cs) := rfl
  simp only [hcolon, List.cons_append, hskip, skipSpace_append hblanks, hcs.skipSpace_eq, h]
  rfl

theorem readValue_list (hcs : StartsValue cs) :
    readValue (fuel + 1) ('[' :: ((lay.break depth).toList ++ cs)) = readItems fuel [] cs := by
  rw [readValue, hcs.skipSpace_break]
  cases cs with
  | nil => exact hcs.elim
  | cons c cs =>
    split
    · rename_i h
      exact absurd (List.cons.inj h).1 hcs.2.1
    · rfl

theorem readValue_object (ascii : Bool) : readValue (fuel + 1)
    ('{' :: ((lay.break depth).toList ++ ((quote ascii key).toList ++ cs))) =
      readMembers fuel [] ((quote ascii key).toList ++ cs) := by
  rw [toList_quote, List.cons_append, readValue, skipSpace_close lay depth rfl]
  rfl

theorem readValue_string (ascii : Bool) (s : String) :
    readValue (fuel + 1) ((quote ascii s).toList ++ rest) = .ok (.str s, rest) := by
  rw [toList_quote, List.cons_append, List.append_assoc, List.singleton_append, readValue,
    readString_quote]

/-- A word is read as its value. -/
theorem readValue_word {word : List Char} (hw : (word, v) ∈ [("null".toList, Json.null),
      ("true".toList, .bool true), ("false".toList, .bool false), ("NaN".toList, .real .nan),
      ("Infinity".toList, .real (.infinite false)), ("-Infinity".toList, .real (.infinite true))]) :
    readValue (fuel + 1) (word ++ rest) = .ok (v, rest) := by
  simp only [List.mem_cons, Prod.mk.injEq, List.not_mem_nil, or_false] at hw
  rcases hw with ⟨rfl, rfl⟩ | ⟨rfl, rfl⟩ | ⟨rfl, rfl⟩ | ⟨rfl, rfl⟩ | ⟨rfl, rfl⟩ | ⟨rfl, rfl⟩ <;>
    exact readValue_other (by decide) (by decide) (by decide)

theorem startsValue_of_readNumber {r : Json × List Char} (h : readNumber cs = .ok r) :
    StartsValue cs := by
  obtain ⟨negative, d, ds, rfl, hd⟩ := exists_digit_of_readNumber h
  cases negative with
  | true => exact ⟨rfl, by decide, by decide⟩
  | false =>
    have hspace : isSpace d = false := by
      simp [isSpace, ne_of_isDigit hd (d := ' ') rfl, ne_of_isDigit hd (d := '\t') rfl,
        ne_of_isDigit hd (d := '\n') rfl, ne_of_isDigit hd (d := '\r') rfl]
    exact ⟨hspace, ne_of_isDigit hd rfl, ne_of_isDigit hd rfl⟩

theorem startsValue_write (lay : Layout) (depth : Nat) (hv : Legible v) :
    StartsValue (write lay depth v).toList := by
  cases v with
  | null =>
    rw [write]
    exact ⟨rfl, by decide, by decide⟩
  | bool b =>
    rw [write]
    cases b <;> exact ⟨rfl, by decide, by decide⟩
  | int i =>
    have hread : readNumber ((toString i).toList ++ []) = _ := readNumber_int hv trivial
    rw [List.append_nil] at hread
    exact startsValue_of_readNumber hread
  | real x =>
    rw [write]
    cases x with
    | nan => exact ⟨rfl, by decide, by decide⟩
    | infinite s => cases s <;> exact ⟨rfl, by decide, by decide⟩
    | finite s m e =>
      have hread : readNumber (((Binary64.finite s m e).render numberForm).toList ++ []) = _ :=
        readNumber_render s (hv.resolve_left (by simp)) trivial
      rw [List.append_nil] at hread
      exact startsValue_of_readNumber hread
  | str s =>
    rw [write, toList_quote]
    exact ⟨rfl, by decide, by decide⟩
  | arr vs =>
    cases vs with
    | nil =>
      rw [write]
      exact ⟨rfl, by decide, by decide⟩
    | cons v vs =>
      rw [write]
      simp only [String.toList_append]
      exact ⟨rfl, by decide, by decide⟩
  | obj ms =>
    cases ms with
    | nil =>
      rw [write]
      exact ⟨rfl, by decide, by decide⟩
    | cons m ms =>
      rw [write]
      simp only [String.toList_append]
      exact ⟨rfl, by decide, by decide⟩

theorem toList_write_list (lay : Layout) (depth : Nat) (v : Json) (vs : List Json) :
    (write lay depth (.arr (v :: vs))).toList = '[' :: ((lay.break (depth + 1)).toList ++
      ((write lay (depth + 1) v).toList ++ ((writeItems lay (depth + 1) vs).toList ++
        ((lay.break depth).toList ++ [']'])))) := by
  rw [write]
  simp [String.toList_append]

theorem toList_write_object (lay : Layout) (depth : Nat) (k : String) (v : Json)
    (ms : List (String × Json)) : (write lay depth (.obj ((k, v) :: ms))).toList =
      '{' :: ((lay.break (depth + 1)).toList ++ ((quote lay.ascii k).toList ++
        (lay.colon.toList ++ ((write lay (depth + 1) v).toList ++
          ((writeMembers lay (depth + 1) ms).toList ++ ((lay.break depth).toList ++ ['}'])))))) := by
  rw [write]
  simp [String.toList_append]

theorem toList_writeItems (lay : Layout) (depth : Nat) (v : Json) (vs : List Json) :
    (writeItems lay depth (v :: vs)).toList = ',' :: ((lay.break depth).toList ++
      ((write lay depth v).toList ++ (writeItems lay depth vs).toList)) := by
  rw [writeItems]
  simp [String.toList_append]

theorem toList_writeMembers (lay : Layout) (depth : Nat) (k : String) (v : Json)
    (ms : List (String × Json)) : (writeMembers lay depth ((k, v) :: ms)).toList =
      ',' :: ((lay.break depth).toList ++ ((quote lay.ascii k).toList ++ (lay.colon.toList ++
        ((write lay depth v).toList ++ (writeMembers lay depth ms).toList)))) := by
  rw [writeMembers]
  simp [String.toList_append]

/-- No number goes on behind an item. -/
theorem endsNumber_items (lay : Layout) (depth : Nat) (vs : List Json) (rest : List Char) :
    EndsNumber ((writeItems lay (depth + 1) vs).toList ++
      ((lay.break depth).toList ++ ']' :: rest)) := by
  cases vs with
  | nil =>
    rw [writeItems]
    exact endsNumber_break lay depth ⟨rfl, by decide, by decide, by decide⟩
  | cons v vs =>
    rw [toList_writeItems]
    exact ⟨rfl, by decide, by decide, by decide⟩

theorem endsNumber_members (lay : Layout) (depth : Nat) (ms : List (String × Json))
    (rest : List Char) :
    EndsNumber ((writeMembers lay (depth + 1) ms).toList ++
      ((lay.break depth).toList ++ '}' :: rest)) := by
  cases ms with
  | nil =>
    rw [writeMembers]
    exact endsNumber_break lay depth ⟨rfl, by decide, by decide, by decide⟩
  | cons m ms =>
    rw [toList_writeMembers]
    exact ⟨rfl, by decide, by decide, by decide⟩

theorem itemsEnd_comma (h : StartsValue cs) :
    itemsEnd fuel acc (',' :: ((lay.break depth).toList ++ cs)) = readItems fuel acc cs := by
  have hread : itemsEnd fuel acc (',' :: ((lay.break depth).toList ++ cs)) =
      readItems fuel acc (skipSpace ((lay.break depth).toList ++ cs)) := rfl
  rw [hread, h.skipSpace_break]

theorem itemsEnd_close :
    itemsEnd fuel acc ((lay.break depth).toList ++ ']' :: rest) = .ok (.arr acc.reverse, rest) := by
  rw [itemsEnd, skipSpace_close lay depth rfl]
  rfl

theorem membersEnd_comma (ascii : Bool) :
    membersEnd fuel members (',' :: ((lay.break depth).toList ++ ((quote ascii key).toList ++ cs))) =
      readMembers fuel members ((quote ascii key).toList ++ cs) := by
  have hread : membersEnd fuel members
      (',' :: ((lay.break depth).toList ++ ((quote ascii key).toList ++ cs))) =
        readMembers fuel members
          (skipSpace ((lay.break depth).toList ++ ((quote ascii key).toList ++ cs))) := rfl
  rw [hread, toList_quote, List.cons_append, skipSpace_close lay depth rfl]

theorem membersEnd_close : membersEnd fuel members ((lay.break depth).toList ++ '}' :: rest) =
    .ok (.obj (Members.ofList members.reverse), rest) := by
  rw [membersEnd, skipSpace_close lay depth rfl]
  rfl

/-- A value without items and members is read back from its text. -/
theorem readValue_flat (hflat : v.isFlat = true) (hv : Legible v) (hr : EndsNumber rest) :
    readValue (fuel + 1) ((write lay depth v).toList ++ rest) = .ok (v, rest) := by
  cases v with
  | null => exact readValue_word (by simp [write])
  | bool b => cases b <;> exact readValue_word (by simp [write])
  | int i => exact readValue_number (readNumber_int hv hr)
  | real x =>
    cases x with
    | nan => exact readValue_word (by simp [write, Binary64.render, numberForm])
    | infinite s =>
      cases s <;> exact readValue_word (by simp [write, Binary64.render, numberForm])
    | finite s m e => exact readValue_number (readNumber_render s (hv.resolve_left (by simp)) hr)
  | str s => exact readValue_string lay.ascii s
  | arr vs =>
    cases vs with
    | nil =>
      rw [write]
      rfl
    | cons v vs => cases hflat
  | obj ms =>
    cases ms with
    | nil =>
      rw [write]
      rfl
    | cons m ms => cases hflat

/-- There is fuel for a value, since its text is not empty. -/
theorem exists_fuel (hv : Legible v) (h : (write lay depth v).toList.length ≤ fuel) :
    ∃ k, fuel = k + 1 := by
  refine Nat.exists_eq_add_one.2 (Nat.pos_of_ne_zero ?_)
  rintro rfl
  have hstart := startsValue_write lay depth hv
  rw [List.length_eq_zero_iff.1 (Nat.le_zero.1 h)] at hstart
  exact hstart

mutual

/-- A value is read back from its text, whatever follows that could not be a part of it. -/
theorem readValue_write (lay : Layout) (depth : Nat) (v : Json) (fuel : Nat) (rest : List Char)
    (hv : Legible v) (hr : EndsNumber rest) (hfuel : (write lay depth v).toList.length ≤ fuel) :
    readValue fuel ((write lay depth v).toList ++ rest) = .ok (v, rest) := by
  obtain ⟨fuel, rfl⟩ := exists_fuel hv hfuel
  cases v with
  | arr vs =>
    cases vs with
    | nil => exact readValue_flat rfl hv hr
    | cons v vs =>
      rw [toList_write_list] at hfuel ⊢
      simp only [List.cons_append, List.append_assoc, List.length_cons, List.length_append,
        List.length_nil, List.nil_append] at hfuel ⊢
      obtain ⟨fuel, rfl⟩ : ∃ k, fuel = k + 1 := ⟨fuel - 1, by omega⟩
      have hitem := readValue_write lay (depth + 1) v fuel _ hv.1
        (endsNumber_items lay depth vs rest) (by omega)
      have hrest := itemsEnd_write lay depth vs fuel [v] rest hv.2 (by omega)
      rw [readValue_list ((startsValue_write lay (depth + 1) hv.1).append _), readItems_eq hitem]
      exact hrest
  | obj ms =>
    cases ms with
    | nil => exact readValue_flat rfl hv hr
    | cons m ms =>
      obtain ⟨k, v⟩ := m
      rw [toList_write_object] at hfuel ⊢
      simp only [List.cons_append, List.append_assoc, List.length_cons, List.length_append,
        List.length_nil, List.nil_append] at hfuel ⊢
      obtain ⟨fuel, rfl⟩ : ∃ k, fuel = k + 1 := ⟨fuel - 1, by omega⟩
      have hmember := readValue_write lay (depth + 1) v fuel _ hv.2.1
        (endsNumber_members lay depth ms rest) (by omega)
      have hrest := membersEnd_write lay depth ms fuel [(k, v)] rest hv.2.2 (by omega)
      rw [readValue_object, readMembers_eq lay.ascii hmember
        ((startsValue_write lay (depth + 1) hv.2.1).append _), hrest, List.reverse_singleton,
        List.singleton_append, Members.ofList_of_nodup hv.1]
  | _ => exact readValue_flat rfl hv hr

theorem itemsEnd_write (lay : Layout) (depth : Nat) : ∀ (vs : List Json) (fuel : Nat)
    (acc : List Json) (rest : List Char), LegibleItems vs →
    (writeItems lay (depth + 1) vs).toList.length ≤ fuel →
    itemsEnd fuel acc ((writeItems lay (depth + 1) vs).toList ++
      ((lay.break depth).toList ++ ']' :: rest)) = .ok (.arr (acc.reverse ++ vs), rest)
  | [], fuel, acc, rest, _, _ => by
    rw [writeItems, List.append_nil]
    exact itemsEnd_close
  | v :: vs, fuel, acc, rest, hvs, hfuel => by
    rw [toList_writeItems] at hfuel ⊢
    simp only [List.cons_append, List.append_assoc, List.length_cons, List.length_append]
      at hfuel ⊢
    obtain ⟨fuel, rfl⟩ : ∃ k, fuel = k + 1 := ⟨fuel - 1, by omega⟩
    have hitem := readValue_write lay (depth + 1) v fuel _ hvs.1
      (endsNumber_items lay depth vs rest) (by omega)
    have hrest := itemsEnd_write lay depth vs fuel (v :: acc) rest hvs.2 (by omega)
    rw [itemsEnd_comma ((startsValue_write lay (depth + 1) hvs.1).append _), readItems_eq hitem,
      hrest, List.reverse_cons, List.append_assoc, List.singleton_append]

theorem membersEnd_write (lay : Layout) (depth : Nat) : ∀ (ms : List (String × Json)) (fuel : Nat)
    (acc : List (String × Json)) (rest : List Char), LegibleMembers ms →
    (writeMembers lay (depth + 1) ms).toList.length ≤ fuel →
    membersEnd fuel acc ((writeMembers lay (depth + 1) ms).toList ++
      ((lay.break depth).toList ++ '}' :: rest)) =
        .ok (.obj (Members.ofList (acc.reverse ++ ms)), rest)
  | [], fuel, acc, rest, _, _ => by
    rw [writeMembers, List.append_nil]
    exact membersEnd_close
  | (k, v) :: ms, fuel, acc, rest, hms, hfuel => by
    rw [toList_writeMembers] at hfuel ⊢
    simp only [List.cons_append, List.append_assoc, List.length_cons, List.length_append]
      at hfuel ⊢
    obtain ⟨fuel, rfl⟩ : ∃ k, fuel = k + 1 := ⟨fuel - 1, by omega⟩
    have hmember := readValue_write lay (depth + 1) v fuel _ hms.1
      (endsNumber_members lay depth ms rest) (by omega)
    have hrest := membersEnd_write lay depth ms fuel ((k, v) :: acc) rest hms.2 (by omega)
    rw [membersEnd_comma, readMembers_eq lay.ascii hmember
      ((startsValue_write lay (depth + 1) hms.1).append _), hrest, List.reverse_cons,
      List.append_assoc, List.singleton_append]

end

/-- A text is read with blanks behind it. -/
theorem read_write (lay : Layout) {v : Json} (hv : Legible v) {bs : List Char}
    (hbs : ∀ c ∈ bs, isSpace c = true) :
    read (write lay 0 v ++ String.ofList bs) = .ok v := by
  have hends : EndsNumber bs := by
    cases bs with
    | nil => trivial
    | cons c cs =>
      have hc := hbs c List.mem_cons_self
      simp only [isSpace, Bool.or_eq_true, beq_iff_eq, or_assoc] at hc
      rcases hc with rfl | rfl | rfl | rfl <;> exact ⟨rfl, by decide, by decide, by decide⟩
  have hstart := (startsValue_write lay 0 hv).append bs
  have hread : readValue (2 * ((write lay 0 v).toList ++ bs).length + 2)
      ((write lay 0 v).toList ++ bs) = .ok (v, bs) :=
    readValue_write lay 0 v _ bs hv hends (by rw [List.length_append]; omega)
  have hblank : (skipSpace bs).isEmpty = true := by
    have hskip := skipSpace_append hbs []
    rw [List.append_nil] at hskip
    rw [hskip]
    rfl
  have htext : readText ((write lay 0 v).toList ++ bs) = .ok v := by
    unfold readText
    split
    · rename_i hmark
      rw [hmark] at hstart
      exact absurd rfl hstart.2.2
    · rw [hstart.skipSpace_eq, hread]
      simp only [hblank, if_true]
  rw [read, String.toList_append, String.toList_ofList, htext]

end Values

end ExportLint.Json
