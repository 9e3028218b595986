import ExportLint.Fix.Run
import ExportLint.Proofs.SourcePlaces
import Mathlib.Data.Option.Basic

/-!
# Line numbers

A file is read in two ways. Its exports are found in a text whose line ends are all line feeds, and
its lines are edited as they stand between the line feeds on the disk. The two count lines alike
exactly if no carriage return stands alone: each one that does ends a line for the first reader and
none for the second. Where they count alike, the line that is edited for a place is the line that
the place is on.
-/
namespace ExportLint

namespace Text

/-- Carriage returns that no line feed follows. -/
def loneReturns : List Char → Nat
  | '\r' :: '\n' :: cs => loneReturns cs
  | '\r' :: cs => loneReturns cs + 1
  | _ :: cs => loneReturns cs
  | [] => 0

/-- A text between its line feeds. -/
def splitLines (cs : List Char) : List (List Char) := splitWhere (· == '\n') cs

/-- Lines that are the same up to carriage returns at their ends. -/
def SameLines (ls ls' : List (List Char)) : Prop :=
  ls.map (dropTrailing '\r') = ls'.map (dropTrailing '\r')

/-- A line feed follows every carriage return. -/
def ReturnsPaired (cs : List Char) : Prop :=
  ∀ before behind, cs = before ++ '\r' :: behind → behind.head? = some '\n'

/-- The line around a position, given what stands before and behind it. -/
def lineAround (before behind : List Char) : List Char :=
  (before.reverse.takeWhile (· != '\n')).reverse ++ behind.takeWhile (· != '\n')

/-- The number of characters that end before an offset in bytes. -/
def charsBefore : Nat → List Char → Nat
  | _, [] => 0
  | n, c :: cs => if c.utf8Size ≤ n then charsBefore (n - c.utf8Size) cs + 1 else 0

/-- The line around an offset in bytes. -/
def lineAt (cs : List Char) (n : Nat) : List Char :=
  lineAround (cs.take (charsBefore n cs)) (cs.drop (charsBefore n cs))

variable {cs before behind : List Char}

theorem splitLines_lineFeed (cs : List Char) : splitLines ('\n' :: cs) = [] :: splitLines cs := rfl

/-- A character that ends no line stands at the start of the first one. -/
theorem splitLines_cons {c : Char} (hc : c ≠ '\n') (cs : List Char) :
    ∃ line rest, splitLines cs = line :: rest ∧ splitLines (c :: cs) = (c :: line) :: rest := by
  cases hs : splitLines cs with
  | nil => exact absurd hs (splitWhere_ne_nil _ _)
  | cons line rest =>
    refine ⟨line, rest, rfl, ?_⟩
    rw [splitLines] at hs ⊢
    simp [splitWhere, hc, hs]

theorem length_splitLines (cs : List Char) :
    (splitLines cs).length = cs.count '\n' + 1 := by
  induction cs with
  | nil => rfl
  | cons c cs ih =>
    by_cases hc : c = '\n'
    · rw [hc, splitLines_lineFeed, List.length_cons, ih, List.count_cons_self]
    · obtain ⟨line, rest, hs, hs'⟩ := splitLines_cons hc cs
      rw [hs', List.length_cons, List.count_cons_of_ne hc, ← ih, hs, List.length_cons]

theorem dropTrailing_cons {c d : Char} (hd : d ≠ c) (cs : List Char) :
    dropTrailing c (d :: cs) = d :: dropTrailing c cs := by
  simp only [dropTrailing, List.reverse_cons, List.dropWhile_append]
  split
  · rename_i h
    simp [hd, List.isEmpty_iff.1 h]
  · simp

@[simp] theorem loneReturns_pair (cs : List Char) :
    loneReturns ('\r' :: '\n' :: cs) = loneReturns cs := rfl

theorem loneReturns_return (h : ∀ rest, cs = '\n' :: rest → False) :
    loneReturns ('\r' :: cs) = loneReturns cs + 1 := by
  simp [loneReturns]

theorem loneReturns_cons {c : Char} (hc : c ≠ '\r') (cs : List Char) :
    loneReturns (c :: cs) = loneReturns cs := by
  simp [loneReturns, hc]

/-- Every lone carriage return makes one line feed more. -/
theorem count_universalNewlines (cs : List Char) :
    (universalNewlines cs).count '\n' = cs.count '\n' + loneReturns cs := by
  fun_induction universalNewlines cs with
  | case1 cs ih =>
    rw [List.count_cons_self, ih, loneReturns_pair, List.count_cons_of_ne (by decide),
      List.count_cons_self]
    omega
  | case2 cs hne ih =>
    rw [List.count_cons_self, ih, loneReturns_return hne, List.count_cons_of_ne (by decide)]
    omega
  | case3 c cs hpair hlone ih =>
    have hc : c ≠ '\r' := hlone
    rw [loneReturns_cons hc, List.count_cons, ih, List.count_cons]
    omega
  | case4 => rfl

/-- Without lone carriage returns the lines are the same, up to those that stand at their ends. -/
theorem sameLines_of_loneReturns_eq_zero (h : loneReturns cs = 0) :
    SameLines (splitLines (universalNewlines cs)) (splitLines cs) := by
  fun_induction universalNewlines cs with
  | case1 cs ih =>
    obtain ⟨line, rest, hs, hs'⟩ := splitLines_cons (c := '\r') (by decide) ('\n' :: cs)
    rw [splitLines_lineFeed] at hs
    cases hs
    rw [SameLines, hs', splitLines_lineFeed, List.map_cons, List.map_cons, ih h]
    rfl
  | case2 cs hne ih =>
    rw [loneReturns_return hne] at h
    cases h
  | case3 c cs hpair hlone ih =>
    have hc : c ≠ '\r' := hlone
    have ih := ih (loneReturns_cons hc cs ▸ h)
    by_cases hn : c = '\n'
    · rw [SameLines, hn, splitLines_lineFeed, splitLines_lineFeed, List.map_cons, List.map_cons, ih]
    · obtain ⟨line, rest, hs, hs'⟩ := splitLines_cons hn (universalNewlines cs)
      obtain ⟨line', rest', ht, ht'⟩ := splitLines_cons hn cs
      rw [SameLines, hs, ht, List.map_cons, List.map_cons] at ih
      obtain ⟨hline, hrest⟩ := List.cons.inj ih
      rw [SameLines, hs', ht', List.map_cons, List.map_cons, dropTrailing_cons hc,
        dropTrailing_cons hc, hline, hrest]
  | case4 => rfl

theorem loneReturns_eq_zero_iff : loneReturns cs = 0 ↔ ReturnsPaired cs := by
  unfold ReturnsPaired
  fun_induction loneReturns cs with
  | case1 cs ih =>
    rw [ih]
    constructor
    · intro h before behind he
      cases before with
      | nil =>
        cases he
        rfl
      | cons c before =>
        cases before with
        | nil => cases he
        | cons d before =>
          obtain ⟨-, he⟩ := List.cons.inj he
          obtain ⟨-, he⟩ := List.cons.inj he
          exact h before behind he
    · intro h before behind he
      exact h ('\r' :: '\n' :: before) behind (by rw [he]; rfl)
  | case2 cs hne ih =>
    constructor
    · intro h
      cases h
    · intro h
      have hhead := h [] cs rfl
      obtain ⟨rest, hrest⟩ := List.head?_eq_some_iff.1 hhead
      exact absurd hrest (hne rest)
  | case3 c cs hpair hlone ih =>
    have hc : c ≠ '\r' := hlone
    rw [ih]
    constructor
    · intro h before behind he
      cases before with
      | nil => exact absurd (List.cons.inj he).1 hc
      | cons d before => exact h before behind (List.cons.inj he).2
    · intro h before behind he
      exact h (c :: before) behind (by rw [he]; rfl)
  | case4 =>
    constructor
    · intro _ before behind he
      simp at he
    · exact fun _ => rfl

/-- Lines are counted alike, and are the same up to carriage returns at their ends, exactly if a
line feed follows every carriage return. -/
theorem sameLines_iff : SameLines (splitLines (universalNewlines cs)) (splitLines cs) ↔
    ReturnsPaired cs := by
  rw [← loneReturns_eq_zero_iff]
  constructor
  · intro h
    have hlength := congrArg List.length h
    rw [List.length_map, List.length_map, length_splitLines, length_splitLines,
      count_universalNewlines] at hlength
    omega
  · exact sameLines_of_loneReturns_eq_zero

theorem head_splitLines (cs : List Char) :
    (splitLines cs)[0]? = some (cs.takeWhile (· != '\n')) := by
  induction cs with
  | nil => rfl
  | cons c cs ih =>
    by_cases hc : c = '\n'
    · rw [hc, splitLines_lineFeed]
      rfl
    · obtain ⟨line, rest, hs, hs'⟩ := splitLines_cons hc cs
      rw [hs] at ih
      rw [hs', List.takeWhile_cons_of_pos (by simpa using hc)]
      simpa using ih

/-- A character before the last line feed is on another line. -/
theorem lineAround_cons_of_mem {c : Char} (h : '\n' ∈ before) (behind : List Char) :
    lineAround (c :: before) behind = lineAround before behind := by
  have hstop : (before.reverse.takeWhile (· != '\n')).length ≠ before.reverse.length := by
    intro hlength
    have hall : (before.reverse.takeWhile (· != '\n')).all (· != '\n') = true := List.all_takeWhile
    rw [(List.takeWhile_prefix _).eq_of_length hlength] at hall
    have := List.all_eq_true.1 hall '\n' (List.mem_reverse.2 h)
    exact absurd this (by decide)
  rw [lineAround, List.reverse_cons, List.takeWhile_append, if_neg hstop, lineAround]

theorem takeWhile_append_of_not_mem (h : '\n' ∉ before) (behind : List Char) :
    (before ++ behind).takeWhile (· != '\n') = before ++ behind.takeWhile (· != '\n') := by
  apply List.takeWhile_append_of_pos
  intro c hc
  rw [bne_iff_ne]
  rintro rfl
  exact h hc

/-- Without a line feed before the position, its line starts with the text. -/
theorem lineAround_of_not_mem (h : '\n' ∉ before) (behind : List Char) :
    lineAround before behind = before ++ behind.takeWhile (· != '\n') := by
  have hself := takeWhile_append_of_not_mem (fun hm => h (List.mem_reverse.1 hm)) []
  rw [List.append_nil, List.takeWhile_nil, List.append_nil] at hself
  rw [lineAround, hself, List.reverse_reverse]

theorem lineAround_lineFeed (before behind : List Char) :
    lineAround ('\n' :: before) behind = lineAround before behind := by
  by_cases hm : '\n' ∈ before
  · exact lineAround_cons_of_mem hm behind
  · rw [lineAround_of_not_mem hm, lineAround, List.reverse_cons,
      takeWhile_append_of_not_mem (fun h => hm (List.mem_reverse.1 h)), List.reverse_append,
      List.reverse_reverse]
    rfl

/-- As many line feeds stand before a position as there are lines before its line. -/
theorem splitLines_append (before behind : List Char) :
    (splitLines (before ++ behind))[before.count '\n']? = some (lineAround before behind) := by
  induction before with
  | nil => exact head_splitLines behind
  | cons c before ih =>
    by_cases hc : c = '\n'
    · rw [hc, List.cons_append, splitLines_lineFeed, List.count_cons_self, lineAround_lineFeed]
      exact ih
    · obtain ⟨line, rest, hs, hs'⟩ := splitLines_cons hc (before ++ behind)
      rw [hs] at ih
      rw [List.cons_append, hs', List.count_cons_of_ne hc]
      by_cases hm : '\n' ∈ before
      · obtain ⟨k, hk⟩ := Nat.exists_eq_add_of_le' (List.count_pos_iff.2 hm)
        rw [lineAround_cons_of_mem hm, ← ih, hk, List.getElem?_cons_succ, List.getElem?_cons_succ]
      · rw [List.count_eq_zero.2 hm] at ih ⊢
        rw [lineAround_of_not_mem hm] at ih
        rw [lineAround_of_not_mem (by simp [Ne.symm hc, hm])]
        simpa using ih

namespace Utf8

theorem toList_loop (b : ByteArray) (i : Nat) (r : List UInt8) :
    ByteArray.toList.loop b i r = r.reverse ++ b.data.toList.drop i := by
  fun_induction ByteArray.toList.loop b i r with
  | case1 i r h ih =>
    have hi : i < b.data.toList.length := h
    have hget : b.get! i = b.data.toList[i] := getElem!_pos b.data i h
    rw [ih, List.drop_eq_getElem_cons hi, hget, List.reverse_cons, List.append_assoc,
      List.singleton_append]
  | case2 i r h =>
    have hi : b.data.toList.length ≤ i := Nat.le_of_not_lt h
    rw [List.drop_eq_nil_of_le hi, List.append_nil]

/-- A text is encoded character by character. -/
theorem encode_ofList (cs : List Char) :
    encode (String.ofList cs) = cs.flatMap String.utf8EncodeChar := by
  rw [encode, String.toUTF8, String.toByteArray_ofList, ByteArray.toList, toList_loop,
    List.reverse_nil, List.nil_append, List.drop_zero, List.utf8Encode, List.data_toByteArray]

theorem ofNat_eq_lineFeed_iff {n : Nat} (h : n < 256) : UInt8.ofNat n = 10 ↔ n = 10 := by
  rw [← UInt8.toNat_inj, UInt8.toNat_ofNat_of_lt' h]
  rfl

/-- The byte of a line feed is part of no other character. -/
theorem count_utf8EncodeChar (c : Char) :
    (String.utf8EncodeChar c).count 10 = if c = '\n' then 1 else 0 := by
  have hc : c = '\n' ↔ c.val.toNat = 10 := by
    rw [← Char.toNat_inj]
    rfl
  simp only [hc]
  by_cases hv : c.val.toNat ≤ 127
  · simp only [String.utf8EncodeChar, if_pos hv, List.count_singleton, beq_iff_eq,
      ofNat_eq_lineFeed_iff (show c.val.toNat < 256 by omega)]
  · -- Every byte of a longer character is at least 128.
    rw [if_neg (by omega), List.count_eq_zero]
    intro hm
    have hne {n : Nat} (hlow : 128 ≤ n) (hhigh : n < 256) : ¬10 = UInt8.ofNat n := by
      intro he
      have := (ofNat_eq_lineFeed_iff hhigh).1 he.symm
      omega
    simp only [String.utf8EncodeChar, if_neg hv] at hm
    split at hm
    · simp only [List.mem_cons, List.not_mem_nil, or_false] at hm
      exact hm.elim (hne (by omega) (by omega)) (hne (by omega) (by omega))
    · split at hm
      · simp only [List.mem_cons, List.not_mem_nil, or_false] at hm
        exact hm.elim (hne (by omega) (by omega))
          (·.elim (hne (by omega) (by omega)) (hne (by omega) (by omega)))
      · simp only [List.mem_cons, List.not_mem_nil, or_false] at hm
        exact hm.elim (hne (by omega) (by omega)) (·.elim (hne (by omega) (by omega))
          (·.elim (hne (by omega) (by omega)) (hne (by omega) (by omega))))

/-- The bytes before an offset hold the line feeds of the characters before it. -/
theorem count_take_encode (n : Nat) (cs : List Char) :
    ((encode (String.ofList cs)).take n).count 10 = (cs.take (charsBefore n cs)).count '\n' := by
  rw [encode_ofList]
  induction cs generalizing n with
  | nil => simp [charsBefore]
  | cons c cs ih =>
    rw [List.flatMap_cons, List.take_append, List.count_append, String.length_utf8EncodeChar]
    by_cases h : c.utf8Size ≤ n
    · rw [List.take_of_length_le (by simpa using h), ih, charsBefore, if_pos h,
        List.take_succ_cons, List.count_cons, count_utf8EncodeChar]
      simp only [beq_iff_eq]
      omega
    · -- The offset is inside of the first character, which is no line feed if it is not at its start.
      rw [charsBefore, if_neg h, Nat.sub_eq_zero_of_le (by omega)]
      simp only [List.take_zero, List.count_nil, Nat.add_zero]
      by_cases hc : c = '\n'
      · have hn : n = 0 := by
          rw [hc] at h
          have : Char.utf8Size '\n' = 1 := rfl
          omega
        rw [hn, List.take_zero, List.count_nil]
      · have hzero := count_utf8EncodeChar c
        rw [if_neg hc, List.count_eq_zero] at hzero
        exact List.count_eq_zero.2 fun hm => hzero (List.mem_of_mem_take hm)

end Utf8

end Text

namespace Source

theorem row_pointFrom (row column n : Nat) (bytes : List UInt8) :
    (pointFrom row column n bytes).row = row + (bytes.take n).count 10 := by
  induction n generalizing row column bytes with
  | zero => rfl
  | succ n ih =>
    cases bytes with
    | nil => rfl
    | cons b bytes =>
      rw [pointFrom, List.take_succ_cons, List.count_cons]
      split
      · rename_i hb
        rw [ih, hb]
        simp
        omega
      · rename_i hb
        rw [ih]
        simp [hb]

/-- The line that a place in a text starts on has the number of the place. -/
theorem splitLines_row (file : String) (text : List Char) (n : Nat) :
    (Text.splitLines text)[(point ⟨file, Text.Utf8.encode (String.ofList text)⟩ n).row]? =
      some (Text.lineAt text n) := by
  have hline := Text.splitLines_append (text.take (Text.charsBefore n text))
    (text.drop (Text.charsBefore n text))
  rw [List.take_append_drop] at hline
  rw [point, row_pointFrom, Text.Utf8.count_take_encode, Nat.zero_add]
  exact hline

end Source

open Text

/-- Places in the inventory of a text are places in the text. -/
theorem Inventory.spanned_ofText {o : ReadOptions} {file : String} {text : List Char}
    {l : Location} (h : l ∈ (Inventory.ofText o file text).locations) :
    Source.Spanned ⟨file, Utf8.encode (String.ofList text)⟩ l := by
  unfold Inventory.ofText ReadSource.ofText at h
  split at h
  · exact absurd h List.not_mem_nil
  · split at h
    · exact Inventory.spanned_of_mem_locations h
    · exact absurd h List.not_mem_nil

/-- The line of an issue is the one whose number its place has. -/
theorem Fix.lineOf?_of_getElem? {lines : List String} {i : Issue} {l : Location} {k : Nat}
    {line : String} (hi : i.location = some l) (hk : l.startLine = k + 1)
    (hline : lines[k]? = some line) : Fix.lineOf? lines i = some (l.startLine, line) := by
  have hn : i.line = some (k + 1 : Int) := by rw [Issue.line, hi, Option.map_some, hk]
  have hidx : ((k : Int) + 1 - 1).toNat = k := by omega
  have hpos : guard (1 ≤ (k : Int) + 1) = some () :=
    (Option.guard_eq_some' ()).2 (by omega)
  simp only [Fix.lineOf?, hn, hk, Option.bind_eq_bind, Option.bind_some, hidx, hline, hpos]
  rfl

namespace Text

/-- Of lines that are the same up to carriage returns, each has its counterpart. -/
theorem SameLines.getElem? {ls ls' : List (List Char)} (h : SameLines ls ls') {k : Nat}
    {line : List Char} (hline : ls[k]? = some line) :
    ∃ line', ls'[k]? = some line' ∧ dropTrailing '\r' line' = dropTrailing '\r' line := by
  have hk := congrArg (·[k]?) h
  simp only [List.getElem?_map, hline, Option.map_some] at hk
  obtain ⟨line', hl', he⟩ := Option.map_eq_some_iff.1 hk.symm
  exact ⟨line', hl', he⟩

theorem toList_lines (cs : List Char) :
    (lines (String.ofList cs)).map String.toList = splitLines cs := by
  rw [lines, splitAtChar, String.toList_ofList, List.map_map]
  exact (List.map_congr_left fun _ _ => String.toList_ofList).trans (List.map_id _)

end Text

/-- The text that exports are found in has one line more than the lines that are edited for every
carriage return that stands alone. The two hold the same lines exactly if none does, and then every
place of an export or an import leads to the line around its start. -/
theorem Disk.lines_numbered_alike_iff {d : Disk} {file : String} {bytes : List UInt8}
    {cs : List Char} (hfile : d.isFile file = true) (hb : d.readBytes file = .ok bytes)
    (hcs : Utf8.decode bytes = .ok cs) :
    ∃ text lines, (Sources.onDisk d).text file = .ok text ∧ d.readLines file = .ok lines ∧
      (splitLines text).length = lines.length + loneReturns cs ∧
      (SameLines (splitLines text) (lines.map String.toList) ↔ ReturnsPaired cs) ∧
      (ReturnsPaired cs → ∀ o, ∀ l ∈ (Inventory.ofText o file text).locations,
        ∃ first last : Node,
          l = Source.span ⟨file, Utf8.encode (String.ofList text)⟩ first last ∧
          ∀ i : Issue, i.location = some l →
            ∃ line, Fix.lineOf? lines i = some (l.startLine, line) ∧
              dropTrailing '\r' line.toList = dropTrailing '\r' (lineAt text first.start)) := by
  refine ⟨universalNewlines cs, lines (String.ofList cs), ?_, ?_, ?_, ?_, ?_⟩
  · simp only [Sources.text, hfile, if_true, Disk.readText, hb, hcs]
  · simp only [Disk.readLines, hb, hcs]
  · rw [← List.length_map (f := String.toList), toList_lines, length_splitLines, length_splitLines,
      count_universalNewlines]
    omega
  · rw [toList_lines, sameLines_iff]
  · intro hpaired o l hl
    obtain ⟨first, last, hspan⟩ := Inventory.spanned_ofText hl
    refine ⟨first, last, hspan, fun i hi => ?_⟩
    have hrow := Source.splitLines_row file (universalNewlines cs) first.start
    have hsame := sameLines_iff.2 hpaired
    rw [← toList_lines cs] at hsame
    obtain ⟨line', hline', he⟩ := hsame.getElem? hrow
    rw [List.getElem?_map] at hline'
    obtain ⟨line, hline, rfl⟩ := Option.map_eq_some_iff.1 hline'
    exact ⟨line, Fix.lineOf?_of_getElem? hi (by rw [hspan]; rfl) hline, he⟩

/-- The text `a;\rb;\n`, in bytes. -/
def returnBytes : List UInt8 := [97, 59, 13, 98, 59, 10]

/-- A file with a carriage return that stands alone. -/
def returnDisk : Disk := ⟨[], [(["a.ts"], .file (.ordinary returnBytes))]⟩

/-- Its exports are found in three lines, and two are edited. -/
theorem returnDisk_numbered_apart : ∃ text lines,
    (Sources.onDisk returnDisk).text "a.ts" = .ok text ∧ returnDisk.readLines "a.ts" = .ok lines ∧
      (splitLines text).length = lines.length + 1 ∧
      ¬SameLines (splitLines text) (lines.map String.toList) := by
  have hbytes : returnDisk.readBytes "a.ts" = .ok returnBytes := rfl
  have hchars : Utf8.decode returnBytes = .ok ['a', ';', '\r', 'b', ';', '\n'] := rfl
  obtain ⟨text, lines, htext, hlines, hcount, hsame, -⟩ :=
    Disk.lines_numbered_alike_iff rfl hbytes hchars
  refine ⟨text, lines, htext, hlines, hcount, fun h => ?_⟩
  rw [hsame, ← loneReturns_eq_zero_iff] at h
  exact absurd h (by decide)

end ExportLint
