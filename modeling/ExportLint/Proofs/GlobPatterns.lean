import ExportLint.Proofs.GlobLanguage
import ExportLint.Proofs.PatternStretches
import ExportLint.Proofs.PatternTexts

/-!
# Globs and their patterns

The pattern that a glob is written as is read back item by item, one for each token, and an item
takes the stretches that its token takes. The choices of a search then go through all ways to divide
a path over the tokens, so that the pattern matches what the glob describes, which can be said on
the characters of the glob themselves.
-/
namespace ExportLint.Glob

open Pattern (Partial Reader Groups Next Position run readSequence)

variable {fuel : Nat} {first : Bool} {g : Groups} {ts : List Token} {k : Next} {path : String}

/-- What a token is written as, cut into tokens of a pattern. -/
def Token.written : Token → List Pattern.Token
  | .directories => [.char '(', .char '?', .char ':', .char '.', .char '*', Pattern.literal '/',
      .char ')', .char '?']
  | .anything => [.char '.', .char '*']
  | .withinStep => [.char '[', .char '^', .char '/', .char ']', .char '*']
  | .oneChar => [.char '[', .char '^', .char '/', .char ']']
  | .literal c => [Pattern.literal c]

/-- Any character but a slash. -/
def offSlash : Pattern := .cls {} true [.char 47]

/-- What a token is read as. -/
def Token.pattern : Token → Pattern
  | .directories =>
    .rep 0 (some 1) .most (.seq (.seq .empty (.rep 0 none .most (.any {}))) (.char {} 47))
  | .anything => .rep 0 none .most (.any {})
  | .withinStep => .rep 0 none .most offSlash
  | .oneChar => offSlash
  | .literal c => .char {} c.toNat

/-- What may follow the pattern of a token. -/
def Token.last : Token → Pattern.Last
  | .directories | .anything | .withinStep => .repeated
  | .oneChar | .literal _ => .item

theorem flatMap_text_written (t : Token) :
    t.written.flatMap Pattern.Token.text = t.patternText := by
  cases t with
  | literal c =>
    rw [Token.written, List.flatMap_singleton]
    exact Pattern.text_literal c
  | _ => decide

theorem char_backslash_notMem_written (t : Token) : .char '\\' ∉ t.written := by
  cases t with
  | literal c =>
    rw [Token.written, List.mem_singleton]
    exact fun h => Pattern.literal_ne (by decide) c h.symm
  | _ => decide

/-- The tokens that a glob's pattern is cut into. -/
theorem tokens_patternText (glob : String) :
    Pattern.tokens (patternText glob).toList =
      .ok (.char '^' :: ((tokens glob.toList).flatMap Token.written ++ [.char '$'])) := by
  have htext : (patternText glob).toList =
      (Pattern.Token.char '^' :: ((tokens glob.toList).flatMap Token.written ++
        [Pattern.Token.char '$'])).flatMap Pattern.Token.text := by
    simp [patternText, Pattern.Token.text, List.flatMap_assoc, flatMap_text_written]
  rw [htext]
  refine Pattern.tokens_flatMap_text ?_
  simp only [List.mem_cons, List.mem_append, List.mem_flatMap, not_or, not_exists, not_and]
  exact ⟨by decide, fun t _ => char_backslash_notMem_written t, by decide, List.not_mem_nil⟩

/-- No token is written with a mark first, which would change the repetition in front of it. -/
theorem not_startsMark (ts : List Token) :
    ¬Pattern.StartsMark (ts.flatMap Token.written ++ [.char '$']) := by
  cases ts with
  | nil => exact fun h => h.elim (by decide) (by decide)
  | cons t ts =>
    cases t with
    | literal c =>
      rintro (h | h)
      · exact Pattern.literal_ne (by decide) c (Option.some.inj h)
      · exact Pattern.literal_ne (by decide) c (Option.some.inj h)
    | _ => simp [Pattern.StartsMark, Token.written]

/-- A class of one character is read as such. -/
theorem readSequence_offSlash {s : Partial} {rest : List Pattern.Token} :
    readSequence (fuel + 1) first s
        ⟨{}, g, .char '[' :: .char '^' :: .char '/' :: .char ']' :: rest⟩ =
      readSequence fuel first (s.push offSlash .item) ⟨{}, g, rest⟩ := by
  rw [readSequence]
  rfl

/-- A token is read as its pattern, in two steps at most. -/
theorem exists_readSequence_written (fuel : Nat) (s : Partial) (t : Token)
    {rest : List Pattern.Token} (h : ¬Pattern.StartsMark rest) :
    ∃ m, fuel + 6 ≤ m ∧ readSequence (fuel + 8) first s ⟨{}, g, t.written ++ rest⟩ =
      readSequence m first (s.push t.pattern t.last) ⟨{}, g, rest⟩ := by
  cases t with
  | directories =>
    have hgroup : readSequence (fuel + 8) first s ⟨{}, g, Token.written .directories ++ rest⟩ =
        readSequence (fuel + 7) first
          (s.push (.seq (.seq .empty (.rep 0 none .most (.any {}))) (.char {} 47)) .item)
          ⟨{}, g, .char '?' :: rest⟩ := by
      rw [readSequence]
      rfl
    exact ⟨fuel + 6, Nat.le_refl _, hgroup.trans (Pattern.readSequence_repetition rfl h)⟩
  | anything =>
    exact ⟨fuel + 6, Nat.le_refl _,
      (Pattern.readSequence_sign rfl).trans (Pattern.readSequence_repetition rfl h)⟩
  | withinStep =>
    exact ⟨fuel + 6, Nat.le_refl _,
      readSequence_offSlash.trans (Pattern.readSequence_repetition rfl h)⟩
  | oneChar => exact ⟨fuel + 7, by omega, readSequence_offSlash⟩
  | literal c => exact ⟨fuel + 7, by omega, Pattern.readSequence_literal c⟩

/-- The patterns of some tokens, pushed one after the other. -/
def pushed (s : Partial) (ts : List Token) : Partial :=
  ts.foldl (fun s t => s.push t.pattern t.last) s

/-- The tokens are read one by one up to the sign that ends the pattern. -/
theorem exists_readSequence_tokens (s : Partial) (hfuel : 2 * ts.length + 8 ≤ fuel) :
    ∃ m, 8 ≤ m ∧ readSequence fuel first s
        ⟨{}, g, ts.flatMap Token.written ++ [.char '$']⟩ =
      readSequence m first (pushed s ts) ⟨{}, g, [.char '$']⟩ := by
  induction ts generalizing fuel s with
  | nil => exact ⟨fuel, by omega, rfl⟩
  | cons t ts ih =>
    rw [List.length_cons] at hfuel
    obtain ⟨n, rfl⟩ := Nat.exists_eq_add_of_le' (show 8 ≤ fuel by omega)
    obtain ⟨m, hm, hread⟩ := exists_readSequence_written n s t (not_startsMark ts)
    obtain ⟨m', hm', hrest⟩ := ih (s.push t.pattern t.last) (by omega : 2 * ts.length + 8 ≤ m)
    refine ⟨m', hm', ?_⟩
    rw [List.flatMap_cons, List.append_assoc, hread, hrest]
    rfl

/-- The pattern that a glob's text is read as. -/
def pattern (ts : List Token) : Pattern :=
  ((pushed (Partial.start.push (.anchor {} .lineStart) .anchor) ts).push
    (.anchor {} .lineEnd) .anchor).pattern

theorem length_le_flatMap_written (ts : List Token) :
    ts.length ≤ (ts.flatMap Token.written).length := by
  induction ts with
  | nil => exact Nat.zero_le _
  | cons t ts ih =>
    have ht : 0 < t.written.length := by cases t <;> exact Nat.succ_pos _
    rw [List.flatMap_cons, List.length_append, List.length_cons]
    omega

/-- The text of a glob's pattern can be read. -/
theorem read_patternText (glob : String) :
    Pattern.read (patternText glob) = .ok (pattern (tokens glob.toList)) := by
  have hlength := length_le_flatMap_written (tokens glob.toList)
  rw [Pattern.read, tokens_patternText]
  dsimp only [bind, Except.bind]
  -- The fuel is counted by the characters of the text, and each token has at least one.
  generalize hfuel : 4 * _ + 8 = fuel
  rw [List.length_cons, List.length_append, List.length_singleton] at hfuel
  obtain ⟨n, rfl⟩ := Nat.exists_eq_add_of_le' (show 3 ≤ fuel by omega)
  obtain ⟨m, hm, hread⟩ := exists_readSequence_tokens
    (Partial.start.push (.anchor {} .lineStart) .anchor)
    (by omega : 2 * (tokens glob.toList).length + 8 ≤ n + 1)
  obtain ⟨m, rfl⟩ := Nat.exists_eq_add_of_le' hm
  rw [Pattern.readAlternatives, Pattern.readSequence_sign rfl, hread,
    Pattern.readSequence_sign rfl, Pattern.readSequence_end]
  rfl

theorem takes_char (c : Char) : Pattern.Takes (run (.char {} c.toNat)) (· = [c]) := by
  refine (Pattern.takes_step _).congr fun a => ?_
  simp [Pattern.charMatches, Char.toNat_inj]

theorem offSlash_eq : run offSlash = Pattern.step (· != '/') := by
  rw [offSlash, run]
  congr 1
  funext c
  have hcode : (c.toNat == 47) = (c == '/') := by
    rw [Bool.eq_iff_iff, beq_iff_eq, beq_iff_eq]
    exact Char.toNat_inj (c := c) (d := '/')
  simp [Pattern.classMatches, Pattern.ClassItem.holds, Pattern.charMatches, hcode, bne]

/-- A token's pattern takes what the token takes. -/
theorem takes_pattern (t : Token) : Pattern.Takes (run t.pattern) t.Takes := by
  cases t with
  | directories =>
    refine (Pattern.takes_optional (Pattern.takes_seq (Pattern.takes_seq Pattern.takes_empty
      (Pattern.takes_star rfl)) (takes_char '/'))).congr fun a => or_congr_right ?_
    constructor
    · rintro ⟨_, _, rfl, ⟨_, lead, rfl, rfl, hlead⟩, rfl⟩
      exact ⟨lead, rfl, by simpa [List.forall_mem_ne'] using hlead⟩
    · rintro ⟨lead, rfl, hlead⟩
      exact ⟨lead, ['/'], rfl, ⟨[], lead, rfl, rfl, by simpa [List.forall_mem_ne'] using hlead⟩,
        rfl⟩
  | anything =>
    refine (Pattern.takes_star rfl).congr fun a => ?_
    simp [Token.Takes, List.forall_mem_ne']
  | withinStep =>
    refine (Pattern.takes_star offSlash_eq).congr fun a => ?_
    simp [Token.Takes, List.forall_mem_ne']
  | oneChar =>
    rw [Token.pattern, offSlash_eq]
    refine (Pattern.takes_step _).congr fun a => ?_
    simp [Token.Takes]
  | literal c => exact takes_char c

/-- The patterns of some tokens take what the tokens take. -/
theorem takes_foldr (ts : List Token) :
    Pattern.Takes (fun k => ts.foldr (fun t k => run t.pattern k) k) (Takes ts) := by
  induction ts with
  | nil => exact Pattern.takes_empty
  | cons t ts ih => exact Pattern.takes_then (takes_pattern t) ih

@[simp] theorem last_push (s : Partial) (p : Pattern) (last : Pattern.Last) :
    (s.push p last).last = last := by
  obtain ⟨before, hpush⟩ := Pattern.push_eq s
  rw [hpush]

theorem run_push {s : Partial} (hs : s.last ≠ .nothing) (p : Pattern) (last : Pattern.Last) :
    run (s.push p last).pattern k = run s.pattern (run p k) := by
  unfold Partial.push
  split
  · exact absurd ‹_› hs
  · rfl

/-- What is pushed for some tokens runs behind what was there. -/
theorem run_pushed (ts : List Token) (k : Next) {s : Partial} (hs : s.last ≠ .nothing) :
    (pushed s ts).last ≠ .nothing ∧ run (pushed s ts).pattern k =
      run s.pattern (ts.foldr (fun t k => run t.pattern k) k) := by
  induction ts generalizing s with
  | nil => exact ⟨hs, rfl⟩
  | cons t ts ih =>
    have hlast : (s.push t.pattern t.last).last ≠ .nothing := by
      rw [last_push]
      cases t <;> exact Pattern.Last.noConfusion
    obtain ⟨hpushed, hrun⟩ := ih hlast
    exact ⟨hpushed, hrun.trans (run_push hs _ _)⟩

/-- A glob's pattern matches what the glob matches. -/
theorem occursAtStart_pattern_iff :
    (pattern ts).occursAtStart path = true ↔ Matches ts path.toList := by
  have hstart : (Partial.start.push (.anchor {} .lineStart) .anchor).last ≠ .nothing := by simp
  obtain ⟨hlast, hrun⟩ := run_pushed ts (run (.anchor {} .lineEnd) some) hstart
  have hend (a b : List Char) :
      (run (.anchor {} .lineEnd) some (Position.behind ⟨[], path.toList, []⟩ a b)).isSome = true ↔
        b = [] ∨ b = ['\n'] := by
    simp [run, Position.satisfies]
  rw [Pattern.occursAtStart, pattern, run_push hlast, hrun]
  -- At the start of the text the first anchor holds.
  change (ts.foldr (fun t k => run t.pattern k) (run (.anchor {} .lineEnd) some)
    ⟨[], path.toList, []⟩).isSome = true ↔ _
  rw [takes_foldr ts]
  simp only [hend]
  constructor
  · rintro ⟨a, _, hpath, ha, rfl | rfl⟩
    · rw [List.append_nil] at hpath
      exact .inl (hpath ▸ ha)
    · exact .inr ⟨a, hpath, ha⟩
  · rintro (h | ⟨lead, hpath, hlead⟩)
    · exact ⟨path.toList, [], (List.append_nil _).symm, h, .inl rfl⟩
    · exact ⟨lead, ['\n'], hpath, hlead, .inr rfl⟩

/-- What a glob describes, read from left to right: two stars with a slash stand for nothing or for
anything that ends in a slash, two stars for anything, one star for anything without a slash, a
question mark for a character other than a slash, and any other character for itself. -/
inductive Describes : List Char → List Char → Prop
  | nil : Describes [] []
  | noDirectories {g cs : List Char} (h : Describes g cs) : Describes ('*' :: '*' :: '/' :: g) cs
  | directories {g cs : List Char} (lead : List Char) (h : Describes g cs) :
    Describes ('*' :: '*' :: '/' :: g) (lead ++ '/' :: cs)
  | anything {g cs : List Char} (hg : g.head? ≠ some '/') (a : List Char) (h : Describes g cs) :
    Describes ('*' :: '*' :: g) (a ++ cs)
  | withinStep {g cs : List Char} (hg : g.head? ≠ some '*') (a : List Char) (ha : '/' ∉ a)
    (h : Describes g cs) : Describes ('*' :: g) (a ++ cs)
  | oneChar {g cs : List Char} {c : Char} (hc : c ≠ '/') (h : Describes g cs) :
    Describes ('?' :: g) (c :: cs)
  | literal {g cs : List Char} {c : Char} (hstar : c ≠ '*') (hmark : c ≠ '?') (h : Describes g cs) :
    Describes (c :: g) (c :: cs)

theorem head?_ne_iff {l : List Char} {c : Char} :
    l.head? ≠ some c ↔ ∀ cs, l = c :: cs → False := by
  cases l <;> simp

theorem describes_of_takes {glob cs : List Char} (h : Takes (tokens glob) cs) :
    Describes glob cs := by
  fun_induction tokens glob generalizing cs with
  | case1 g ih =>
    obtain ⟨_, b, rfl, rfl | ⟨lead, rfl, -⟩, hb⟩ := h
    · exact .noDirectories (ih hb)
    · rw [List.append_assoc]
      exact .directories lead (ih hb)
  | case2 g hg ih =>
    obtain ⟨a, b, rfl, -, hb⟩ := h
    exact .anything (head?_ne_iff.2 hg) a (ih hb)
  | case3 g _ hg ih =>
    obtain ⟨a, b, rfl, ha, hb⟩ := h
    exact .withinStep (head?_ne_iff.2 hg) a ha (ih hb)
  | case4 g ih =>
    obtain ⟨_, b, rfl, ⟨c, hc, rfl⟩, hb⟩ := h
    exact .oneChar hc (ih hb)
  | case5 c g _ _ hstar hmark ih =>
    obtain ⟨_, b, rfl, rfl, hb⟩ := h
    exact .literal hstar hmark (ih hb)
  | case6 =>
    cases h
    exact .nil

/-- What a glob describes is taken by its tokens, unless there is a line feed in it. -/
theorem takes_of_describes {glob cs : List Char} (h : Describes glob cs) (hcs : '\n' ∉ cs) :
    Takes (tokens glob) cs := by
  have hright {a b : List Char} (h : '\n' ∉ a ++ b) : '\n' ∉ b :=
    fun hb => h (List.mem_append_right a hb)
  have hleft {a b : List Char} (h : '\n' ∉ a ++ b) : '\n' ∉ a :=
    fun ha => h (List.mem_append_left b ha)
  induction h with
  | nil => exact rfl
  | noDirectories h ih => exact ⟨[], _, rfl, .inl rfl, ih hcs⟩
  | directories lead h ih =>
    refine ⟨lead ++ ['/'], _, List.append_cons lead '/' _, .inr ⟨lead, rfl, hleft hcs⟩, ih ?_⟩
    exact List.not_mem_of_not_mem_cons (hright hcs)
  | anything hg a h ih =>
    rw [tokens]
    · exact ⟨a, _, rfl, hleft hcs, ih (hright hcs)⟩
    · exact head?_ne_iff.1 hg
  | withinStep hg a ha h ih =>
    rw [tokens]
    · exact ⟨a, _, rfl, ha, ih (hright hcs)⟩
    · exact fun cs he => hg (he ▸ rfl)
    · exact head?_ne_iff.1 hg
  | @oneChar _ _ c hc h ih =>
    exact ⟨[c], _, rfl, ⟨c, hc, rfl⟩, ih (List.not_mem_of_not_mem_cons hcs)⟩
  | @literal _ _ c hstar hmark h ih =>
    rw [tokens]
    · exact ⟨[c], _, rfl, rfl, ih (List.not_mem_of_not_mem_cons hcs)⟩
    all_goals grind

/-- Without line feeds a glob matches what it describes. -/
theorem matches_tokens_iff {glob cs : List Char} (hcs : '\n' ∉ cs) :
    Matches (tokens glob) cs ↔ Describes glob cs := by
  constructor
  · rintro (h | ⟨lead, rfl, -⟩)
    · exact describes_of_takes h
    · exact absurd (List.mem_append_right lead (List.mem_singleton_self _)) hcs
  · exact fun h => .inl (takes_of_describes h hcs)

/-- A path without line feeds matches the pattern of a glob exactly if the glob describes it. The
text of that pattern can always be read, and the matcher that a scan uses decides the same. -/
theorem glob_matches_described (path : String) (hpath : '\n' ∉ path.toList) :
    (∀ glob, ∃ p, Pattern.read (patternText glob) = .ok p ∧
      (p.occursAtStart path = true ↔ Describes glob.toList path.toList) ∧
      (globMatches glob path = true ↔ Describes glob.toList path.toList)) ∧
    ∀ globs, matchesAny globs path = true ↔
      ∃ glob ∈ globs, Describes glob.toList path.toList := by
  have hmatches (glob : String) : globMatches glob path = true ↔
      Describes glob.toList path.toList := by
    rw [globMatches, matchTokens_iff, matches_tokens_iff hpath]
  refine ⟨fun glob => ⟨pattern (tokens glob.toList), read_patternText glob, ?_, hmatches glob⟩,
    fun globs => ?_⟩
  · rw [occursAtStart_pattern_iff, matches_tokens_iff hpath]
  · rw [matchesAny, List.any_eq_true]
    exact exists_congr fun glob => and_congr_right fun _ => hmatches glob

/-- A file below two directories is described by its ending, and not by the files of one of them. -/
theorem sourceGlob_described :
    '\n' ∉ "src/app/main.ts".toList ∧
      (∃ p, Pattern.read (patternText "**/*.ts") = .ok p ∧
        p.occursAtStart "src/app/main.ts" = true) ∧
      Describes "**/*.ts".toList "src/app/main.ts".toList ∧
      ¬Describes "src/*.ts".toList "src/app/main.ts".toList ∧
      matchesAny ["src/*.ts", "**/*.ts"] "src/app/main.ts" = true := by
  have hpath : '\n' ∉ "src/app/main.ts".toList := by decide
  obtain ⟨hone, hany⟩ := glob_matches_described "src/app/main.ts" hpath
  obtain ⟨p, hread, hfound, hts⟩ := hone "**/*.ts"
  obtain ⟨-, -, -, hsrc⟩ := hone "src/*.ts"
  have hdescribed : Describes "**/*.ts".toList "src/app/main.ts".toList :=
    hts.1 (by decide +kernel)
  have hno : globMatches "src/*.ts" "src/app/main.ts" = false := by decide +kernel
  refine ⟨hpath, ⟨p, hread, hfound.2 hdescribed⟩, hdescribed, fun h => ?_,
    (hany _).2 ⟨"**/*.ts", by simp, hdescribed⟩⟩
  rw [hsrc.2 h] at hno
  cases hno

end ExportLint.Glob
