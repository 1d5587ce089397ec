import Mathlib.Data.List.Infix
import Mathlib.Data.List.TakeWhile
import ScopedScript.Proofs.Scanning

/-! # Tokens put apart

A token is read off its own characters: what comes before it and after it decides where it starts
and ends, and nothing else.  So if the lexemes of a source are written down again with a space
between each two of them, the same tokens come out (`scan_joined_lexemes`).

The greedy rules of the scanner are what this depends on.  A piece is taken as far as it goes, and
a space goes on with no piece; so behind a lexeme a space ends the piece where it has ended before
(`Piece.ofSource_lexeme`), and nothing that has been apart grows together. -/

namespace ScopedScript

/-- What a token says, wherever it stands. -/
def Token.reading (t : Token) : Token.Kind × String × Option Token.Literal :=
  (t.kind, t.lexeme, t.literal)

/-- A space, or nothing at all, comes next. -/
def Breaks (more : List Char) : Prop := ∀ c ∈ more.head?, c = ' '

/-- The lexemes of tokens with a space between each two of them. -/
def spaced (tokens : List Token) : List Char := [' '].intercalate (tokens.map (·.lexeme.toList))

theorem spaced_cons (t : Token) {ts : List Token} (h : ts ≠ []) :
    spaced (t :: ts) = t.lexeme.toList ++ ' ' :: spaced ts := by
  obtain ⟨u, us, rfl⟩ := List.exists_cons_of_ne_nil h
  simp [spaced, List.intercalate]

theorem breaks_nil : Breaks [] := by simp [Breaks]

theorem breaks_space (cs : List Char) : Breaks (' ' :: cs) := by simp [Breaks]

/-! ### Pieces -/

namespace Piece

section

variable {p : Char → Bool} {xs more : List Char}

/-- A row of characters that a space does not go on with. -/
theorem takeWhile_breaks (hp : p ' ' = false) (hxs : ∀ x ∈ xs, p x = true) (hmore : Breaks more) :
    (xs ++ more).takeWhile p = xs := by
  rw [List.takeWhile_append_of_pos hxs]
  cases more with
  | nil => simp
  | cons d more =>
    obtain rfl := hmore d rfl
    simp [hp]

theorem dropWhile_breaks (hp : p ' ' = false) (hxs : ∀ x ∈ xs, p x = true) (hmore : Breaks more) :
    (xs ++ more).dropWhile p = more := by
  rw [List.dropWhile_append_of_pos hxs]
  cases more with
  | nil => simp
  | cons d more =>
    obtain rfl := hmore d rfl
    simp [hp]

/-- What has no space in it does not reach beyond a space. -/
theorem prefix_of_breaks {ys : List Char} (hxs : ' ' ∉ xs) (hmore : Breaks more)
    (h : xs <+: ys ++ more) : xs <+: ys := by
  rcases Nat.le_total xs.length ys.length with hle | hle
  · exact List.prefix_of_prefix_length_le h (List.prefix_append ys more) hle
  · obtain ⟨zs, rfl⟩ := List.prefix_of_prefix_length_le (List.prefix_append ys more) h hle
    obtain ⟨tail, htail⟩ := (List.prefix_append_right_inj ys).1 h
    cases zs with
    | nil => simp
    | cons d zs =>
      obtain rfl := hmore d (by rw [← htail]; rfl)
      simp at hxs

end

variable {c : Char} {cs lexeme rest more : List Char} {kind : Token.Kind}
  {literal : Option Token.Literal}

theorem string_lexeme {body : List Char} (h : string body = .token kind literal lexeme rest)
    (more : List Char) :
    ∃ tail, lexeme = '"' :: tail ∧ string (tail ++ more) = .token kind literal lexeme more := by
  unfold string at h
  dsimp only at h
  split at h
  · cases h
    have hinside : ∀ x ∈ body.takeWhile (· != '"'), (x != '"') = true := fun x hx =>
      List.mem_takeWhile_imp (p := (· != '"')) hx
    refine ⟨_, rfl, ?_⟩
    unfold string
    rw [List.append_assoc, List.takeWhile_append_of_pos hinside, List.dropWhile_append_of_pos hinside]
    simp
  · cases h

theorem number_lexeme {source : List Char} (h : number source = .token kind literal lexeme rest)
    (hmore : Breaks more) : number (lexeme ++ more) = .token kind literal lexeme more := by
  have hspace : Text.isDigit ' ' = false := by decide
  have hwhole : ∀ x ∈ source.takeWhile Text.isDigit, Text.isDigit x = true := fun x hx =>
    List.mem_takeWhile_imp hx
  -- digits alone: a space or nothing behind them is no point
  have hinteger : number (source.takeWhile Text.isDigit ++ more) =
      .token .number (some (.num (Number.ofDigits (source.takeWhile Text.isDigit) [])))
        (source.takeWhile Text.isDigit) more := by
    unfold number
    rw [takeWhile_breaks hspace hwhole hmore, dropWhile_breaks hspace hwhole hmore]
    dsimp only
    split
    · next tail heq => cases hmore '.' rfl
    · rfl
  unfold number at h
  dsimp only at h
  split at h
  · next tail heq =>
    split at h
    · cases h
      exact hinteger
    · next hfraction =>
      cases h
      have hdigits : ∀ x ∈ tail.takeWhile Text.isDigit, Text.isDigit x = true := fun x hx =>
        List.mem_takeWhile_imp hx
      have hdot : Text.isDigit '.' = false := by decide
      unfold number
      rw [List.append_assoc, List.cons_append, takeWhile_append_cons _ _ hdot,
        dropWhile_append_cons _ _ hdot, List.takeWhile_eq_self_iff.2 hwhole,
        List.dropWhile_eq_nil_iff.2 hwhole]
      simp only [List.nil_append, takeWhile_breaks hspace hdigits hmore,
        dropWhile_breaks hspace hdigits hmore, if_neg hfraction]
  · cases h
    exact hinteger

theorem symbol_lexeme {source : List Char} (h : symbol c source = .token kind literal lexeme rest)
    (hmore : Breaks more) : symbol c (lexeme ++ more) = .token kind literal lexeme more := by
  have hsymbols : ∀ s ∈ symbols, ' ' ∉ s.1 := by decide
  unfold symbol at h
  split at h
  · next found kind' hfind =>
    cases h
    obtain ⟨hstarts, before, after, hsplit, hbefore⟩ := List.find?_eq_some_iff_append.1 hfind
    have hsource : lexeme <+: source := List.isPrefixOf_iff_prefix.1 hstarts
    -- a symbol that fits now has fitted before
    have hagain : symbols.find? (fun s => s.1.isPrefixOf (lexeme ++ more)) = some (lexeme, kind) := by
      refine List.find?_eq_some_iff_append.2 ⟨?_, before, after, hsplit, fun s hs => ?_⟩
      · exact List.isPrefixOf_iff_prefix.2 (List.prefix_append lexeme more)
      · have hmem : s ∈ symbols := by
          rw [hsplit]
          exact List.mem_append_left _ hs
        have hnot := hbefore s hs
        simp only [Bool.not_eq_true', ← Bool.not_eq_true, List.isPrefixOf_iff_prefix] at hnot ⊢
        exact fun hnow => hnot ((prefix_of_breaks (hsymbols s hmem) hmore hnow).trans hsource)
    unfold symbol
    rw [hagain]
    simp
  · cases h

/-- A lexeme starts with the piece that it has been, if a space or nothing comes behind it. -/
theorem ofSource_lexeme (h : ofSource c cs = .token kind literal lexeme rest) :
    ∃ tail, lexeme = c :: tail ∧
      ∀ more, Breaks more → ofSource c (tail ++ more) = .token kind literal lexeme more := by
  obtain ⟨hne, happ⟩ := token_splits h
  obtain ⟨tail, rfl⟩ : ∃ tail, lexeme = c :: tail := by
    cases lexeme with
    | nil => exact absurd rfl hne
    | cons d tail => exact ⟨tail, by rw [(List.cons.inj happ).1]⟩
  have hcs : tail ++ rest = cs := (List.cons.inj happ).2
  refine ⟨tail, rfl, fun more hmore => ?_⟩
  -- no comment starts with the lexeme, unless one has started there
  have hhead (d : Char) (hd : d ≠ ' ') (hnext : cs.head? ≠ some d) :
      (tail ++ more).head? ≠ some d := by
    cases tail with
    | nil => exact fun heq => hd (hmore d heq)
    | cons e tail => rwa [← hcs] at hnext
  unfold ofSource at h ⊢
  split_ifs at h with hfeed hblank hquote hdigit hname hline hblock
  · cases h
    rw [if_pos hfeed]
    simp
  · rw [if_neg hfeed, if_neg hblank, if_pos hquote]
    obtain ⟨tail', htail, hstring⟩ := string_lexeme h more
    obtain ⟨-, rfl⟩ := List.cons.inj htail
    exact hstring
  · rw [if_neg hfeed, if_neg hblank, if_neg hquote, if_pos hdigit]
    exact number_lexeme h hmore
  · rw [if_neg hfeed, if_neg hblank, if_neg hquote, if_neg hdigit, if_pos hname]
    have hspace : Text.isNamePart ' ' = false := by decide
    obtain ⟨rfl, rfl, hletters, rfl⟩ := Piece.token.inj h
    have hall : ∀ x ∈ c :: tail, Text.isNamePart x = true := fun x hx => by
      rw [← hletters] at hx
      exact List.mem_takeWhile_imp hx
    unfold word
    rw [← List.cons_append, takeWhile_breaks hspace hall hmore, dropWhile_breaks hspace hall hmore,
      ← hletters]
  · cases h
  · unfold blockComment at h
    split at h <;> cases h
  · have hline' : ¬(c = '/' ∧ (tail ++ more).head? = some '/') := fun hslash =>
      hhead '/' (by decide) (fun heq => hline ⟨hslash.1, heq⟩) hslash.2
    have hblock' : ¬(c = '/' ∧ (tail ++ more).head? = some '*') := fun hslash =>
      hhead '*' (by decide) (fun heq => hblock ⟨hslash.1, heq⟩) hslash.2
    rw [if_neg hfeed, if_neg hblank, if_neg hquote, if_neg hdigit, if_neg hname, if_neg hline',
      if_neg hblock']
    exact symbol_lexeme h hmore

end Piece

/-! ### Sources -/

namespace Scan

variable {c : Char} {cs lexeme rest : List Char} {kind : Token.Kind}
  {literal : Option Token.Literal}

/-- A lexeme at the front of a source, with a space or nothing behind it. -/
theorem start_lexeme (h : Piece.ofSource c cs = .token kind literal lexeme rest) (p : Position)
    (i : Nat) {more : List Char} (hmore : Breaks more) :
    start p i (lexeme ++ more) =
      ⟨Token.make kind (String.ofList lexeme) p.line p.column i literal ::
        (start (p.after lexeme) (i + 1) more).tokens,
        (start (p.after lexeme) (i + 1) more).error⟩ := by
  obtain ⟨tail, rfl, hpiece⟩ := Piece.ofSource_lexeme h
  exact start_token (hpiece more hmore)

theorem start_space (p : Position) (i : Nat) (more : List Char) :
    start p i (' ' :: more) = start (p.after [' ']) i more :=
  start_skip rfl

/-- The lexemes of a source with a space between each two of them, wherever this is put. -/
theorem start_joined (p : Position) (i : Nat) (source : List Char)
    (h : (start p i source).error = none) (q : Position) (j : Nat) :
    (start q j (spaced (start p i source).tokens)).error = none ∧
      (start q j (spaced (start p i source).tokens)).tokens.map Token.reading =
        (start p i source).tokens.map Token.reading := by
  fun_induction start p i source generalizing q j with
  | case1 p i => simp [spaced, Token.make, start_nil, Token.reading]
  | case2 p i c cs fault hpiece => cases h
  | case3 p i c cs skipped rest hpiece ih => exact ih h q j
  | case4 p i c cs kind literal lexeme rest hpiece later ih =>
    obtain ⟨inner, mark, htokens, -⟩ := start_tokens _ _ _ h
    have hlater : later.tokens ≠ [] := by simp [later, htokens]
    obtain ⟨herror, hreadings⟩ := ih h ((q.after lexeme).after [' ']) (j + 1)
    have hlexeme : (Token.make kind (String.ofList lexeme) p.line p.column i literal).lexeme.toList =
        lexeme := String.toList_ofList
    -- behind the lexeme there is a space, and then the lexemes of what is left
    dsimp only
    rw [spaced_cons _ hlater, hlexeme, start_lexeme hpiece q j (breaks_space _), start_space]
    refine ⟨herror, ?_⟩
    rw [List.map_cons, List.map_cons, hreadings]
    rfl

/-- A lexeme of a source by itself. -/
theorem start_alone (p : Position) (i : Nat) (source : List Char)
    (h : (start p i source).error = none) {t : Token} (ht : t ∈ (start p i source).tokens)
    (hmark : t.kind ≠ .endMark) (q : Position) (j : Nat) :
    ∃ alone mark, start q j t.lexeme.toList = ⟨[alone, mark], none⟩ ∧
      alone.reading = t.reading ∧ mark.kind = .endMark := by
  fun_induction start p i source with
  | case1 p i =>
    obtain rfl := List.mem_singleton.1 ht
    exact absurd rfl hmark
  | case2 p i c cs fault hpiece => cases h
  | case3 p i c cs skipped rest hpiece ih => exact ih h ht
  | case4 p i c cs kind literal lexeme rest hpiece later ih =>
    rcases List.mem_cons.1 ht with rfl | ht
    · have halone := start_lexeme hpiece q j breaks_nil
      rw [List.append_nil, start_nil] at halone
      refine ⟨_, _, (congrArg _ String.toList_ofList).trans halone, rfl, rfl⟩
    · exact ih h ht

end Scan

/-- Scanning goes by the lexemes.

* The lexemes of a source, with a single space between each two of them, are scanned as the same
  tokens, apart from their places.
* Each of the lexemes is scanned as the same token when it stands alone. -/
theorem scan_joined_lexemes {line : Nat} {source : String} {tokens : List Token}
    (h : tokenizeFrom line source = .ok tokens) (line' : Nat) :
    (∃ again, tokenizeFrom line' (" ".intercalate (tokens.map (·.lexeme))) = .ok again ∧
      again.map Token.reading = tokens.map Token.reading) ∧
    ∀ t ∈ tokens, t.kind ≠ .endMark → ∃ alone mark, tokenizeFrom line' t.lexeme = .ok [alone, mark] ∧
      alone.reading = t.reading ∧ mark.kind = .endMark := by
  obtain ⟨herror, rfl⟩ : (scanFrom line source).error = none ∧
      (scanFrom line source).tokens = tokens := by
    obtain ⟨hstart, htokens⟩ := start_of_tokenizeFrom h
    exact ⟨hstart, htokens⟩
  constructor
  · have hchars : (" ".intercalate ((scanFrom line source).tokens.map (·.lexeme))).toList =
        spaced (scanFrom line source).tokens := by
      rw [String.toList_intercalate, List.map_map]
      rfl
    obtain ⟨hnone, hreadings⟩ := Scan.start_joined ⟨line, 1⟩ 0 source.toList herror ⟨line', 1⟩ 0
    refine ⟨_, ?_, hreadings⟩
    rw [tokenizeFrom, scanFrom, hchars, Scan.result, scanFrom, hnone]
  · intro t ht hmark
    obtain ⟨alone, mark, halone, hreading, hend⟩ :=
      Scan.start_alone ⟨line, 1⟩ 0 source.toList herror ht hmark ⟨line', 1⟩ 0
    refine ⟨alone, mark, ?_, hreading, hend⟩
    rw [tokenizeFrom, scanFrom, halone]
    rfl

set_option maxRecDepth 100000 in
/-- Braces with and without a comment between them, and symbols without one. -/
theorem braces_and_symbols_joined : ∃ tokens,
    tokenize "\x7b\x7d\x7b/**/\x7d=>=" = .ok tokens ∧
    (∃ again, tokenize (" ".intercalate (tokens.map (·.lexeme))) = .ok again ∧
      again.map Token.reading = tokens.map Token.reading) ∧
    ∀ t ∈ tokens, t.kind ≠ .endMark → ∃ alone mark, tokenize t.lexeme = .ok [alone, mark] ∧
      alone.reading = t.reading ∧ mark.kind = .endMark := by
  obtain ⟨tokens, htokens⟩ : ∃ tokens, tokenize "\x7b\x7d\x7b/**/\x7d=>=" = .ok tokens :=
    ⟨_, by cbv⟩
  exact ⟨tokens, htokens, scan_joined_lexemes htokens 1⟩

end ScopedScript
