import Mathlib
import ScopedScript.Proofs.Scanning

/-! # What a scan covers

A scanned source is accounted for character by character.  The tokens stand in it in order and
apart from each other, each with the place and the text that it says; what lies between them is
skipped, and the end mark stands behind all of it.

* `Skipped` says what a gap is made of: blanks and comments.  A line comment reaches to the end of
  its gap, because the line feed after it is a token.
* A `Span` is a token with the number of characters before it.  `Covers` says of a row of spans that
  it accounts for the rest of a source from some character on; the main result is the case where
  that is the first one (`tokens_cover_source`). -/

namespace ScopedScript

/-! ### Places -/

/-- The number of characters since the last line feed. -/
def sinceFeed (cs : List Char) : Nat := (cs.reverse.takeWhile (· != '\n')).length

/-- The place behind the first characters of a source whose first line is numbered `line`. -/
def Position.behind (line : Nat) (before : List Char) : Position :=
  ⟨line + before.count '\n', 1 + sinceFeed before⟩

/-- Counting along gives the place. -/
theorem Position.after_start (line : Nat) (before : List Char) :
    Position.after ⟨line, 1⟩ before = .behind line before := by
  induction before using List.reverseRecOn with
  | nil => rfl
  | append_singleton before c ih =>
    rw [after_append, ih, after_cons, after_nil]
    by_cases hc : c = '\n'
    · subst hc
      simp [next, behind, sinceFeed, Nat.add_assoc]
    · have hne : (c != '\n') = true := by simpa using hc
      simp [next, behind, sinceFeed, hc]
      omega

/-! ### Gaps -/

/-- Characters between tokens: blanks and comments. -/
inductive Skipped : List Char → Prop
  | nil : Skipped []
  | blank {c : Char} {rest : List Char} : c = ' ' ∨ c = '\t' ∨ c = '\r' → Skipped rest →
      Skipped (c :: rest)
  | lineComment {text : List Char} : '\n' ∉ text → Skipped ('/' :: '/' :: text)
  | blockComment {inside rest : List Char} : ¬['*', '/'] <:+: inside ++ ['*'] → Skipped rest →
      Skipped ('/' :: '*' :: (inside ++ '*' :: '/' :: rest))

theorem Skipped.head?_ne_feed {gap : List Char} (h : Skipped gap) : gap.head? ≠ some '\n' := by
  cases h with
  | nil => simp
  | blank hc _ => rcases hc with rfl | rfl | rfl <;> simp
  | lineComment _ => simp
  | blockComment _ _ => simp

namespace Piece

variable {c : Char} {cs : List Char}

/-- A comment ends where it is first closed. -/
theorem closeComment_first {closed rest : List Char} (h : closeComment cs = some (closed, rest)) :
    ∃ inside, closed = inside ++ ['*', '/'] ∧ ¬['*', '/'] <:+: inside ++ ['*'] := by
  fun_induction closeComment cs generalizing closed rest with
  | case1 r =>
    obtain ⟨rfl, _⟩ := Prod.mk.inj (Option.some.inj h)
    exact ⟨[], rfl, by decide⟩
  | case2 c r hne ih =>
    obtain ⟨⟨inner, after⟩, hr, he⟩ := Option.map_eq_some_iff.1 h
    obtain ⟨rfl, rfl⟩ := Prod.mk.inj he
    obtain ⟨inside, rfl, hinside⟩ := ih hr
    refine ⟨c :: inside, rfl, fun hin => ?_⟩
    rw [List.cons_append, List.infix_cons_iff] at hin
    rcases hin with hstarts | hin
    · -- the closing would stand right here
      obtain ⟨hc, hnext⟩ := List.cons_prefix_cons.1 hstarts
      obtain ⟨tail, htail⟩ := hnext
      have hsplit := closeComment_append hr
      cases inside with
      | nil => cases htail
      | cons d inside =>
        obtain ⟨rfl, _⟩ := List.cons.inj htail
        exact hne _ hc.symm hsplit.symm
    · exact hinside hin
  | case3 => cases h

/-- A skipped piece and the gap that follows it make a gap. -/
theorem skipped_append {skipped rest gap more : List Char}
    (h : ofSource c cs = .skip skipped rest) (hgap : Skipped gap) (hrest : rest = gap ++ more) :
    Skipped (skipped ++ gap) := by
  unfold ofSource at h
  split at h
  · cases h
  split at h
  · next hblank =>
    obtain ⟨rfl, rfl⟩ := Piece.skip.inj h
    exact .blank hblank hgap
  split at h
  · unfold string at h
    dsimp only at h
    split at h <;> cases h
  split at h
  · unfold number at h
    dsimp only at h
    split at h
    · split at h <;> cases h
    · cases h
  split at h
  · cases h
  split at h
  · next hslash =>
    obtain ⟨rfl, hhead⟩ := hslash
    obtain ⟨tail, rfl⟩ : ∃ tail, cs = '/' :: tail := by
      cases cs with
      | nil => cases hhead
      | cons d ds => exact ⟨ds, by rw [Option.some.inj hhead]⟩
    obtain ⟨rfl, rfl⟩ := Piece.skip.inj h
    -- the gap after it would have to start with a line feed
    have hnil : gap = [] := by
      cases gap with
      | nil => rfl
      | cons d gap =>
        have hd := List.head?_dropWhile_not (· != '\n') ('/' :: '/' :: tail)
        rw [hrest] at hd
        have hfeed : d = '\n' := by simpa using hd
        exact absurd (by rw [hfeed]; rfl) hgap.head?_ne_feed
    rw [hnil, List.append_nil]
    have htake : ('/' :: '/' :: tail).takeWhile (· != '\n') =
        '/' :: '/' :: tail.takeWhile (· != '\n') := by
      simp
    rw [htake]
    refine .lineComment fun hmem => ?_
    have := List.mem_takeWhile_imp hmem
    simp at this
  split at h
  · next hstar =>
    obtain ⟨rfl, hhead⟩ := hstar
    obtain ⟨body, rfl⟩ : ∃ body, cs = '*' :: body := by
      cases cs with
      | nil => cases hhead
      | cons d ds => exact ⟨ds, by rw [Option.some.inj hhead]⟩
    simp only [blockComment, List.tail_cons] at h
    split at h
    · next closed rest' hclose =>
      obtain ⟨rfl, rfl⟩ := Piece.skip.inj h
      obtain ⟨inside, rfl, hinside⟩ := closeComment_first hclose
      have := Skipped.blockComment hinside hgap
      simpa using this
    · cases h
  · unfold symbol at h
    split at h <;> cases h

end Piece

/-! ### What tokens denote -/

/-- The value of a token goes with its kind: numbers, strings and the two truth values have one, and
that of a string is its text without the quotes. -/
def Token.Denotes (t : Token) : Prop :=
  match t.kind with
  | .number | .float => ∃ x, t.literal = some (.num x)
  | .string => ∃ text, t.lexeme = "\"" ++ text ++ "\"" ∧ t.literal = some (.str text)
  | .trueLit => t.literal = some (.bool true)
  | .falseLit => t.literal = some (.bool false)
  | _ => t.literal = none

/-- The kinds of tokens that have a value. -/
def literalKinds : List Token.Kind := [.number, .float, .string, .trueLit, .falseLit]

theorem Token.denotes_of_notMem {t : Token} (hk : t.kind ∉ literalKinds) (hl : t.literal = none) :
    t.Denotes := by
  unfold Denotes
  split <;> simp_all [literalKinds]

theorem Token.Denotes.isSome_iff {t : Token} (h : t.Denotes) :
    t.literal.isSome = true ↔ t.kind ∈ literalKinds := by
  unfold Denotes at h
  split at h <;> simp_all [literalKinds]
  all_goals obtain ⟨_, h⟩ := h; simp [h]

theorem Token.Kind.ofWord_plain (word : String) :
    ofWord word ∉ [Kind.number, .float, .string] := by
  have hreserved : ∀ p ∈ reserved, p.2 ∉ [Kind.number, .float, .string] := by decide
  unfold ofWord
  cases h : reserved.lookup word with
  | none => decide
  | some kind =>
    obtain ⟨l, r, hsplit, _⟩ := List.lookup_eq_some_iff.1 h
    exact hreserved (word, kind) (by rw [hsplit]; simp)

/-- A piece that is a token has the value that goes with its kind. -/
theorem Piece.denotes {c : Char} {cs lexeme rest : List Char} {kind : Token.Kind}
    {literal : Option Token.Literal} (h : Piece.ofSource c cs = .token kind literal lexeme rest)
    (line column index : Nat) :
    (Token.make kind (String.ofList lexeme) line column index literal).Denotes := by
  have hsymbols : ∀ s ∈ symbols, s.2 ∉ literalKinds := by decide
  unfold ofSource at h
  split at h
  · obtain ⟨rfl, rfl, _⟩ := Piece.token.inj h
    exact Token.denotes_of_notMem (by simp [Token.make, literalKinds]) rfl
  split at h
  · cases h
  split at h
  · unfold string at h
    dsimp only at h
    split at h
    · obtain ⟨rfl, rfl, rfl, _⟩ := Piece.token.inj h
      refine ⟨_, ?_, rfl⟩
      apply String.toList_injective
      simp [Token.make]
    · cases h
  split at h
  · unfold number at h
    dsimp only at h
    split at h
    · split at h <;>
      · obtain ⟨rfl, rfl, _⟩ := Piece.token.inj h
        exact ⟨_, rfl⟩
    · obtain ⟨rfl, rfl, _⟩ := Piece.token.inj h
      exact ⟨_, rfl⟩
  split at h
  · obtain ⟨rfl, rfl, rfl, _⟩ := Piece.token.inj h
    have hplain := Token.Kind.ofWord_plain (String.ofList ((c :: cs).takeWhile Text.isNamePart))
    generalize Token.Kind.ofWord _ = kind at hplain
    unfold Token.Denotes Token.make wordLiteral
    cases kind <;> first | rfl | simp at hplain
  split at h
  · cases h
  split at h
  · unfold blockComment at h
    split at h <;> cases h
  · unfold symbol at h
    split at h
    · next hfind =>
      obtain ⟨rfl, rfl, _⟩ := Piece.token.inj h
      exact Token.denotes_of_notMem (hsymbols _ (List.mem_of_find?_eq_some hfind)) rfl
    · cases h

/-! ### Spans -/

/-- A token with the number of characters before it. -/
structure Span where
  start : Nat
  token : Token

/-- The number of characters up to the end of the token. -/
def Span.stop (s : Span) : Nat := s.start + s.token.length

/-- The token stands in the source, behind `start` characters, as it says. -/
structure Token.StandsIn (line : Nat) (source : List Char) (start : Nat) (t : Token) : Prop where
  length : t.length = t.lexeme.length
  fits : start + t.length ≤ source.length
  lexeme : source.extract start (start + t.length) = t.lexeme.toList
  line : t.line = line + (source.take start).count '\n'
  column : t.column = 1 + sinceFeed (source.take start)
  denotes : t.Denotes

/-- The spans account for a source from the character `place` on, with tokens numbered from `first`
on. -/
structure Covers (line : Nat) (source : List Char) (place first : Nat) (spans : List Span) :
    Prop where
  numbered : spans.map (·.token.index) = List.range' first spans.length
  /-- The end mark comes last and stands at the end of the source. -/
  marked : ∃ inner mark, spans = inner ++ [⟨source.length, mark⟩] ∧ mark.kind = .endMark ∧
    mark.lexeme = "" ∧ ∀ s ∈ inner, s.token.kind ≠ .endMark
  standing : ∀ s ∈ spans, s.token.StandsIn line source s.start
  apart : spans.Pairwise fun s s' => s.stop ≤ s'.start
  ahead : ∀ s ∈ spans, place ≤ s.start
  before : ∀ s ∈ spans.head?, Skipped (source.extract place s.start)
  between : spans.IsChain fun s s' => Skipped (source.extract s.stop s'.start)

/-- The token is the piece that starts at its place in the source. -/
def Span.Cut (source : List Char) (s : Span) : Prop :=
  ∃ before c cs literal rest, source = before ++ c :: cs ∧ s.start = before.length ∧
    Piece.ofSource c cs = .token s.token.kind literal s.token.lexeme.toList rest

theorem extract_between (before inside rest : List Char) :
    (before ++ (inside ++ rest)).extract before.length (before.length + inside.length) = inside := by
  simp [List.extract_eq_take_drop]

section

variable {line first : Nat} {before : List Char}

/-- At the end of a source only the end mark is left. -/
theorem Covers.finish (line first : Nat) (before : List Char) :
    Covers line before before.length first [⟨before.length, Token.make .endMark ""
      (Position.behind line before).line (Position.behind line before).column first none⟩] where
  numbered := rfl
  marked := ⟨[], _, rfl, rfl, rfl, by simp⟩
  standing := by
    intro s hs
    obtain rfl := List.mem_singleton.1 hs
    refine ⟨rfl, by simp [Token.make], by simp [Token.make, List.extract_eq_take_drop], ?_, ?_, rfl⟩
    · simp [Token.make, Position.behind]
    · simp [Token.make, Position.behind]
  apart := by simp
  ahead := by simp
  before := by
    intro s hs
    obtain rfl : _ = s := by simpa using hs
    simpa [List.extract_eq_take_drop] using Skipped.nil
  between := by simp

/-- A skipped piece in front. -/
theorem Covers.skip {c : Char} {cs skipped rest : List Char} {spans : List Span}
    (hpiece : Piece.ofSource c cs = .skip skipped rest) (happ : skipped ++ rest = c :: cs)
    (h : Covers line (before ++ (c :: cs)) (before.length + skipped.length) first spans) :
    Covers line (before ++ (c :: cs)) before.length first spans where
  numbered := h.numbered
  marked := h.marked
  standing := h.standing
  apart := h.apart
  ahead s hs := by
    have := h.ahead s hs
    omega
  before s hs := by
    have hahead := h.ahead s (List.mem_of_mem_head? hs)
    have hfits := (h.standing s (List.mem_of_mem_head? hs)).fits
    have hgap := h.before s hs
    -- what is left is the gap and more
    generalize hk : s.start - (before.length + skipped.length) = k at hgap
    have hstart : s.start = before.length + skipped.length + k := by omega
    have hrest : (before ++ (c :: cs)).extract (before.length + skipped.length) s.start =
        rest.take k := by
      rw [← happ, hstart, ← List.append_assoc, List.extract_eq_take_drop, ← List.length_append,
        List.drop_left, Nat.add_sub_cancel_left]
    have hall : (before ++ (c :: cs)).extract before.length s.start = skipped ++ rest.take k := by
      rw [← happ, hstart, List.extract_eq_take_drop, List.drop_left, Nat.add_assoc,
        Nat.add_sub_cancel_left, List.take_length_add_append]
    rw [hrest] at hgap
    rw [hall]
    exact Piece.skipped_append hpiece hgap (List.take_append_drop k rest).symm
  between := h.between

/-- A token in front. -/
theorem Covers.token {c : Char} {cs lexeme rest : List Char} {kind : Token.Kind}
    {literal : Option Token.Literal} {spans : List Span}
    (hpiece : Piece.ofSource c cs = .token kind literal lexeme rest)
    (happ : lexeme ++ rest = c :: cs)
    (h : Covers line (before ++ (c :: cs)) (before.length + lexeme.length) (first + 1) spans) :
    Covers line (before ++ (c :: cs)) before.length first
      (⟨before.length, Token.make kind (String.ofList lexeme) (Position.behind line before).line
        (Position.behind line before).column first literal⟩ :: spans) := by
  obtain ⟨inner, mark, hspans, hmark, hlexeme, hinner⟩ := h.marked
  have hlength : (String.ofList lexeme).length = lexeme.length := String.length_ofList
  refine ⟨?_, ?_, ?_, ?_, ?_, ?_, ?_⟩
  · simp only [List.map_cons, h.numbered, List.length_cons, List.range'_succ]
    rfl
  · refine ⟨_ :: inner, mark, by rw [hspans]; rfl, hmark, hlexeme, ?_⟩
    exact List.forall_mem_cons.2 ⟨Piece.kind_ne_endMark hpiece, hinner⟩
  · refine List.forall_mem_cons.2 ⟨⟨rfl, ?_, ?_, ?_, ?_, ?_⟩, h.standing⟩
    · have hlen := congrArg List.length happ
      simp only [Token.make, hlength, List.length_append] at hlen ⊢
      omega
    · simp only [Token.make, hlength, String.toList_ofList]
      rw [← happ]
      exact extract_between before lexeme rest
    · simp [Token.make, Position.behind]
    · simp [Token.make, Position.behind]
    · exact Piece.denotes hpiece _ _ _
  · refine List.pairwise_cons.2 ⟨fun s hs => ?_, h.apart⟩
    have := h.ahead s hs
    simpa [Span.stop, Token.make, hlength] using this
  · refine List.forall_mem_cons.2 ⟨Nat.le_refl _, fun s hs => ?_⟩
    have := h.ahead s hs
    omega
  · intro s hs
    obtain rfl : _ = s := by simpa using hs
    simpa [List.extract_eq_take_drop] using Skipped.nil
  · refine List.isChain_cons.2 ⟨fun s hs => ?_, h.between⟩
    have := h.before s hs
    simpa [Span.stop, Token.make, hlength] using this

/-- Scanning accounts for what is left of a source. -/
theorem Scan.start_covers (line : Nat) (before rest : List Char) (i : Nat)
    (h : (start (.behind line before) i rest).error = none) :
    ∃ spans : List Span, (start (.behind line before) i rest).tokens = spans.map (·.token) ∧
      Covers line (before ++ rest) before.length i spans ∧
      ∀ s ∈ spans, s.token.kind ≠ .endMark → s.Cut (before ++ rest) := by
  generalize hp : Position.behind line before = p at h
  fun_induction start p i rest generalizing before with
  | case1 p i =>
    subst hp
    refine ⟨_, ?_, by rw [List.append_nil]; exact Covers.finish line i before, fun s hs hmark => ?_⟩
    · rfl
    · rw [List.mem_singleton.1 hs] at hmark
      exact absurd rfl hmark
  | case2 p i c cs fault hpiece => cases h
  | case3 p i c cs skipped rest hpiece ih =>
    obtain ⟨_, happ⟩ := Piece.skip_splits hpiece
    have hbehind : Position.behind line (before ++ skipped) = p.after skipped := by
      rw [← Position.after_start, Position.after_append, Position.after_start, hp]
    obtain ⟨spans, htokens, hcovers, hcuts⟩ := ih (before ++ skipped) hbehind h
    rw [List.append_assoc, happ] at hcovers hcuts
    rw [List.length_append] at hcovers
    exact ⟨spans, htokens, hcovers.skip hpiece happ, hcuts⟩
  | case4 p i c cs kind literal lexeme rest hpiece later ih =>
    obtain ⟨_, happ⟩ := Piece.token_splits hpiece
    have hbehind : Position.behind line (before ++ lexeme) = p.after lexeme := by
      rw [← Position.after_start, Position.after_append, Position.after_start, hp]
    obtain ⟨spans, htokens, hcovers, hcuts⟩ := ih (before ++ lexeme) hbehind h
    rw [List.append_assoc, happ] at hcovers hcuts
    rw [List.length_append] at hcovers
    refine ⟨_ :: spans, ?_, hcovers.token hpiece happ, List.forall_mem_cons.2 ⟨fun _ => ?_, hcuts⟩⟩
    · rw [List.map_cons, ← htokens, hp]
    · refine ⟨before, c, cs, literal, rest, rfl, rfl, ?_⟩
      rw [hpiece]
      exact congrArg (Piece.token kind literal · rest) String.toList_ofList.symm

end

/-- The tokens of a source account for every character of it, and each is the piece at its place. -/
theorem cuts_of_tokenizeFrom {line : Nat} {source : String} {tokens : List Token}
    (h : tokenizeFrom line source = .ok tokens) :
    ∃ spans : List Span, tokens = spans.map (·.token) ∧ Covers line source.toList 0 0 spans ∧
      ∀ s ∈ spans, s.token.kind ≠ .endMark → s.Cut source.toList := by
  obtain ⟨herror, rfl⟩ := start_of_tokenizeFrom h
  have hbehind : Position.behind line [] = ⟨line, 1⟩ := rfl
  unfold scanFrom at herror ⊢
  rw [← hbehind] at herror ⊢
  exact Scan.start_covers line [] source.toList 0 herror

theorem spans_of_tokenizeFrom {line : Nat} {source : String} {tokens : List Token}
    (h : tokenizeFrom line source = .ok tokens) :
    ∃ spans : List Span, tokens = spans.map (·.token) ∧
      Covers line source.toList 0 0 spans := by
  obtain ⟨spans, htokens, hcovers, -⟩ := cuts_of_tokenizeFrom h
  exact ⟨spans, htokens, hcovers⟩

/-- The tokens of a source account for every character of it, and those that denote a value are the
numbers, the strings and the two truth values. -/
theorem tokens_cover_source {line : Nat} {source : String} {tokens : List Token}
    (h : tokenizeFrom line source = .ok tokens) :
    (∃ spans : List Span, tokens = spans.map (·.token) ∧ Covers line source.toList 0 0 spans) ∧
      ∀ t ∈ tokens, t.literal.isSome = true ↔ t.kind ∈ literalKinds := by
  have hspans := spans_of_tokenizeFrom h
  refine ⟨hspans, fun t ht => ?_⟩
  obtain ⟨spans, rfl, hcovers⟩ := hspans
  obtain ⟨s, hs, rfl⟩ := List.mem_map.1 ht
  exact (hcovers.standing s hs).denotes.isSome_iff

set_option maxRecDepth 100000 in
/-- A comment and a string that go over a line each, and a comment at the end of a line. -/
theorem comments_and_string_covered : ∃ tokens,
    tokenizeFrom 3 "x/*\n*/ \"\n\"// y\n" = .ok tokens ∧
    (∃ spans : List Span, tokens = spans.map (·.token) ∧
      Covers 3 "x/*\n*/ \"\n\"// y\n".toList 0 0 spans) ∧
    ∀ t ∈ tokens, t.literal.isSome = true ↔ t.kind ∈ literalKinds := by
  obtain ⟨tokens, htokens⟩ : ∃ tokens, tokenizeFrom 3 "x/*\n*/ \"\n\"// y\n" = .ok tokens :=
    ⟨_, by cbv⟩
  exact ⟨tokens, htokens, tokens_cover_source htokens⟩

end ScopedScript
