import Mathlib
import ScopedScript.Proofs.Scanning.Coverage

/-! # Where scanning stops

A source that cannot be scanned is cut into pieces up to the first one that cannot be completed
(`error_at_first_broken_piece`).

* **Broken pieces.** `Piece.Broken` says what these are without the scanner: a string without a
  closing quote, a block comment without an end, a character that no piece starts with.
* **Pieces before.** `Piece.Leads` follows whole pieces through a source.  They hide what stands
  inside them: a quote in a comment starts no string.
* **Cutting off.** A whole piece is the same if the source is cut off behind it
  (`Piece.ofSource_cut`), although the scanner has looked beyond.  So the tokens before an error are
  those of the source up to it.
* **Streams.** A `Scan.Stream` hands out the tokens of a source one by one.  It has an answer to each
  request: the tokens of the scan in order, and nothing after these. -/

namespace ScopedScript

namespace Piece

/-! ### Broken pieces -/

/-- No piece starts with the character, whatever comes behind it. -/
def StartsNothing (c : Char) : Prop := ∀ cs, ∃ fault, ofSource c cs = .fault fault

/-- What stands at the front of a source cannot be completed. -/
inductive Broken : ScanFault → List Char → Prop
  | string {body : List Char} : '"' ∉ body → Broken .unterminatedString ('"' :: body)
  | comment {body : List Char} : ¬['*', '/'] <:+: body →
      Broken .unterminatedComment ('/' :: '*' :: body)
  | character {c : Char} {cs : List Char} : StartsNothing c →
      Broken (.unexpectedCharacter c) (c :: cs)

section

variable {c : Char} {cs : List Char}

theorem closeComment_eq_none_iff {body : List Char} :
    closeComment body = none ↔ ¬['*', '/'] <:+: body := by
  fun_induction closeComment body with
  | case1 rest => simp [List.infix_cons_iff]
  | case2 c rest hne ih =>
    rw [Option.map_eq_none_iff, ih, List.infix_cons_iff, not_or, iff_and_self]
    rintro - hstarts
    obtain ⟨rfl, tail, htail⟩ := List.cons_prefix_cons.1 hstarts
    exact hne tail rfl htail.symm
  | case3 => simp

theorem string_eq_fault_iff {body : List Char} {fault : ScanFault} :
    string body = .fault fault ↔ fault = .unterminatedString ∧ '"' ∉ body := by
  have hopen : body.dropWhile (· != '"') = [] ↔ '"' ∉ body := by
    rw [List.dropWhile_eq_nil_iff]
    constructor
    · intro h hmem
      simpa using h _ hmem
    · intro h x hx
      simpa using fun heq : x = '"' => h (heq ▸ hx)
  unfold string
  dsimp only
  split
  · next heq => simp [← hopen, heq]
  · next heq => simp [← hopen, heq, eq_comm]

theorem blockComment_eq_fault_iff {body : List Char} {fault : ScanFault} :
    blockComment body = .fault fault ↔
      fault = .unterminatedComment ∧ ¬['*', '/'] <:+: body := by
  unfold blockComment
  rw [← closeComment_eq_none_iff]
  split
  · next heq => simp [heq]
  · next heq => simp [heq, eq_comm]

theorem number_ne_fault (source : List Char) (fault : ScanFault) : number source ≠ .fault fault := by
  unfold number
  dsimp only
  split
  · split <;> simp
  · simp

/-- A symbol starts with the character. -/
def startsSymbol (c : Char) : Bool := symbols.any fun s => s.1.head? == some c

/-- Each symbol of two characters starts with a symbol of one. -/
theorem symbol_eq_fault_iff {fault : ScanFault} :
    symbol c (c :: cs) = .fault fault ↔
      fault = .unexpectedCharacter c ∧ startsSymbol c = false := by
  have hsingle : ∀ s ∈ symbols, ∃ s' ∈ symbols, s'.1 = s.1.take 1 := by decide
  have hnone : symbols.find? (fun s => s.1.isPrefixOf (c :: cs)) = none ↔
      startsSymbol c = false := by
    rw [List.find?_eq_none, startsSymbol, List.any_eq_false]
    constructor
    · intro h s hs hhead
      obtain ⟨s', hs', htake⟩ := hsingle s hs
      refine h s' hs' ?_
      rw [htake, List.isPrefixOf_iff_prefix]
      cases hlexeme : s.1 with
      | nil => simp [hlexeme] at hhead
      | cons d lexeme =>
        obtain rfl : d = c := by simpa [hlexeme] using hhead
        simp
    · intro h s hs hstarts
      refine h s hs ?_
      rw [List.isPrefixOf_iff_prefix] at hstarts
      cases hlexeme : s.1 with
      | nil => exact absurd hlexeme (symbols_ne_nil s hs)
      | cons d lexeme =>
        rw [hlexeme] at hstarts
        simp [(List.cons_prefix_cons.1 hstarts).1]
  unfold symbol
  split
  · next heq => simp [← hnone, heq]
  · next heq => simp [← hnone, heq, eq_comm]

/-- A character starts nothing if it starts none of the kinds of pieces. -/
theorem startsNothing_iff :
    StartsNothing c ↔ c ∉ ['\n', ' ', '\t', '\r', '"'] ∧ Text.isDigit c = false ∧
      Text.isNameStart c = false ∧ startsSymbol c = false := by
  constructor
  · intro h
    -- a closed string and a lone character show what is started
    obtain ⟨fault, hfault⟩ := h ['"']
    unfold ofSource at hfault
    split_ifs at hfault with hfeed hblank hquote hdigit hname hline hblock
    · simp [string] at hfault
    · exact absurd hfault (number_ne_fault _ _)
    · cases hfault
    · cases hfault
    · simp at hblock
    · refine ⟨by simp_all, by simpa using hdigit, by simpa using hname, ?_⟩
      exact (symbol_eq_fault_iff.1 hfault).2
  · rintro ⟨hplain, hdigit, hname, hsymbol⟩ cs
    have hslash : c ≠ '/' := by
      rintro rfl
      exact absurd hsymbol (by decide)
    refine ⟨.unexpectedCharacter c, ?_⟩
    unfold ofSource
    simp only [List.mem_cons, List.not_mem_nil, not_or, or_false] at hplain
    simp [hplain, hdigit, hname, hslash, symbol_eq_fault_iff, hsymbol]

/-- Exactly the broken pieces cannot be read. -/
theorem ofSource_eq_fault_iff {fault : ScanFault} :
    ofSource c cs = .fault fault ↔ Broken fault (c :: cs) := by
  constructor
  · intro h
    unfold ofSource at h
    split_ifs at h with hfeed hblank hquote hdigit hname hline hblock
    · obtain ⟨rfl, hbody⟩ := string_eq_fault_iff.1 h
      rw [hquote]
      exact .string hbody
    · exact absurd h (number_ne_fault _ _)
    · cases h
    · cases h
    · obtain ⟨body, rfl⟩ : ∃ body, cs = '*' :: body := by
        cases cs with
        | nil => cases hblock.2
        | cons d body => exact ⟨body, by rw [Option.some.inj hblock.2]⟩
      obtain ⟨rfl, hbody⟩ := blockComment_eq_fault_iff.1 h
      rw [hblock.1]
      exact .comment hbody
    · obtain ⟨rfl, hsymbol⟩ := symbol_eq_fault_iff.1 h
      exact .character (startsNothing_iff.2 ⟨by simp_all, by simpa using hdigit,
        by simpa using hname, hsymbol⟩)
  · intro h
    cases h with
    | string hbody => exact string_eq_fault_iff.2 ⟨rfl, hbody⟩
    | @comment body hbody =>
      have hpiece : ofSource '/' ('*' :: body) = blockComment body := rfl
      exact hpiece.trans (blockComment_eq_fault_iff.2 ⟨rfl, hbody⟩)
    | character hc =>
      obtain ⟨fault, hfault⟩ := hc cs
      obtain ⟨hplain, hdigit, hname, hsymbol⟩ := startsNothing_iff.1 hc
      have hslash : c ≠ '/' := by
        rintro rfl
        exact absurd hsymbol (by decide)
      unfold ofSource
      simp only [List.mem_cons, List.not_mem_nil, not_or, or_false] at hplain
      simp [hplain, hdigit, hname, hslash, symbol_eq_fault_iff, hsymbol]

end

theorem Broken.ne_nil {fault : ScanFault} {source : List Char} (h : Broken fault source) :
    source ≠ [] := by
  cases h <;> simp

/-! ### Pieces before -/

/-- Whole pieces, one behind the other, lead through a source to its tail. -/
inductive Leads : List Char → List Char → Prop
  | here (source : List Char) : Leads source source
  | token {c : Char} {cs lexeme rest tail : List Char} {kind : Token.Kind}
      {literal : Option Token.Literal} : ofSource c cs = .token kind literal lexeme rest →
      Leads rest tail → Leads (c :: cs) tail
  | skip {c : Char} {cs skipped rest tail : List Char} : ofSource c cs = .skip skipped rest →
      Leads rest tail → Leads (c :: cs) tail

/-- There is one broken piece at most that whole pieces lead to. -/
theorem Leads.broken_unique {source tail tail' : List Char} {fault fault' : ScanFault}
    (h : Leads source tail) (hbroken : Broken fault tail) (h' : Leads source tail')
    (hbroken' : Broken fault' tail') : tail' = tail := by
  have hne {tail : List Char} {fault : ScanFault} (hb : Broken fault tail) :
      ∃ c cs, tail = c :: cs ∧ ofSource c cs = .fault fault := by
    cases tail with
    | nil => cases hb
    | cons c cs => exact ⟨c, cs, rfl, ofSource_eq_fault_iff.2 hb⟩
  induction h with
  | here source =>
    obtain ⟨c, cs, rfl, hfault⟩ := hne hbroken
    cases h' with
    | here => rfl
    | token hpiece _ => simp [hfault] at hpiece
    | skip hpiece _ => simp [hfault] at hpiece
  | token hpiece _ ih =>
    cases h' with
    | here =>
      obtain ⟨c, cs, heq, hfault⟩ := hne hbroken'
      obtain ⟨rfl, rfl⟩ := List.cons.inj heq
      simp [hfault] at hpiece
    | token hpiece' h' =>
      obtain ⟨-, -, -, rfl⟩ := Piece.token.inj (hpiece.symm.trans hpiece')
      exact ih hbroken h'
    | skip hpiece' _ => simp [hpiece] at hpiece'
  | skip hpiece _ ih =>
    cases h' with
    | here =>
      obtain ⟨c, cs, heq, hfault⟩ := hne hbroken'
      obtain ⟨rfl, rfl⟩ := List.cons.inj heq
      simp [hfault] at hpiece
    | token hpiece' _ => simp [hpiece] at hpiece'
    | skip hpiece' h' =>
      obtain ⟨-, rfl⟩ := Piece.skip.inj (hpiece.symm.trans hpiece')
      exact ih hbroken h'

/-! ### Cutting off -/

section

variable {p : Char → Bool} {c : Char} {cs xs rest more : List Char}

theorem token_of_extend {P : Piece} {kind : Token.Kind} {literal : Option Token.Literal}
    {lexeme tail : List Char} (h : .token kind literal lexeme tail = P.extend more) :
    ∃ rest, P = .token kind literal lexeme rest ∧ tail = rest ++ more := by
  cases P with
  | token kind' literal' lexeme' rest =>
    obtain ⟨rfl, rfl, rfl, rfl⟩ := Piece.token.inj h
    exact ⟨rest, rfl, rfl⟩
  | _ => cases h

theorem skip_of_extend {P : Piece} {skipped tail : List Char}
    (h : .skip skipped tail = P.extend more) :
    ∃ rest, P = .skip skipped rest ∧ tail = rest ++ more := by
  cases P with
  | skip skipped' rest =>
    obtain ⟨rfl, rfl⟩ := Piece.skip.inj h
    exact ⟨rest, rfl, rfl⟩
  | _ => cases h

theorem fault_of_extend {P : Piece} {fault : ScanFault} (h : .fault fault = P.extend more) :
    P = .fault fault := by
  cases P with
  | fault _ => exact h.symm
  | _ => cases h

/-- What does not go on beyond the cut is the same in front of it. -/
theorem dropWhile_cut (h : (xs ++ more).dropWhile p = rest ++ more) :
    xs.dropWhile p = rest ∧ xs.takeWhile p = (xs ++ more).takeWhile p := by
  induction xs with
  | nil =>
    have hsplit := List.takeWhile_append_dropWhile (p := p) (l := more)
    rw [List.nil_append] at h
    rw [h, ← List.append_assoc, List.append_left_eq_self] at hsplit
    obtain ⟨htake, rfl⟩ := List.append_eq_nil_iff.1 hsplit
    simp [htake]
  | cons x xs ih =>
    by_cases hx : p x = true
    · rw [List.cons_append, List.dropWhile_cons_of_pos hx] at h
      simp [hx, ih h]
    · rw [List.cons_append, List.dropWhile_cons_of_neg hx, ← List.cons_append] at h
      rw [List.dropWhile_cons_of_neg hx, List.cons_append, List.takeWhile_cons_of_neg hx,
        List.takeWhile_cons_of_neg hx]
      exact ⟨List.append_cancel_right h, rfl⟩

variable {P : Piece}

theorem string_cut (h : string (xs ++ more) = P.extend more) (hP : ∀ fault, P ≠ .fault fault) :
    string xs = P := by
  unfold string at h
  dsimp only at h
  split at h
  · next q tail heq =>
    obtain ⟨rest, rfl, rfl⟩ := token_of_extend h
    rw [← List.cons_append] at heq
    obtain ⟨hdrop, htake⟩ := dropWhile_cut heq
    unfold string
    rw [hdrop, htake]
  · exact absurd (fault_of_extend h) (hP _)

theorem number_cut (h : number (xs ++ more) = P.extend more) : number xs = P := by
  unfold number at h
  dsimp only at h
  split at h
  · next tail heq =>
    split at h
    · next hfraction =>
      obtain ⟨rest, rfl, hrest⟩ := token_of_extend h
      obtain ⟨hdrop, htake⟩ := dropWhile_cut hrest
      unfold number
      rw [hdrop, htake]
      dsimp only
      split
      · next tail' =>
        -- behind a point in front of the cut there is no digit either
        rw [hrest, List.cons_append] at heq
        obtain ⟨-, rfl⟩ := List.cons.inj heq
        rw [if_pos]
        cases tail' with
        | nil => rfl
        | cons d tail' => simp_all
      · rfl
    · next hfraction =>
      obtain ⟨rest, rfl, hrest⟩ := token_of_extend h
      obtain ⟨fraction, hfr⟩ : ∃ fraction, tail.takeWhile Text.isDigit = fraction := ⟨_, rfl⟩
      have htail : tail = fraction ++ rest ++ more := by
        rw [List.append_assoc, ← hrest, ← hfr, List.takeWhile_append_dropWhile]
      subst htail
      rw [← List.cons_append] at heq
      obtain ⟨hdrop, htake⟩ := dropWhile_cut heq
      obtain ⟨hdrop', htake'⟩ := dropWhile_cut hrest
      unfold number
      rw [hdrop, htake]
      simp only [hdrop', htake', if_neg hfraction]
  · next hpoint =>
    obtain ⟨rest, rfl, hrest⟩ := token_of_extend h
    obtain ⟨hdrop, htake⟩ := dropWhile_cut hrest
    unfold number
    rw [hdrop, htake]
    dsimp only
    split
    · next tail' => exact absurd hrest (hpoint (tail' ++ more))
    · rfl

theorem symbol_cut (h : symbol c (xs ++ more) = P.extend more) (hP : ∀ fault, P ≠ .fault fault) :
    symbol c xs = P := by
  unfold symbol at h
  split at h
  · next lexeme kind hfind =>
    obtain ⟨rest, rfl, hrest⟩ := token_of_extend h
    obtain ⟨hstarts, before, after, hsplit, hbefore⟩ := List.find?_eq_some_iff_append.1 hfind
    have hxs : xs = lexeme ++ rest := by
      obtain ⟨tail, htail⟩ := List.isPrefixOf_iff_prefix.1 hstarts
      rw [← htail, List.drop_left] at hrest
      rw [hrest, ← List.append_assoc] at htail
      exact (List.append_cancel_right htail).symm
    subst hxs
    -- a symbol that fits in front of the cut fits in the source
    have hagain : symbols.find? (fun s => s.1.isPrefixOf (lexeme ++ rest)) = some (lexeme, kind) := by
      refine List.find?_eq_some_iff_append.2 ⟨?_, before, after, hsplit, ?_⟩
      · exact List.isPrefixOf_iff_prefix.2 (List.prefix_append lexeme rest)
      · intro s hs
        have hnot := hbefore s hs
        simp only [Bool.not_eq_true', ← Bool.not_eq_true, List.isPrefixOf_iff_prefix] at hnot ⊢
        intro hnow
        exact hnot (hnow.trans (List.prefix_append _ more))
    unfold symbol
    rw [hagain]
    simp
  · exact absurd (fault_of_extend h) (hP _)

theorem lineComment_cut (h : lineComment (xs ++ more) = P.extend more) : lineComment xs = P := by
  obtain ⟨rest, rfl, hrest⟩ := skip_of_extend h
  obtain ⟨hdrop, htake⟩ := dropWhile_cut hrest
  rw [lineComment, hdrop, htake]

theorem blockComment_cut (h : blockComment (xs ++ more) = P.extend more)
    (hP : ∀ fault, P ≠ .fault fault) : blockComment xs = P := by
  unfold blockComment at h
  split at h
  · next inside tail hclose =>
    obtain ⟨rest, rfl, rfl⟩ := skip_of_extend h
    -- the comment is closed in front of the cut
    have hxs : xs = inside ++ rest := by
      have := closeComment_append hclose
      rw [← List.append_assoc] at this
      exact (List.append_cancel_right this).symm
    obtain ⟨inner, rfl, -⟩ := closeComment_first hclose
    unfold blockComment
    cases hagain : closeComment xs with
    | none =>
      rw [closeComment_eq_none_iff] at hagain
      exact absurd ⟨inner, rest, hxs.symm⟩ hagain
    | some r =>
      rw [closeComment_extend more hagain] at hclose
      obtain ⟨hinside, hrest⟩ := Prod.mk.inj (Option.some.inj hclose)
      dsimp only
      rw [hinside, List.append_cancel_right hrest]
  · exact absurd (fault_of_extend h) (hP _)

/-- A piece that takes two characters has them in front of the cut. -/
theorem head?_cut {d : Char} (c : Char) (text rest : List Char) (hnext : (xs ++ more).head? = some d)
    (happ : c :: d :: text ++ (rest ++ more) = c :: (xs ++ more)) : xs.head? = some d := by
  cases xs with
  | nil =>
    have := congrArg List.length happ
    simp only [List.length_append, List.length_cons, List.nil_append] at this
    omega
  | cons e xs => exact hnext

/-- A whole piece is the same if the source is cut off behind it. -/
theorem ofSource_cut (h : ofSource c (xs ++ more) = P.extend more)
    (hP : ∀ fault, P ≠ .fault fault) : ofSource c xs = P := by
  have hsplits : Splits (c :: (xs ++ more)) (P.extend more) := h ▸ ofSource_splits c (xs ++ more)
  have hkeep (d : Char) (hnext : (xs ++ more).head? ≠ some d) : xs.head? ≠ some d := by
    intro hhead
    cases xs with
    | nil => cases hhead
    | cons e xs => exact hnext hhead
  unfold ofSource at h ⊢
  split_ifs at h with hfeed hblank hquote hdigit hname hline hblock
  · obtain ⟨rest, rfl, hrest⟩ := token_of_extend h
    rw [if_pos hfeed, List.append_cancel_right hrest]
  · obtain ⟨rest, rfl, hrest⟩ := skip_of_extend h
    rw [if_neg hfeed, if_pos hblank, List.append_cancel_right hrest]
  · rw [if_neg hfeed, if_neg hblank, if_pos hquote]
    exact string_cut h hP
  · rw [if_neg hfeed, if_neg hblank, if_neg hquote, if_pos hdigit]
    exact number_cut h
  · rw [if_neg hfeed, if_neg hblank, if_neg hquote, if_neg hdigit, if_pos hname]
    obtain ⟨rest, rfl, hrest⟩ := token_of_extend h
    have hname' : (c :: xs ++ more).dropWhile Text.isNamePart = rest ++ more := hrest
    obtain ⟨hdrop, htake⟩ := dropWhile_cut hname'
    rw [word, hdrop, htake]
    rfl
  · rw [if_neg hfeed, if_neg hblank, if_neg hquote, if_neg hdigit, if_neg hname, if_pos]
    · have hcomment : lineComment (c :: xs ++ more) = P.extend more := h
      exact lineComment_cut hcomment
    · obtain ⟨tail, htail⟩ : ∃ tail, xs ++ more = '/' :: tail := List.head?_eq_some_iff.1 hline.2
      obtain ⟨rest, rfl, hrest⟩ := skip_of_extend h
      refine ⟨hline.1, head?_cut c (tail.takeWhile (· != '\n')) rest hline.2 ?_⟩
      obtain ⟨-, happ⟩ := hsplits
      rw [htail, hline.1] at happ ⊢
      simpa using happ
  · obtain ⟨body, hbody⟩ : ∃ body, xs ++ more = '*' :: body := List.head?_eq_some_iff.1 hblock.2
    have hcut : xs.head? = some '*' := by
      rw [hbody, List.tail_cons] at h
      unfold blockComment at h
      split at h
      · next inside tail hclose =>
        obtain ⟨rest, rfl, rfl⟩ := skip_of_extend h
        refine head?_cut c inside rest hblock.2 ?_
        rw [hbody, ← closeComment_append hclose]
        rfl
      · exact absurd (fault_of_extend h) (hP _)
    obtain ⟨ys, rfl⟩ := List.head?_eq_some_iff.1 hcut
    rw [if_neg hfeed, if_neg hblank, if_neg hquote, if_neg hdigit, if_neg hname, if_neg (by simp),
      if_pos ⟨hblock.1, rfl⟩]
    exact blockComment_cut h hP
  · have hline' : ¬(c = '/' ∧ xs.head? = some '/') := fun hslash =>
      hkeep '/' (fun hnext => hline ⟨hslash.1, hnext⟩) hslash.2
    have hblock' : ¬(c = '/' ∧ xs.head? = some '*') := fun hslash =>
      hkeep '*' (fun hnext => hblock ⟨hslash.1, hnext⟩) hslash.2
    rw [if_neg hfeed, if_neg hblank, if_neg hquote, if_neg hdigit, if_neg hname, if_neg hline',
      if_neg hblock']
    have hsymbol : symbol c (c :: xs ++ more) = P.extend more := h
    exact symbol_cut hsymbol hP

end

end Piece

/-! ### The tokens before an error -/

namespace Scan

/-- The end mark behind the tokens. -/
def markAt (p : Position) (index : Nat) : Token := Token.make .endMark "" p.line p.column index none

/-- Scanning stops at the broken piece that whole pieces lead to, and up to there it goes as in the
source that ends there. -/
theorem start_cut (p : Position) (i : Nat) (source : List Char) {e : ScanError}
    (h : (start p i source).error = some e) :
    ∃ before tail, source = before ++ tail ∧ Piece.Leads source tail ∧
      Piece.Broken e.fault tail ∧ e.position = p.after before ∧
      start p i before = ⟨(start p i source).tokens ++
        [markAt (p.after before) (i + (start p i source).tokens.length)], none⟩ := by
  fun_induction start p i source with
  | case1 p i => cases h
  | case2 p i c cs fault hpiece =>
    obtain rfl := Option.some.inj h
    exact ⟨[], c :: cs, rfl, .here _, Piece.ofSource_eq_fault_iff.1 hpiece, rfl, start_nil⟩
  | case3 p i c cs skipped rest hpiece ih =>
    obtain ⟨hne, happ⟩ := Piece.skip_splits hpiece
    obtain ⟨before, tail, rfl, hleads, hbroken, hplace, hstart⟩ := ih h
    obtain ⟨d, text, rfl⟩ := List.exists_cons_of_ne_nil hne
    obtain ⟨rfl, hcs⟩ := List.cons.inj happ
    obtain rfl : text ++ before ++ tail = cs := by rw [← hcs, List.append_assoc]; rfl
    have hcut : Piece.ofSource d (text ++ before) = .skip (d :: text) before :=
      Piece.ofSource_cut (P := .skip (d :: text) before) hpiece (by simp)
    refine ⟨d :: text ++ before, tail, by simp, ?_, hbroken, ?_, ?_⟩
    · exact .skip hpiece hleads
    · rw [hplace, Position.after_append]
    · rw [List.cons_append, start_skip hcut, hstart, ← List.cons_append, Position.after_append]
  | case4 p i c cs kind literal lexeme rest hpiece later ih =>
    obtain ⟨hne, happ⟩ := Piece.token_splits hpiece
    obtain ⟨before, tail, rfl, hleads, hbroken, hplace, hstart⟩ := ih h
    obtain ⟨d, text, rfl⟩ := List.exists_cons_of_ne_nil hne
    obtain ⟨rfl, hcs⟩ := List.cons.inj happ
    obtain rfl : text ++ before ++ tail = cs := by rw [← hcs, List.append_assoc]; rfl
    have hcut : Piece.ofSource d (text ++ before) = .token kind literal (d :: text) before :=
      Piece.ofSource_cut (P := .token kind literal (d :: text) before) hpiece (by simp)
    refine ⟨d :: text ++ before, tail, by simp, ?_, hbroken, ?_, ?_⟩
    · exact .token hpiece hleads
    · rw [hplace, Position.after_append]
    · rw [List.cons_append, start_token hcut, hstart]
      have hafter : p.after (d :: (text ++ before)) = (p.after (d :: text)).after before :=
        Position.after_append p (d :: text) before
      simp only [List.length_cons, List.cons_append, hafter, later]
      rw [Nat.add_right_comm i 1, Nat.add_assoc i]

/-! ### Streams -/

/-- A source that is scanned token by token. -/
inductive Stream where
  /-- What is left has not been looked at; its first token is numbered `index`. -/
  | going (place : Position) (index : Nat) (rest : List Char)
  /-- The end mark has been handed out. -/
  | ended
  | failed (error : ScanError)

namespace Stream

/-- A source with nothing scanned yet. -/
def ofSource (line : Nat) (source : String) : Stream := .going ⟨line, 1⟩ 0 source.toList

/-- The error that the stream has come to. -/
def error : Stream → Option ScanError
  | .failed e => some e
  | _ => none

/-- The next token of what is left, or the error that there is before it. -/
def pull (place : Position) (index : Nat) (source : List Char) : Option Token × Stream :=
  match source with
  | [] => (some (markAt place index), .ended)
  | c :: cs =>
    match h : Piece.ofSource c cs with
    | .fault fault => (none, .failed ⟨fault, place⟩)
    | .skip skipped rest => pull (place.after skipped) index rest
    | .token kind literal lexeme rest =>
      (some (Token.make kind (String.ofList lexeme) place.line place.column index literal),
        .going (place.after lexeme) (index + 1) rest)
termination_by source.length
decreasing_by
  have hsplit := Piece.ofSource_splits c cs
  rw [h] at hsplit
  obtain ⟨hne, happ⟩ := hsplit
  have hlen := congrArg List.length happ
  have := List.length_pos_iff.2 hne
  simp only [List.length_append, List.length_cons] at hlen ⊢
  omega

/-- The answer to a request, and the stream after it. -/
def next : Stream → Option Token × Stream
  | .going place index rest => pull place index rest
  | s => (none, s)

/-- The stream after so many requests. -/
def after (s : Stream) : Nat → Stream
  | 0 => s
  | k + 1 => (s.after k).next.2

/-- What is still to come. -/
def toScan : Stream → Scan
  | .going place index rest => start place index rest
  | .ended => ⟨[], none⟩
  | .failed e => ⟨[], some e⟩

theorem pull_eq (place : Position) (index : Nat) (source : List Char) :
    (pull place index source).1 = (start place index source).tokens.head? ∧
      (pull place index source).2.toScan =
        ⟨(start place index source).tokens.tail, (start place index source).error⟩ := by
  fun_induction pull place index source with
  | case1 place => exact ⟨by rw [start_nil]; rfl, by rw [start_nil]; rfl⟩
  | case2 place c cs fault hpiece =>
    exact ⟨by rw [start_fault hpiece]; rfl, by rw [start_fault hpiece]; rfl⟩
  | case3 place c cs skipped rest hpiece ih => rwa [start_skip hpiece]
  | case4 place c cs kind literal lexeme rest hpiece =>
    exact ⟨by rw [start_token hpiece]; rfl, by rw [start_token hpiece]; rfl⟩

/-- A request takes the first of the tokens still to come, and leaves the error. -/
theorem next_eq (s : Stream) :
    s.next.1 = s.toScan.tokens.head? ∧
      s.next.2.toScan = ⟨s.toScan.tokens.tail, s.toScan.error⟩ := by
  cases s with
  | going place index rest => exact pull_eq place index rest
  | _ => exact ⟨rfl, rfl⟩

/-- Without a token to hand out the stream has come to its end or to its error. -/
theorem error_of_next {s : Stream} (h : s.next.1 = none) : s.next.2.error = s.toScan.error := by
  cases s with
  | going place index rest =>
    change (pull place index rest).2.error = (start place index rest).error
    change (pull place index rest).1 = none at h
    fun_induction pull place index rest with
    | case1 => cases h
    | case2 place c cs fault hpiece => rw [start_fault hpiece]; rfl
    | case3 place c cs skipped rest hpiece ih => rw [start_skip hpiece, ih h]
    | case4 => cases h
  | _ => rfl

theorem toScan_after (s : Stream) (k : Nat) :
    (s.after k).toScan = ⟨s.toScan.tokens.drop k, s.toScan.error⟩ := by
  induction k with
  | zero => rfl
  | succ k ih =>
    rw [after, (next_eq _).2, ih]
    simp

/-- The answers are the tokens of the scan in order, and nothing once these are used up. -/
theorem answer_eq (line : Nat) (source : String) (k : Nat) :
    ((ofSource line source).after k).next.1 = (scanFrom line source).tokens[k]? := by
  rw [(next_eq _).1, toScan_after, List.head?_drop]
  rfl

end Stream

end Scan

theorem tokenizeFrom_eq_error_iff {line : Nat} {source : String} {e : ScanError} :
    tokenizeFrom line source = .error e ↔ (scanFrom line source).error = some e := by
  unfold tokenizeFrom Scan.result
  split <;> simp_all

/-- A source that cannot be scanned: the broken piece, and what stands in front of it. -/
theorem broken_of_tokenizeFrom {line : Nat} {source : String} {e : ScanError}
    (h : tokenizeFrom line source = .error e) : ∃ before tail, source.toList = before ++ tail ∧
      Piece.Leads source.toList tail ∧ Piece.Broken e.fault tail ∧
      e.position = .behind line before := by
  obtain ⟨before, tail, hsource, hleads, hbroken, hplace, -⟩ :=
    Scan.start_cut ⟨line, 1⟩ 0 source.toList (tokenizeFrom_eq_error_iff.1 h)
  exact ⟨before, tail, hsource, hleads, hbroken, hplace.trans (Position.after_start line before)⟩

/-- A source that cannot be scanned has a first piece that cannot be completed.

* The error says where that piece starts, in characters before it, and what it is: a string without
  a closing quote, a block comment without an end, or a character that starts nothing.  Whole pieces
  lead to it, and to no other such place.
* The tokens that are handed out are those of the source up to that place without the end mark, in
  order; there is no end mark among them and nothing after them.
* The source has no tokens just if the stream of its tokens ends with an error. -/
theorem error_at_first_broken_piece (line : Nat) (source : String) (e : ScanError) :
    (tokenizeFrom line source = .error e ↔ ∃ k,
      ((Scan.Stream.ofSource line source).after k).next.1 = none ∧
      ((Scan.Stream.ofSource line source).after k).next.2.error = some e) ∧
    (tokenizeFrom line source = .error e → ∃ before tail tokens mark,
      source.toList = before ++ tail ∧ e.position = .behind line before ∧
      Piece.Broken e.fault tail ∧ Piece.Leads source.toList tail ∧
      (∀ tail' fault, Piece.Leads source.toList tail' → Piece.Broken fault tail' → tail' = tail) ∧
      tokenizeFrom line (String.ofList before) = .ok (tokens ++ [mark]) ∧ mark.kind = .endMark ∧
      (∀ t ∈ tokens, t.kind ≠ .endMark) ∧
      ∀ k, ((Scan.Stream.ofSource line source).after k).next.1 = tokens[k]?) := by
  constructor
  · rw [tokenizeFrom_eq_error_iff]
    have hlast (k : Nat) (hk : ((Scan.Stream.ofSource line source).after k).next.1 = none) :
        ((Scan.Stream.ofSource line source).after k).next.2.error =
          (scanFrom line source).error := by
      rw [Scan.Stream.error_of_next hk, Scan.Stream.toScan_after]
      rfl
    constructor
    · intro herror
      have hk := Scan.Stream.answer_eq line source (scanFrom line source).tokens.length
      rw [List.getElem?_eq_none (Nat.le_refl _)] at hk
      exact ⟨_, hk, by rw [hlast _ hk, herror]⟩
    · rintro ⟨k, hk, herror⟩
      rw [← hlast k hk, herror]
  · intro h
    have herror := tokenizeFrom_eq_error_iff.1 h
    obtain ⟨before, tail, hsource, hleads, hbroken, hplace, hstart⟩ :=
      Scan.start_cut ⟨line, 1⟩ 0 source.toList herror
    have hbefore : tokenizeFrom line (String.ofList before) =
        .ok ((scanFrom line source).tokens ++ [Scan.markAt (Position.after ⟨line, 1⟩ before)
          (0 + (scanFrom line source).tokens.length)]) := by
      rw [tokenizeFrom, scanFrom, String.toList_ofList, hstart]
      rfl
    obtain ⟨inner, mark, htokens, hmark, -, hinner⟩ := tokenizeFrom_ok hbefore
    refine ⟨before, tail, _, _, hsource, ?_, hbroken, hleads, ?_, hbefore, rfl, ?_, ?_⟩
    · rw [hplace, Position.after_start]
    · intro tail' fault hleads' hbroken'
      exact hleads.broken_unique hbroken hleads' hbroken'
    · intro t ht
      obtain ⟨heq, -⟩ := List.append_inj' htokens rfl
      exact (hinner t (heq ▸ ht)).1
    · intro k
      exact Scan.Stream.answer_eq line source k

set_option maxRecDepth 100000 in
/-- A quote in a comment and another one in a string, and a string that is not closed. -/
theorem quote_behind_comment_breaks : ∃ e,
    tokenizeFrom 7 "/*\"*/ x\n\"/*\"\"y" = .error e ∧ ∃ before tail tokens mark,
      "/*\"*/ x\n\"/*\"\"y".toList = before ++ tail ∧ e.position = .behind 7 before ∧
      Piece.Broken e.fault tail ∧ Piece.Leads "/*\"*/ x\n\"/*\"\"y".toList tail ∧
      (∀ tail' fault, Piece.Leads "/*\"*/ x\n\"/*\"\"y".toList tail' →
        Piece.Broken fault tail' → tail' = tail) ∧
      tokenizeFrom 7 (String.ofList before) = .ok (tokens ++ [mark]) ∧ mark.kind = .endMark ∧
      (∀ t ∈ tokens, t.kind ≠ .endMark) ∧
      ∀ k, ((Scan.Stream.ofSource 7 "/*\"*/ x\n\"/*\"\"y").after k).next.1 = tokens[k]? := by
  obtain ⟨e, he⟩ : ∃ e, tokenizeFrom 7 "/*\"*/ x\n\"/*\"\"y" = .error e := ⟨_, by cbv⟩
  exact ⟨e, he, (error_at_first_broken_piece 7 _ e).2 he⟩

end ScopedScript
