import ScopedScript.Proofs.Scanning.Coverage
import ScopedScript.Proofs.Scanning.Spacing

/-! # The longest token

Each token of a source is the longest that can be read at its place: of the prefixes of what is left
there, its lexeme is the longest one that is a token by itself (`tokens_longest`).

The scanner has a rule of its own for each kind of piece, and none of them tries one length after
the other.  `Piece.length_le_of_takesAll` is what they have in common: if all of some characters are
one piece, then the piece in front of these characters and more reaches at least as far. -/

namespace ScopedScript

/-- The characters are one token if nothing else stands there. -/
def IsToken (cs : List Char) : Prop :=
  ∃ t mark, tokenize (String.ofList cs) = .ok [t, mark] ∧ t.lexeme.toList = cs

/-- The characters are those of a word: a name or a reserved word. -/
def IsWord : List Char → Prop
  | [] => False
  | c :: cs => Text.isNameStart c = true ∧ ∀ d ∈ cs, Text.isNamePart d = true

/-! ### Pieces -/

namespace Piece

/-- All of the characters are one token. -/
def TakesAll (c : Char) (cs : List Char) : Prop :=
  ∃ kind literal, ofSource c cs = .token kind literal (c :: cs) []

section

variable {p : Char → Bool} {c : Char} {cs lexeme lexeme' rest rest' more : List Char}
  {kind kind' : Token.Kind} {literal literal' : Option Token.Literal}

theorem length_takeWhile_le (xs ys : List Char) :
    (xs.takeWhile p).length ≤ ((xs ++ ys).takeWhile p).length := by
  rw [List.takeWhile_append]
  split
  · next hall =>
    rw [hall, List.length_append]
    exact Nat.le_add_right _ _
  · exact Nat.le_refl _

theorem string_longest {body : List Char} (h : string body = .token kind literal lexeme rest)
    (h' : string (body ++ more) = .token kind' literal' lexeme' rest') : lexeme' = lexeme := by
  rw [string_extend more (by simp [h]), h] at h'
  exact (Piece.token.inj h').2.2.1.symm

theorem number_longest (h : number cs = .token kind literal cs [])
    (h' : number (cs ++ more) = .token kind' literal' lexeme rest) : cs.length ≤ lexeme.length := by
  have hsplit := List.takeWhile_append_dropWhile (p := Text.isDigit) (l := cs)
  unfold number at h
  dsimp only at h
  split at h
  · next tail hdrop =>
    split at h
    · -- a point without a digit behind it would be left over
      obtain ⟨-, -, -, hrest⟩ := Piece.token.inj h
      cases hdrop.symm.trans hrest
    · next hfraction =>
      obtain ⟨-, -, -, hrest⟩ := Piece.token.inj h
      have htail : tail.takeWhile Text.isDigit = tail := by
        simpa [hrest] using List.takeWhile_append_dropWhile (p := Text.isDigit) (l := tail)
      have hle := length_takeWhile_le (p := Text.isDigit) tail more
      rw [htail] at hle hfraction
      rw [hdrop] at hsplit
      have hdot : Text.isDigit '.' = false := by decide
      have hdigits : ∀ x ∈ cs.takeWhile Text.isDigit, Text.isDigit x = true := fun x hx =>
        List.mem_takeWhile_imp hx
      rw [← hsplit, List.append_assoc, List.cons_append] at h'
      unfold number at h'
      rw [takeWhile_append_cons _ _ hdot, dropWhile_append_cons _ _ hdot,
        List.takeWhile_eq_self_iff.2 hdigits, List.dropWhile_eq_nil_iff.2 hdigits] at h'
      simp only [List.nil_append] at h'
      split at h'
      · next hempty =>
        have htail : tail ≠ [] := by simpa using hfraction
        have := List.length_pos_iff.2 htail
        rw [List.isEmpty_iff.1 hempty] at hle
        exact absurd hle (by simpa using htail)
      · obtain ⟨-, -, rfl, -⟩ := Piece.token.inj h'
        have hlength := congrArg List.length hsplit
        simp only [List.length_append, List.length_cons] at hlength ⊢
        omega
  · obtain ⟨-, -, hall, -⟩ := Piece.token.inj h
    have hle := length_takeWhile_le (p := Text.isDigit) cs more
    rw [hall] at hle
    refine Nat.le_trans hle ?_
    unfold number at h'
    dsimp only at h'
    split at h'
    · split at h' <;> obtain ⟨-, -, rfl, -⟩ := Piece.token.inj h' <;> simp
    · obtain ⟨-, -, rfl, -⟩ := Piece.token.inj h'
      exact Nat.le_refl _

/-- The longer symbols come first, so the one that is found is the longest that fits. -/
theorem symbol_longest (h : symbol c cs = .token kind literal lexeme rest)
    (h' : symbol c (cs ++ more) = .token kind' literal' lexeme' rest') :
    lexeme.length ≤ lexeme'.length := by
  have hsorted : symbols.Pairwise fun s s' => s'.1.length ≤ s.1.length := by decide
  unfold symbol at h h'
  split at h
  · next found _ hfound =>
    split at h'
    · next found' _ hfound' =>
      obtain ⟨-, -, rfl, -⟩ := Piece.token.inj h
      obtain ⟨-, -, rfl, -⟩ := Piece.token.inj h'
      obtain ⟨hfits, -⟩ := List.find?_eq_some_iff_append.1 hfound
      obtain ⟨-, before, after, hsymbols, hbefore⟩ := List.find?_eq_some_iff_append.1 hfound'
      have hmem := List.mem_of_find?_eq_some hfound
      rw [hsymbols] at hmem hsorted
      -- a symbol in front of the one that is found would fit too
      rcases List.mem_append.1 hmem with hmem | hmem
      · have hnot := hbefore _ hmem
        have hprefix : found <+: cs ++ more :=
          (List.isPrefixOf_iff_prefix.1 hfits).trans (List.prefix_append cs more)
        simp [List.isPrefixOf_iff_prefix.2 hprefix] at hnot
      · rcases List.mem_cons.1 hmem with heq | hmem
        · rw [(Prod.mk.inj heq).1]
        · exact (List.pairwise_cons.1 (List.pairwise_append.1 hsorted).2.1).1 _ hmem
    · cases h'
  · cases h

/-- What is one token by itself is not cut shorter when more comes behind it. -/
theorem length_le_of_takesAll (h : TakesAll c cs)
    (h' : ofSource c (cs ++ more) = .token kind literal lexeme rest) :
    (c :: cs).length ≤ lexeme.length := by
  obtain ⟨kind₀, literal₀, h⟩ := h
  have hhead (d : Char) (hd : cs.head? = some d) : (cs ++ more).head? = some d := by
    cases cs with
    | nil => cases hd
    | cons e cs => exact hd
  unfold ofSource at h h'
  split_ifs at h with hfeed hblank hquote hdigit hname hline hblock
  · obtain ⟨-, -, hcs, -⟩ := Piece.token.inj h
    rw [if_pos hfeed] at h'
    obtain ⟨-, -, rfl, -⟩ := Piece.token.inj h'
    rw [hcs]
  · rw [if_neg hfeed, if_neg hblank, if_pos hquote] at h'
    rw [string_longest h h']
  · rw [if_neg hfeed, if_neg hblank, if_neg hquote, if_pos hdigit] at h'
    exact number_longest h h'
  · rw [if_neg hfeed, if_neg hblank, if_neg hquote, if_neg hdigit, if_pos hname] at h'
    obtain ⟨-, -, hall, -⟩ := Piece.token.inj h
    obtain ⟨-, -, rfl, -⟩ := Piece.token.inj h'
    have hle := length_takeWhile_le (p := Text.isNamePart) (c :: cs) more
    rwa [hall] at hle
  · cases h
  · unfold blockComment at h
    split at h <;> cases h
  · rw [if_neg hfeed, if_neg hblank, if_neg hquote, if_neg hdigit, if_neg hname] at h'
    split_ifs at h'
    · cases h'
    · unfold blockComment at h'
      split at h' <;> cases h'
    · exact symbol_longest h h'

/-- A word is read as one token, whose kind its letters tell. -/
theorem kind_of_isWord (h : ofSource c cs = .token kind literal lexeme rest) (hword : IsWord lexeme) :
    kind = Token.Kind.ofWord (String.ofList lexeme) := by
  obtain ⟨tail, rfl, -⟩ := ofSource_lexeme h
  have hname : Text.isNameStart c = true := hword.1
  have hne {d : Char} (hd : Text.isNameStart d = false) : c ≠ d := fun heq => by
    rw [heq, hd] at hname
    cases hname
  have hdigit : ¬Text.isDigit c = true := fun hdigit => by
    rw [Text.isNameStart_eq_false_of_isDigit hdigit] at hname
    cases hname
  unfold ofSource at h
  have hblank : ¬(c = ' ' ∨ c = '\t' ∨ c = '\r') :=
    not_or.2 ⟨hne (by decide), not_or.2 ⟨hne (by decide), hne (by decide)⟩⟩
  rw [if_neg (hne (by decide)), if_neg hblank, if_neg (hne (by decide)), if_neg hdigit,
    if_pos hname] at h
  obtain ⟨rfl, -, hletters, -⟩ := Piece.token.inj h
  rw [hletters]

end

end Piece

/-! ### Words -/

/-- The kind of a word is that of a reserved word if all of it is in the table. -/
theorem Token.Kind.ofWord_mem_iff (word : String) :
    ofWord word ∈ reserved.map Prod.snd ↔ word ∈ reserved.map Prod.fst := by
  unfold ofWord
  cases h : reserved.lookup word with
  | none =>
    refine iff_of_false (by decide) fun hmem => ?_
    obtain ⟨entry, hentry, rfl⟩ := List.mem_map.1 hmem
    exact absurd (List.lookup_eq_none_iff.1 h entry hentry) (by simp)
  | some kind =>
    obtain ⟨before, after, hsplit, -⟩ := List.lookup_eq_some_iff.1 h
    have hentry : (word, kind) ∈ reserved := by simp [hsplit]
    exact iff_of_true (List.mem_map_of_mem hentry) (List.mem_map_of_mem hentry)

/-! ### Tokens that stand alone -/

section

variable {source : List Char} {s : Span}

/-- What is one token by itself is one piece. -/
theorem IsToken.takesAll (h : IsToken source) : ∃ c cs, source = c :: cs ∧ Piece.TakesAll c cs := by
  obtain ⟨t, mark, htokens, hlexeme⟩ := h
  obtain ⟨spans, hspans, hcovers, hcuts⟩ := cuts_of_tokenizeFrom htokens
  obtain ⟨inner, last, rfl, -, -, hinner⟩ := hcovers.marked
  obtain ⟨s, rfl⟩ : ∃ s, inner = [s] := by
    have hlength := congrArg List.length hspans
    simp only [List.length_cons, List.length_nil, List.length_map, List.length_append] at hlength
    exact List.length_eq_one_iff.1 (by omega)
  obtain rfl : t = s.token := (List.cons.inj hspans).1
  obtain ⟨before, c, cs, literal, rest, hsource, -, hpiece⟩ :=
    hcuts s (by simp) (hinner s (by simp))
  obtain ⟨-, happ⟩ := Piece.token_splits hpiece
  -- the lexeme is all of the source, so nothing is left before it and behind it
  rw [String.toList_ofList, ← happ, hlexeme] at hsource
  have hlength := congrArg List.length hsource
  simp only [List.length_append] at hlength
  obtain rfl : rest = [] := List.length_eq_zero_iff.1 (by omega)
  rw [List.append_nil, hlexeme] at happ
  rw [hlexeme, happ] at hpiece
  exact ⟨c, cs, happ, _, _, hpiece⟩

theorem isToken_of_piece {c : Char} {cs lexeme rest : List Char} {kind : Token.Kind}
    {literal : Option Token.Literal} (h : Piece.ofSource c cs = .token kind literal lexeme rest) :
    IsToken lexeme := by
  have halone := Scan.start_lexeme h ⟨1, 1⟩ 0 breaks_nil
  rw [List.append_nil, Scan.start_nil] at halone
  obtain ⟨t, mark, hstart, ht⟩ : ∃ t mark, Scan.start ⟨1, 1⟩ 0 lexeme = ⟨[t, mark], none⟩ ∧
      t.lexeme = String.ofList lexeme := ⟨_, _, halone, rfl⟩
  refine ⟨t, mark, ?_, by rw [ht, String.toList_ofList]⟩
  rw [tokenize, tokenizeFrom, scanFrom, String.toList_ofList, hstart]
  rfl

/-- A token is the longest of the prefixes at its place that are tokens by themselves. -/
theorem Span.Cut.isGreatest (h : s.Cut source) :
    IsGreatest {m | s.start + m ≤ source.length ∧ IsToken (source.extract s.start (s.start + m))}
      s.token.lexeme.length := by
  obtain ⟨before, c, cs, literal, rest, rfl, hstart, hpiece⟩ := h
  obtain ⟨-, happ⟩ := Piece.token_splits hpiece
  have hextract (m : Nat) :
      (before ++ c :: cs).extract s.start (s.start + m) = (c :: cs).take m := by
    rw [hstart, List.extract_eq_take_drop, List.drop_left, Nat.add_sub_cancel_left]
  rw [← String.length_toList]
  constructor
  · refine ⟨?_, ?_⟩
    · rw [hstart, ← happ, List.length_append, List.length_append]
      omega
    · rw [hextract, ← happ, List.take_left]
      exact isToken_of_piece hpiece
  · rintro m ⟨hm, htoken⟩
    rw [hextract] at htoken
    obtain ⟨d, ds, htake, hall⟩ := htoken.takesAll
    have hlength := congrArg List.length htake
    rw [List.length_take, Nat.min_eq_left (by simp [hstart] at hm ⊢; omega)] at hlength
    obtain ⟨k, rfl⟩ : ∃ k, m = k + 1 := ⟨ds.length, hlength⟩
    obtain ⟨rfl, rfl⟩ := List.cons.inj htake
    rw [← List.take_append_drop k cs] at hpiece
    rw [hlength]
    exact Piece.length_le_of_takesAll hall hpiece

end

/-- Every token of a source is the longest at its place: its lexeme is the longest prefix of what is
left there that is a token by itself.  And a word is a reserved word if and only if all of it is in
the table of these. -/
theorem tokens_longest {line : Nat} {source : String} {tokens : List Token}
    (h : tokenizeFrom line source = .ok tokens) :
    ∃ spans : List Span, tokens = spans.map (·.token) ∧ Covers line source.toList 0 0 spans ∧
      ∀ s ∈ spans, s.token.kind ≠ .endMark →
        IsGreatest {m | s.start + m ≤ source.toList.length ∧
          IsToken (source.toList.extract s.start (s.start + m))} s.token.length ∧
        (IsWord s.token.lexeme.toList →
          (s.token.kind ∈ Token.Kind.reserved.map Prod.snd ↔
            s.token.lexeme ∈ Token.Kind.reserved.map Prod.fst)) := by
  obtain ⟨spans, htokens, hcovers, hcuts⟩ := cuts_of_tokenizeFrom h
  refine ⟨spans, htokens, hcovers, fun s hs hmark => ⟨?_, fun hword => ?_⟩⟩
  · rw [(hcovers.standing s hs).length]
    exact (hcuts s hs hmark).isGreatest
  · obtain ⟨_, _, _, _, _, -, -, hpiece⟩ := hcuts s hs hmark
    rw [Piece.kind_of_isWord hpiece hword, String.ofList_toList]
    exact Token.Kind.ofWord_mem_iff s.token.lexeme

/-- Symbols one behind the other, a number with two points, and a word that starts with a reserved
one. -/
theorem symbols_and_numbers_longest :
    let source := "=>=+++\x7b\x7d\x7d1.2.3.x lets"
    ∃ tokens, tokenize source = .ok tokens ∧
      ∃ spans : List Span, tokens = spans.map (·.token) ∧ Covers 1 source.toList 0 0 spans ∧
        ∀ s ∈ spans, s.token.kind ≠ .endMark →
          IsGreatest {m | s.start + m ≤ source.toList.length ∧
            IsToken (source.toList.extract s.start (s.start + m))} s.token.length ∧
          (IsWord s.token.lexeme.toList →
            (s.token.kind ∈ Token.Kind.reserved.map Prod.snd ↔
              s.token.lexeme ∈ Token.Kind.reserved.map Prod.fst)) := by
  intro source
  have hplain : ∀ c ∈ source.toList, Piece.isPlain c = true := List.all_eq_true.1 (by cbv)
  obtain ⟨tokens, htokens⟩ : ∃ tokens, tokenize source = .ok tokens :=
    ⟨_, by rw [tokenize, tokenizeFrom, Scan.result, scanFrom, Scan.start_of_isPlain _ _ hplain]⟩
  exact ⟨tokens, htokens, tokens_longest htokens⟩

end ScopedScript
