import Mathlib.Data.List.Find
import Mathlib.Data.List.TakeWhile
import ScopedScript.Prelude
import ScopedScript.SourceMap
import ScopedScript.Token.Scan

/-! # Scanning -/

namespace ScopedScript

/-! ### Places -/

namespace Position

/-- The place `k` lines further down. -/
def down (k : Nat) (p : Position) : Position := { p with line := p.line + k }

theorem after_down (k : Nat) (p : Position) (cs : List Char) :
    (p.down k).after cs = (p.after cs).down k := by
  induction cs generalizing p with
  | nil => rfl
  | cons c cs ih =>
    rw [after_cons, after_cons, ← ih]
    congr 1
    simp only [next, down]
    split
    · rw [Nat.add_right_comm]
    · rfl

theorem after_line (p : Position) (cs : List Char) :
    (p.after cs).line = p.line + cs.count '\n' := by
  induction cs generalizing p with
  | nil => rfl
  | cons c cs ih =>
    rw [after_cons, ih, next]
    split
    · next hc =>
      rw [hc, List.count_cons_self]
      simp only
      omega
    · next hc => rw [List.count_cons_of_ne hc]

end Position

/-- The token `k` lines further down. -/
def Token.down (k : Nat) (t : Token) : Token := { t with line := t.line + k }

/-- The error `k` lines further down. -/
def ScanError.down (k : Nat) (e : ScanError) : ScanError := { e with position := e.position.down k }

namespace Scan

variable {p : Position} {i : Nat} {c : Char} {cs : List Char}

theorem start_nil : start p i [] = ⟨[Token.make .endMark "" p.line p.column i none], none⟩ := by
  rw [start]

theorem start_fault {fault : ScanFault} (h : Piece.ofSource c cs = .fault fault) :
    start p i (c :: cs) = ⟨[], some ⟨fault, p⟩⟩ := by
  rw [start]
  split <;> simp_all

theorem start_skip {skipped rest : List Char} (h : Piece.ofSource c cs = .skip skipped rest) :
    start p i (c :: cs) = start (p.after skipped) i rest := by
  rw [start]
  split <;> simp_all

theorem start_token {kind : Token.Kind} {literal : Option Token.Literal} {lexeme rest : List Char}
    (h : Piece.ofSource c cs = .token kind literal lexeme rest) :
    start p i (c :: cs) =
      ⟨Token.make kind (String.ofList lexeme) p.line p.column i literal ::
        (start (p.after lexeme) (i + 1) rest).tokens,
        (start (p.after lexeme) (i + 1) rest).error⟩ := by
  rw [start]
  split <;> simp_all

/-- Scanning a source further down. -/
theorem start_down (k : Nat) (p : Position) (i : Nat) (source : List Char) :
    start (p.down k) i source =
      ⟨(start p i source).tokens.map (Token.down k),
        (start p i source).error.map (ScanError.down k)⟩ := by
  fun_induction start p i source with
  | case1 p i => rw [start_nil]; rfl
  | case2 p i c cs fault h => rw [start_fault h]; rfl
  | case3 p i c cs skipped rest h ih => rw [start_skip h, Position.after_down, ih]
  | case4 p i c cs kind literal lexeme rest h later ih =>
    rw [start_token h, Position.after_down, ih]
    rfl

end Scan

/-! ### Lines -/

/-- The number of lines of a row of characters. -/
def linesOf (cs : List Char) : Nat := cs.count '\n' + if cs.getLast? = some '\n' then 0 else 1

theorem lineCount_eq (source : String) : SourceMap.lineCount source = linesOf source.toList := rfl

theorem linesOf_append (cs : List Char) {ds : List Char} (h : ds ≠ []) :
    linesOf (cs ++ ds) = cs.count '\n' + linesOf ds := by
  unfold linesOf
  obtain ⟨d, hd⟩ := Option.ne_none_iff_exists'.1 (mt List.getLast?_eq_none_iff.1 h)
  rw [List.count_append, List.getLast?_append, hd, Option.some_or]
  omega

theorem linesOf_pos (cs : List Char) : 0 < linesOf cs := by
  unfold linesOf
  split
  · next hlast =>
    have : 0 < cs.count '\n' := List.count_pos_iff.2 (List.mem_of_getLast? hlast)
    omega
  · omega

/-! ### Pieces -/

namespace Piece

variable {c : Char} {cs rest : List Char}

/-- What is skipped, and what remains. -/
theorem skip_splits {skipped : List Char} (h : ofSource c cs = .skip skipped rest) :
    skipped ≠ [] ∧ skipped ++ rest = c :: cs := by
  have hsplits := ofSource_splits c cs
  rw [h] at hsplits
  exact hsplits

/-- The lexeme of a token, and what remains. -/
theorem token_splits {kind : Token.Kind} {literal : Option Token.Literal} {lexeme : List Char}
    (h : ofSource c cs = .token kind literal lexeme rest) :
    lexeme ≠ [] ∧ lexeme ++ rest = c :: cs := by
  have hsplits := ofSource_splits c cs
  rw [h] at hsplits
  exact hsplits

end Piece

theorem Token.Kind.ofWord_ne_endMark (word : String) : ofWord word ≠ .endMark := by
  have hreserved : ∀ p ∈ reserved, p.2 ≠ .endMark := by decide
  unfold ofWord
  cases h : reserved.lookup word with
  | none => simp
  | some kind =>
    obtain ⟨l, r, hsplit, _⟩ := List.lookup_eq_some_iff.1 h
    exact hreserved (word, kind) (by rw [hsplit]; simp)

/-- No piece of a source is the end mark. -/
theorem Piece.kind_ne_endMark {c : Char} {cs lexeme rest : List Char} {kind : Token.Kind}
    {literal : Option Token.Literal}
    (h : Piece.ofSource c cs = .token kind literal lexeme rest) : kind ≠ .endMark := by
  have hsymbols : ∀ s ∈ symbols, s.2 ≠ .endMark := by decide
  unfold ofSource at h
  split at h
  · cases h; simp
  split at h
  · cases h
  split at h
  · unfold string at h
    dsimp only at h
    split at h <;> cases h
    simp
  split at h
  · unfold number at h
    dsimp only at h
    split at h
    · split at h <;> cases h <;> simp
    · cases h; simp
  split at h
  · cases h
    exact Token.Kind.ofWord_ne_endMark _
  split at h
  · cases h
  split at h
  · unfold blockComment at h
    split at h <;> cases h
  · unfold symbol at h
    split at h
    · next hfind =>
      cases h
      exact hsymbols _ (List.mem_of_find?_eq_some hfind)
    · cases h

/-- The tokens of a source that has no fault: the end mark comes last, and the tokens before it
stand on the lines of the source. -/
theorem Scan.start_tokens (p : Position) (i : Nat) (source : List Char)
    (h : (start p i source).error = none) :
    ∃ inner mark, (start p i source).tokens = inner ++ [mark] ∧ mark.kind = .endMark ∧
      p.line ≤ mark.line ∧ (source = [] → inner = []) ∧
      ∀ t ∈ inner, t.kind ≠ .endMark ∧ p.line ≤ t.line ∧ t.line < p.line + linesOf source := by
  fun_induction start p i source with
  | case1 p i => exact ⟨[], _, rfl, rfl, Nat.le_refl _, fun _ => rfl, by simp⟩
  | case2 p i c cs fault h => cases h
  | case3 p i c cs skipped rest hpiece ih =>
    obtain ⟨hne, happ⟩ := Piece.skip_splits hpiece
    obtain ⟨inner, mark, htokens, hmark, hle, hempty, hinner⟩ := ih h
    rw [Position.after_line] at hle hinner
    refine ⟨inner, mark, htokens, hmark, by omega, by simp, fun t ht => ?_⟩
    obtain ⟨hkind, hlow, hhigh⟩ := hinner t ht
    have hrest : rest ≠ [] := fun hnil => by
      rw [hempty hnil] at ht
      cases ht
    rw [← happ, linesOf_append skipped hrest]
    exact ⟨hkind, by omega, by omega⟩
  | case4 p i c cs kind literal lexeme rest hpiece later ih =>
    obtain ⟨hne, happ⟩ := Piece.token_splits hpiece
    obtain ⟨inner, mark, htokens, hmark, hle, hempty, hinner⟩ := ih h
    rw [Position.after_line] at hle hinner
    refine ⟨_ :: inner, mark, congrArg (_ :: ·) htokens, hmark, by omega, by simp, ?_⟩
    refine List.forall_mem_cons.2 ⟨⟨Piece.kind_ne_endMark hpiece, Nat.le_refl _, ?_⟩, fun t ht => ?_⟩
    · have := linesOf_pos (c :: cs)
      change p.line < _
      omega
    · obtain ⟨hkind, hlow, hhigh⟩ := hinner t ht
      have hrest : rest ≠ [] := fun hnil => by
        rw [hempty hnil] at ht
        cases ht
      rw [← happ, linesOf_append lexeme hrest]
      exact ⟨hkind, by omega, by omega⟩


/-! ### A source after another -/

namespace Piece

/-- The piece with more characters after it. -/
def extend (more : List Char) : Piece → Piece
  | .token kind literal lexeme rest => .token kind literal lexeme (rest ++ more)
  | .skip skipped rest => .skip skipped (rest ++ more)
  | .fault f => .fault f

section

variable {p : Char → Bool} {c d : Char} (xs ys : List Char)

theorem takeWhile_append_cons (hd : p d = false) :
    (xs ++ d :: ys).takeWhile p = xs.takeWhile p := by
  induction xs with
  | nil => simp [hd]
  | cons x xs ih => simp only [List.cons_append, List.takeWhile_cons, ih]

theorem dropWhile_append_cons (hd : p d = false) :
    (xs ++ d :: ys).dropWhile p = xs.dropWhile p ++ d :: ys := by
  induction xs with
  | nil => simp [hd]
  | cons x xs ih =>
    simp only [List.cons_append, List.dropWhile_cons, ih]
    split <;> rfl

end

variable {c : Char} {cs : List Char} (more : List Char)

theorem closeComment_extend {inside rest : List Char}
    (h : closeComment cs = some (inside, rest)) :
    closeComment (cs ++ more) = some (inside, rest ++ more) := by
  fun_induction closeComment cs generalizing inside rest with
  | case1 r =>
    obtain ⟨rfl, rfl⟩ := Prod.mk.inj (Option.some.inj h)
    rfl
  | case2 c r hne ih =>
    obtain ⟨⟨inner, after⟩, hr, he⟩ := Option.map_eq_some_iff.1 h
    obtain ⟨rfl, rfl⟩ := Prod.mk.inj he
    rw [List.cons_append, closeComment, ih hr]
    · rfl
    · rintro rest' rfl hrest
      cases r with
      | nil => cases hr
      | cons d r =>
        obtain ⟨rfl, _⟩ := List.cons.inj hrest
        exact hne r rfl rfl
  | case3 => cases h

theorem string_extend {body : List Char} (h : ∀ fault, string body ≠ .fault fault) :
    string (body ++ more) = (string body).extend more := by
  unfold string at h ⊢
  dsimp only at h ⊢
  cases hdrop : body.dropWhile (· != '"') with
  | nil =>
    rw [hdrop] at h
    exact absurd rfl (h _)
  | cons q rest =>
    have hlength : (body.takeWhile (· != '"')).length ≠ body.length := by
      intro hlen
      have := congrArg List.length (List.takeWhile_append_dropWhile (p := (· != '"')) (l := body))
      simp [hdrop] at this
      omega
    rw [List.dropWhile_append, hdrop, List.takeWhile_append, if_neg hlength, if_neg (by simp)]
    rfl

theorem number_extend (hmore : more.head? = some '\n') (source : List Char) :
    number (source ++ more) = (number source).extend more := by
  obtain ⟨ys, rfl⟩ : ∃ ys, more = '\n' :: ys := by
    cases more with
    | nil => cases hmore
    | cons d ys => exact ⟨ys, by rw [Option.some.inj hmore]⟩
  have hdigit : Text.isDigit '\n' = false := by decide
  unfold number
  rw [takeWhile_append_cons _ _ hdigit, dropWhile_append_cons _ _ hdigit]
  dsimp only
  generalize source.dropWhile Text.isDigit = tail
  cases tail with
  | nil => simp [extend]
  | cons d rest =>
    by_cases hd : d = '.'
    · subst hd
      simp only [List.cons_append]
      rw [takeWhile_append_cons _ _ hdigit, dropWhile_append_cons _ _ hdigit]
      split <;> rfl
    · simp [hd, extend]

theorem isPrefixOf_append {lexeme source more : List Char} (hne : '\n' ∉ lexeme)
    (hmore : more.head? = some '\n') :
    lexeme.isPrefixOf (source ++ more) = lexeme.isPrefixOf source := by
  induction lexeme generalizing source with
  | nil => simp
  | cons x lexeme ih =>
    cases source with
    | nil =>
      cases more with
      | nil => cases hmore
      | cons d ys =>
        obtain rfl := Option.some.inj hmore
        have hx : (x == '\n') = false := beq_false_of_ne fun h => hne (by simp [h])
        simp [List.isPrefixOf, hx]
    | cons y source =>
      simp only [List.cons_append, List.isPrefixOf]
      rw [ih fun h => hne (List.mem_cons_of_mem x h)]

theorem symbol_extend (hmore : more.head? = some '\n') (c : Char) (source : List Char) :
    symbol c (source ++ more) = (symbol c source).extend more := by
  have hsymbols : ∀ s ∈ symbols, '\n' ∉ s.1 := by decide
  have hfind : symbols.find? (fun s => s.1.isPrefixOf (source ++ more)) =
      symbols.find? fun s => s.1.isPrefixOf source :=
    List.find?_congr fun s hs => isPrefixOf_append (hsymbols s hs) hmore
  unfold symbol
  rw [hfind]
  split
  · next lexeme kind heq =>
    have hpre := List.find?_some heq
    obtain ⟨rest, hrest⟩ := List.isPrefixOf_iff_prefix.1 hpre
    simp [extend, ← hrest]
  · rfl

/-- A piece that is complete at the end of a source is the same with a line feed after the source. -/
theorem ofSource_extend (hmore : more.head? = some '\n')
    (h : ∀ fault, ofSource c cs ≠ .fault fault) :
    ofSource c (cs ++ more) = (ofSource c cs).extend more := by
  obtain ⟨ys, rfl⟩ : ∃ ys, more = '\n' :: ys := by
    cases more with
    | nil => cases hmore
    | cons d ys => exact ⟨ys, by rw [Option.some.inj hmore]⟩
  have hhead (d : Char) (hd : d ≠ '\n') :
      (cs ++ '\n' :: ys).head? = some d ↔ cs.head? = some d := by
    cases cs with
    | nil => simp [hd.symm]
    | cons e cs => simp
  simp only [ofSource, hhead '/' (by decide), hhead '*' (by decide)] at h ⊢
  split_ifs at h ⊢ with _ _ _ _ _ _ hstar
  · rfl
  · rfl
  · exact string_extend _ h
  · rw [← List.cons_append]
    exact number_extend _ hmore _
  · have hpart : Text.isNamePart '\n' = false := by decide
    rw [← List.cons_append, word, takeWhile_append_cons _ _ hpart, dropWhile_append_cons _ _ hpart]
    rfl
  · rw [← List.cons_append, lineComment, takeWhile_append_cons _ _ (by decide),
      dropWhile_append_cons _ _ (by decide)]
    rfl
  · obtain ⟨body, rfl⟩ : ∃ body, cs = '*' :: body := by
      cases cs with
      | nil => cases hstar.2
      | cons d body => exact ⟨body, by rw [Option.some.inj hstar.2]⟩
    simp only [List.cons_append, List.tail_cons, blockComment] at h ⊢
    cases hclose : closeComment body with
    | none =>
      rw [hclose] at h
      exact absurd rfl (h _)
    | some r =>
      rw [closeComment_extend _ hclose]
      rfl
  · rw [← List.cons_append]
    exact symbol_extend _ hmore c _

end Piece

/-- The line feed that ends a line. -/
def lineFeed (p : Position) (index : Nat) : Token :=
  Token.make .newline "\n" p.line p.column index none

theorem Scan.start_feed (p : Position) (i : Nat) (more : List Char) :
    start p i ('\n' :: more) =
      ⟨lineFeed p i :: (start ⟨p.line + 1, 1⟩ (i + 1) more).tokens,
        (start ⟨p.line + 1, 1⟩ (i + 1) more).error⟩ :=
  start_token rfl

/-- A source without a fault, a line feed and another source: the tokens of the first up to its end
mark, the line feed, and the tokens of the other. -/
theorem Scan.start_append (p : Position) (i : Nat) (source more : List Char)
    (h : (start p i source).error = none) :
    ∃ inner mark, (start p i source).tokens = inner ++ [mark] ∧
      start p i (source ++ '\n' :: more) =
        ⟨inner ++ lineFeed (p.after source) (i + inner.length) ::
            (start ⟨(p.after source).line + 1, 1⟩ (i + inner.length + 1) more).tokens,
          (start ⟨(p.after source).line + 1, 1⟩ (i + inner.length + 1) more).error⟩ := by
  fun_induction start p i source with
  | case1 p i => exact ⟨[], _, rfl, start_feed p i more⟩
  | case2 p i c cs fault h => cases h
  | case3 p i c cs skipped rest hpiece ih =>
    obtain ⟨_, happ⟩ := Piece.skip_splits hpiece
    have hext : Piece.ofSource c (cs ++ '\n' :: more) = _ :=
      Piece.ofSource_extend ('\n' :: more) rfl (by simp [hpiece])
    rw [hpiece] at hext
    obtain ⟨inner, mark, htokens, hstart⟩ := ih h
    refine ⟨inner, mark, htokens, ?_⟩
    rw [List.cons_append, start_skip hext, hstart, ← happ, Position.after_append]
  | case4 p i c cs kind literal lexeme rest hpiece later ih =>
    obtain ⟨_, happ⟩ := Piece.token_splits hpiece
    have hext : Piece.ofSource c (cs ++ '\n' :: more) = _ :=
      Piece.ofSource_extend ('\n' :: more) rfl (by simp [hpiece])
    rw [hpiece] at hext
    obtain ⟨inner, mark, htokens, hstart⟩ := ih h
    refine ⟨_ :: inner, mark, congrArg (_ :: ·) htokens, ?_⟩
    rw [List.cons_append, start_token hext, hstart, ← happ, Position.after_append,
      List.length_cons, Nat.add_right_comm i 1, Nat.add_assoc i]
    rfl


/-! ### Sources -/

/-- Scanning a source further down. -/
theorem tokenizeFrom_down (line k : Nat) (source : String) :
    tokenizeFrom (line + k) source =
      ((tokenizeFrom line source).map (·.map (Token.down k))).mapError (ScanError.down k) := by
  unfold tokenizeFrom scanFrom
  rw [show (⟨line + k, 1⟩ : Position) = Position.down k ⟨line, 1⟩ from rfl, Scan.start_down]
  unfold Scan.result
  cases (Scan.start ⟨line, 1⟩ 0 source.toList).error <;> rfl

theorem start_of_tokenizeFrom {line : Nat} {source : String} {tokens : List Token}
    (h : tokenizeFrom line source = .ok tokens) :
    (scanFrom line source).error = none ∧ (scanFrom line source).tokens = tokens := by
  unfold tokenizeFrom Scan.result at h
  split at h
  · cases h
  · next herror => exact ⟨herror, Except.ok.inj h⟩

theorem tokenizeFrom_ok {line : Nat} {source : String} {tokens : List Token}
    (h : tokenizeFrom line source = .ok tokens) :
    ∃ inner mark, tokens = inner ++ [mark] ∧ mark.kind = .endMark ∧ line ≤ mark.line ∧
      ∀ t ∈ inner, t.kind ≠ .endMark ∧ line ≤ t.line ∧
        t.line < line + SourceMap.lineCount source := by
  obtain ⟨herror, rfl⟩ := start_of_tokenizeFrom h
  obtain ⟨inner, mark, htokens, hmark, hle, _, hinner⟩ :=
    Scan.start_tokens ⟨line, 1⟩ 0 source.toList herror
  exact ⟨inner, mark, htokens, hmark, hle, hinner⟩

/-- Wherever the tokens of a source are put, an end mark is among them. -/
theorem endMark_mem_shift {line : Nat} {source : String} {tokens : List Token}
    (h : tokenizeFrom line source = .ok tokens) (k : Nat) :
    ∃ t ∈ tokens.map (Token.shift k), t.kind = .endMark := by
  obtain ⟨inner, mark, rfl, hmark, -⟩ := tokenizeFrom_ok h
  exact ⟨mark.shift k, List.mem_map_of_mem (List.mem_append_right _ (List.mem_singleton_self _)),
    hmark⟩

theorem Scan.start_error_line (p : Position) (i : Nat) (source : List Char) {e : ScanError}
    (h : (start p i source).error = some e) : p.line ≤ e.position.line := by
  fun_induction start p i source with
  | case1 p i => cases h
  | case2 p i c cs fault hpiece =>
    obtain rfl := Option.some.inj h
    exact Nat.le_refl _
  | case3 p i c cs skipped rest hpiece ih =>
    exact Nat.le_trans (by rw [Position.after_line]; omega) (ih h)
  | case4 p i c cs kind literal lexeme rest hpiece later ih =>
    exact Nat.le_trans (by rw [Position.after_line]; omega) (ih h)

theorem tokenizeFrom_error {line : Nat} {source : String} {e : ScanError}
    (h : tokenizeFrom line source = .error e) : line ≤ e.position.line := by
  unfold tokenizeFrom Scan.result at h
  split at h
  · next herror =>
    obtain rfl := Except.error.inj h
    exact Scan.start_error_line ⟨line, 1⟩ 0 source.toList herror
  · cases h

/-- Whether a source can be scanned does not depend on where it stands. -/
theorem Scan.start_error (p : Position) (i : Nat) (source : List Char)
    (h : (start p i source).error = none) (q : Position) (j : Nat) :
    (start q j source).error = none := by
  fun_induction start p i source generalizing q j with
  | case1 p i => rw [start_nil]
  | case2 p i c cs fault hpiece => cases h
  | case3 p i c cs skipped rest hpiece ih =>
    rw [start_skip hpiece]
    exact ih h _ _
  | case4 p i c cs kind literal lexeme rest hpiece later ih =>
    rw [start_token hpiece]
    exact ih h _ _

theorem scan_lines {lines : List String} (h : ∀ l ∈ lines, (scan l).error = none) (p : Position)
    (i : Nat) : (Scan.start p i (String.join (lines.map (· ++ "\n"))).toList).error = none := by
  induction lines generalizing p i with
  | nil => simp [Scan.start_nil]
  | cons l lines ih =>
    have hl := Scan.start_error _ _ _ (h l List.mem_cons_self) p i
    obtain ⟨_, _, _, hstart⟩ := Scan.start_append p i l.toList
      (String.join (lines.map (· ++ "\n"))).toList hl
    have hchars : (String.join ((l :: lines).map (· ++ "\n"))).toList =
        l.toList ++ '\n' :: (String.join (lines.map (· ++ "\n"))).toList := by
      simp
    rw [hchars, hstart]
    exact ih (fun l' hl' => h l' (List.mem_cons_of_mem l hl')) _ _

/-! ### The prelude -/

namespace Piece

/-- Characters that are symbols by themselves. -/
def singles : List Char := ['(', ')', '[', ']', '\x7b', '\x7d', ',', '.', ':', '<', '>', '=', '+']

/-- Characters that start no piece that could be cut short. -/
def isPlain (c : Char) : Bool :=
  c == ' ' || Text.isDigit c || Text.isNameStart c || singles.contains c

theorem symbol_of_single {c : Char} (hc : c ∈ singles) (cs : List Char) (fault : ScanFault) :
    symbol c (c :: cs) ≠ .fault fault := by
  have hsingles : (singles.all fun c => symbols.any fun s => s.1 == [c]) = true := by decide
  obtain ⟨s, hs, hchar⟩ := List.any_eq_true.1 (List.all_eq_true.1 hsingles c hc)
  rw [beq_iff_eq] at hchar
  unfold symbol
  split
  · simp
  · next hnone =>
    exact absurd (by simp [hchar]) (List.find?_eq_none.1 hnone s hs)

theorem ofSource_of_isPlain {c : Char} (hc : isPlain c = true) (cs : List Char)
    (fault : ScanFault) : ofSource c cs ≠ .fault fault := by
  have hothers : isPlain '"' = false ∧ isPlain '/' = false := by decide
  unfold ofSource
  split_ifs with _ hblank hquote hdigit hname _ hslash
  · simp
  · simp
  · rw [hquote, hothers.1] at hc
    cases hc
  · unfold number
    dsimp only
    split
    · split <;> simp
    · simp
  · simp [word]
  · simp [lineComment]
  · rw [hslash.1, hothers.2] at hc
    cases hc
  · refine symbol_of_single ?_ cs fault
    simp only [not_or] at hblank
    simpa [isPlain, hblank.1, hdigit, hname] using hc

end Piece

theorem Scan.start_of_isPlain (p : Position) (i : Nat) {source : List Char}
    (h : ∀ c ∈ source, Piece.isPlain c = true) : (start p i source).error = none := by
  fun_induction start p i source with
  | case1 p i => rfl
  | case2 p i c cs fault hpiece =>
    exact absurd hpiece (Piece.ofSource_of_isPlain (h c List.mem_cons_self) cs fault)
  | case3 p i c cs skipped rest hpiece ih =>
    obtain ⟨_, happ⟩ := Piece.skip_splits hpiece
    exact ih fun d hd => h d (happ ▸ List.mem_append_right _ hd)
  | case4 p i c cs kind literal lexeme rest hpiece later ih =>
    obtain ⟨_, happ⟩ := Piece.token_splits hpiece
    exact ih fun d hd => h d (happ ▸ List.mem_append_right _ hd)

theorem Scan.start_of_comment (p : Position) (i : Nat) {source : List Char}
    (h : ['/', '/'].isPrefixOf source = true) (hfeed : '\n' ∉ source) :
    (start p i source).error = none := by
  obtain ⟨rest, rfl⟩ := List.isPrefixOf_iff_prefix.1 h
  have hpiece : Piece.ofSource '/' ('/' :: rest) = Piece.lineComment ('/' :: '/' :: rest) := rfl
  have hall : ∀ c ∈ '/' :: '/' :: rest, (c != '\n') = true := fun c hc => by
    simpa using fun heq : c = '\n' => hfeed (heq ▸ hc)
  rw [Piece.lineComment, List.dropWhile_eq_nil_iff.2 hall] at hpiece
  change (start p i ('/' :: '/' :: rest)).error = none
  rw [start_skip hpiece, start_nil]

set_option maxRecDepth 100000 in
theorem prelude_lines_all : (Prelude.lines.all fun l => l.toList.all Piece.isPlain ||
    (['/', '/'].isPrefixOf l.toList && l.toList.all (· != '\n'))) = true := by
  decide +kernel

theorem prelude_lines : ∀ l ∈ Prelude.lines, (∀ c ∈ l.toList, Piece.isPlain c = true) ∨
    ['/', '/'].isPrefixOf l.toList = true ∧ '\n' ∉ l.toList := by
  intro l hl
  have hline := List.all_eq_true.1 prelude_lines_all l hl
  rw [Bool.or_eq_true, Bool.and_eq_true, List.all_eq_true, List.all_eq_true] at hline
  refine hline.imp_right fun ⟨hslashes, hfeed⟩ => ⟨hslashes, fun hmem => ?_⟩
  simpa using hfeed _ hmem

/-- The prelude can be scanned wherever it stands. -/
theorem tokenizeFrom_prelude (line : Nat) :
    ∃ tokens, tokenizeFrom line Prelude.source = .ok tokens := by
  have herror : (scanFrom line Prelude.source).error = none := by
    refine scan_lines (fun l hl => ?_) _ _
    rcases prelude_lines l hl with hplain | ⟨hcomment, hfeed⟩
    · exact Scan.start_of_isPlain _ _ hplain
    · exact Scan.start_of_comment _ _ hcomment hfeed
  exact ⟨_, by rw [tokenizeFrom, Scan.result, herror]⟩

end ScopedScript
