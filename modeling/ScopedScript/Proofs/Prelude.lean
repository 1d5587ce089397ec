import ScopedScript.Proofs.Parsing.Programs
import ScopedScript.Proofs.Scanning
import ScopedScript.Scope

/-! # The prelude by itself

The prelude can be scanned, read and analysed, it ends with a line feed, and nothing in it waits for
what comes after it: there is no `if` that an `else` could go on from, and no statement is left
empty.  It is a row of two classes (`RowOfClasses`).  This is found by evaluation.  The scanner and
the reader of statements go by what is left of their input, so each has a twin here that goes by a
bound and can be evaluated (`Scan.within`, `Grammar.rowWithin`); the twins give the same answers. -/

namespace ScopedScript

/-! ### Scanning by a bound -/

/-- Scans a source of fewer characters than the bound. -/
def Scan.within : Nat → Position → Nat → List Char → Scan
  | 0, _, _, _ => ⟨[], none⟩
  | _ + 1, p, index, [] => ⟨[Token.make .endMark "" p.line p.column index none], none⟩
  | bound + 1, p, index, c :: cs =>
    match Piece.ofSource c cs with
    | .fault fault => ⟨[], some ⟨fault, p⟩⟩
    | .skip skipped rest => within bound (p.after skipped) index rest
    | .token kind literal lexeme rest =>
      let later := within bound (p.after lexeme) (index + 1) rest
      ⟨Token.make kind (String.ofList lexeme) p.line p.column index literal :: later.tokens,
        later.error⟩

theorem Piece.rest_length {c : Char} {cs piece rest : List Char}
    (h : piece ≠ [] ∧ piece ++ rest = c :: cs) : rest.length ≤ cs.length := by
  have hlength := congrArg List.length h.2
  have hpos := List.length_pos_iff.2 h.1
  simp only [List.length_append, List.length_cons] at hlength
  omega

theorem Scan.within_eq {bound : Nat} {source : List Char} (h : source.length < bound)
    (p : Position) (index : Nat) : within bound p index source = start p index source := by
  induction bound generalizing source p index with
  | zero => omega
  | succ bound ih =>
    cases source with
    | nil => rw [within, start_nil]
    | cons c cs =>
      have hsplits := Piece.ofSource_splits c cs
      have hcs : cs.length < bound := by
        simp only [List.length_cons] at h
        omega
      rw [within]
      cases hpiece : Piece.ofSource c cs with
      | fault fault => rw [start_fault hpiece]
      | skip skipped rest =>
        rw [hpiece] at hsplits
        have hle := Piece.rest_length hsplits
        rw [start_skip hpiece]
        exact ih (by omega) _ _
      | token kind literal lexeme rest =>
        rw [hpiece] at hsplits
        have hle := Piece.rest_length hsplits
        rw [start_token hpiece]
        dsimp only
        rw [ih (by omega)]

/-! ### Reading by a bound -/

namespace Grammar

/-- Reads at most so many statements up to the end mark. -/
def rowWithin (depth : Nat) : Nat → Cursor → Except Failure (List Stmt × Cursor)
  | 0, _ => .error .outOfFuel
  | bound + 1, c =>
    if c.atEnd then .ok ([], c)
    else
      match topStatement depth c with
      | .error e => .error e
      | .ok (s, c') =>
        if c'.rest.length < c.rest.length then
          (rowWithin depth bound c').map fun r => (s :: r.1, r.2)
        else .error .outOfFuel

theorem programRow_of_within {depth bound : Nat} {c : Cursor} {r : List Stmt × Cursor}
    (h : rowWithin depth bound c = .ok r) : programRow depth c = .ok r := by
  induction bound generalizing c r with
  | zero => cases h
  | succ bound ih =>
    rw [rowWithin] at h
    split at h
    · next hend => rw [programRow_atEnd hend, h]
    · next hend =>
      split at h
      · cases h
      · next s c' hs =>
        split at h
        · next hlt =>
          cases hrow : rowWithin depth bound c' with
          | error e =>
            rw [hrow] at h
            cases h
          | ok r' =>
            rw [hrow] at h
            rw [programRow_cons (Bool.eq_false_iff.2 hend) hs hlt, ih hrow, ← h]
        · cases h

end Grammar

/-! ### Evaluation -/

open Grammar

/-- The names of the classes that the prelude declares. -/
def Prelude.classes : List String := ["Array", "String"]

/-- Is the program a row of classes of these names, with no classes inside? -/
def isRowOfClasses : List String → Program → Bool
  | [], [] => true
  | name :: names, .classDecl c :: p =>
    c.name.lexeme == name && (c.places .top).all (·.shape != .classDecl) && isRowOfClasses names p
  | _, _ => false

/-- The program is a row of classes of these names, with no classes inside. -/
inductive RowOfClasses : List String → Program → Prop
  | nil : RowOfClasses [] []
  | cons {c : ClassDecl} {names : List String} {p : Program} :
      (∀ r ∈ c.places .top, r.shape ≠ .classDecl) → RowOfClasses names p →
      RowOfClasses (c.name.lexeme :: names) (.classDecl c :: p)

theorem rowOfClasses_of_isRowOfClasses {names : List String} {p : Program}
    (h : isRowOfClasses names p = true) : RowOfClasses names p := by
  fun_induction isRowOfClasses names p with
  | case1 => exact .nil
  | case2 name names c p ih =>
    rw [Bool.and_eq_true, Bool.and_eq_true, beq_iff_eq] at h
    obtain ⟨⟨rfl, hplaces⟩, hrest⟩ := h
    refine .cons (fun r hr => ?_) (ih hrest)
    simpa using List.all_eq_true.1 hplaces r hr
  | case3 => cases h

/-- So is a program that is like it. -/
theorem RowOfClasses.alike {L : TreeLikeness} {sure : Bool} {ctx : Surroundings}
    (hL : ∀ t t', L.token t t' → t'.lexeme = t.lexeme) {names : List String} {p p' : Program}
    (h : RowOfClasses names p) (hp : stmtsAlike L sure ctx p p') : RowOfClasses names p' := by
  induction h generalizing ctx p' with
  | nil =>
    obtain rfl := hp
    exact .nil
  | @cons c names p hplaces _ ih =>
    obtain ⟨s', q, rfl, hs, hq⟩ := hp
    obtain ⟨-, c', rfl, hc⟩ := hs
    rw [← hL _ _ hc.name]
    refine .cons (fun r hr hshape => ?_) (ih hq)
    have hmem : Shape.classDecl ∈ (c'.places .top).map Place.shape :=
      List.mem_map.2 ⟨r, hr, hshape⟩
    rw [ClassDecl.Alike.shape .top .top c hc] at hmem
    obtain ⟨r', hr', hshape'⟩ := List.mem_map.1 hmem
    exact hplaces r' hr' hshape'

/-- Do the tokens of a source, with the end mark in the place of a line feed at the end, spell the
classes of the prelude, in a program that can be analysed, without an `if` or an empty statement? -/
def isSelfContained (tokens : List Token) : Bool :=
  match tokens.reverse with
  | mark :: feed :: inner =>
    mark.kind == .endMark && feed.kind == .newline &&
    inner.all (fun t => t.kind != .endMark && t.kind != .kwIf) &&
    match inner.reverse ++ [mark] with
    | [] => false
    | t :: ts =>
      match skipNewlines ⟨t, t :: ts, 0⟩ with
      | .error _ => false
      | .ok (_, c) =>
        match rowWithin (depthBound (ts.length + 1)) ts.length c with
        | .error _ => false
        | .ok (p, _) =>
          (resolve {} p).1.isOk && (Program.places p).all Place.isFilled &&
            isRowOfClasses Prelude.classes p
  | _ => false

/-- What the evaluation of a text that ends with a line feed says. -/
structure SelfContained (inner : List Token) (feed mark : Token) (program : Program) : Prop where
  isFeed : feed.kind = .newline
  isMark : mark.kind = .endMark
  plain : ∀ t ∈ inner, t.kind ≠ .endMark ∧ t.kind ≠ .kwIf
  read : ∃ nextId, parseFrom 0 (inner ++ [mark]) = .ok (program, nextId)
  analysed : ∃ distances, resolve {} program = (.ok (), distances)
  filled : ∀ r ∈ program.places, r.node ≠ .stmt .empty
  classes : RowOfClasses Prelude.classes program

theorem selfContained_of_isSelfContained {tokens : List Token}
    (h : isSelfContained tokens = true) : ∃ inner feed mark program,
    tokens = inner ++ [feed, mark] ∧ SelfContained inner feed mark program := by
  unfold isSelfContained at h
  split at h
  swap
  · cases h
  next mark feed inner htokens =>
    rw [Bool.and_eq_true, Bool.and_eq_true, Bool.and_eq_true] at h
    obtain ⟨⟨⟨hmark, hfeed⟩, hinner⟩, h⟩ := h
    split at h
    · cases h
    next t ts hts =>
      split at h
      · cases h
      next c hskip =>
        split at h
        · cases h
        next program d hrow =>
          rw [Bool.and_eq_true, Bool.and_eq_true] at h
          obtain ⟨⟨hresolve, hfilled⟩, hclasses⟩ := h
          refine ⟨inner.reverse, feed, mark, program, ?_, by simpa using hfeed, by simpa using hmark,
            fun t ht => ?_, ⟨d.nextId, ?_⟩, ?_, fun r hr => ?_,
            rowOfClasses_of_isRowOfClasses hclasses⟩
          · rw [← List.reverse_reverse tokens, htokens]
            simp
          · simpa using List.all_eq_true.1 hinner t (List.mem_reverse.1 ht)
          · rw [hts]
            exact parseFrom_of_programRow hskip (programRow_of_within hrow)
          · cases hr : resolve {} program with
            | mk resolved distances =>
              rw [hr] at hresolve
              cases resolved with
              | error e => cases hresolve
              | ok u => exact ⟨distances, rfl⟩
          · exact Node.isFilled_iff.1 (List.all_eq_true.1 hfilled r hr)

/-- The characters of the prelude, line by line. -/
def Prelude.chars : List Char := Prelude.lines.flatMap fun l => l.toList ++ ['\n']

theorem prelude_chars : Prelude.source.toList = Prelude.chars := by
  have hjoin (lines : List String) : (String.join (lines.map (· ++ "\n"))).toList =
      lines.flatMap fun l => l.toList ++ ['\n'] := by
    induction lines with
    | nil => rfl
    | cons l lines ih => simpa using ih
  exact hjoin Prelude.lines

/-- The tokens of a source, found by a bound. -/
theorem tokenizeFrom_eq_within {line bound : Nat} {source : String} {chars : List Char}
    (hchars : source.toList = chars) (hbound : chars.length < bound)
    (h : ∃ tokens, tokenizeFrom line source = .ok tokens) :
    tokenizeFrom line source = .ok (Scan.within bound ⟨line, 1⟩ 0 chars).tokens := by
  obtain ⟨tokens, hscan⟩ := h
  obtain ⟨_, rfl⟩ := start_of_tokenizeFrom hscan
  rw [hscan, scanFrom, hchars, Scan.within_eq hbound]

set_option maxRecDepth 100000 in
theorem prelude_length : Prelude.chars.length < 2000 := by decide +kernel

set_option maxRecDepth 100000 in
theorem prelude_isSelfContained :
    isSelfContained (Scan.within 2000 ⟨1, 1⟩ 0 Prelude.chars).tokens = true := by
  decide +kernel

/-- The prelude, from the first line on. -/
theorem prelude_selfContained : ∃ inner feed mark program,
    tokenizeFrom 1 Prelude.source = .ok (inner ++ [feed, mark]) ∧
      SelfContained inner feed mark program := by
  obtain ⟨inner, feed, mark, program, htokens, h⟩ :=
    selfContained_of_isSelfContained prelude_isSelfContained
  refine ⟨inner, feed, mark, program, ?_, h⟩
  have hscan := tokenizeFrom_eq_within prelude_chars prelude_length (tokenizeFrom_prelude 1)
  rw [hscan, htokens]

/-- All but the end mark of the prelude is what can stand in front of a source. -/
theorem selfContained_of_leading {leading : List Token} {mark : Token}
    (h : tokenizeFrom 1 Prelude.source = .ok (leading ++ [mark])) :
    ∃ inner feed program, leading = inner ++ [feed] ∧ SelfContained inner feed mark program := by
  obtain ⟨inner, feed, mark', program, hscan, hself⟩ := prelude_selfContained
  have hrows := Except.ok.inj (h.symm.trans hscan)
  rw [List.append_cons inner] at hrows
  obtain ⟨rfl, hmarks⟩ := List.append_inj' hrows rfl
  obtain rfl := List.singleton_inj.1 hmarks
  exact ⟨inner, feed, program, rfl, hself⟩

end ScopedScript
