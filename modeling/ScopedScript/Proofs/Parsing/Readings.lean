import Mathlib.Data.Nat.Init
import ScopedScript.Proofs.Parsing.Rules
import ScopedScript.Proofs.Parsing.Spelling

/-! # What the productions make of a row

Rules for productions that read a given row of tokens to its end, for the levels of expressions.

* **Readings.** `Parses x c P` says that the production `x` comes from the cursor `c` to a tree and a
  cursor with `P`, unless the bound on the depth runs out.  That it does not is known of whole
  programs, so no bound has to be followed through the productions.
* **What follows.** An expression is read to its end if the next token does not go on with it at the
  level that is being read (`Closes`).
* **Operators to the left.** The productions collect the operands of a level in a loop, while the
  tree has the first operand innermost.  So the rule for a left operand says how reading goes on
  behind it, whatever is made of the tree then (`HeadReads`, `ChainReads`).

All that the productions make of one expression is collected in `Grammar.Read`. -/

namespace ScopedScript

/-! ### Trees without numbers -/

mutual

/-- The expression with every number `0`.  Functions are left as they are. -/
def Expr.unnumbered : Expr → Expr
  | .grouping inner => .grouping inner.unnumbered
  | .binary left operator right => .binary left.unnumbered operator right.unnumbered
  | .unary operator operand => .unary operator operand.unnumbered
  | .literal kind value => .literal kind value.unnumbered
  | .name _ token => .name 0 token
  | .this _ keyword => .this 0 keyword
  | .function token declaration => .function token declaration
  | .call callee paren args => .call callee.unnumbered paren (exprsUnnumbered args)
  | .index _ name index => .index 0 name index.unnumbered
  | .get object name => .get object.unnumbered name
  | .set object name value => .set object.unnumbered name value.unnumbered
  | .object brace entries => .object brace (entriesUnnumbered entries)
  | .assign _ name value => .assign 0 name value.unnumbered

/-- The expressions with every number `0`. -/
def exprsUnnumbered : List Expr → List Expr
  | [] => []
  | e :: es => e.unnumbered :: exprsUnnumbered es

/-- The literal value with every number `0`. -/
def LiteralValue.unnumbered : LiteralValue → LiteralValue
  | .list elements => .list (exprsUnnumbered elements)
  | value => value

/-- The properties with every number `0`. -/
def entriesUnnumbered : List Entry → List Entry
  | [] => []
  | .mk key value :: es => .mk key value.unnumbered :: entriesUnnumbered es

end

theorem name_of_unnumbered {e : Expr} {id : NodeId} {token : Token}
    (h : e.unnumbered = .name id token) : ∃ id', e = .name id' token := by
  cases e <;> simp [Expr.unnumbered] at h
  exact ⟨_, by rw [h.2]⟩

theorem get_of_unnumbered {e object : Expr} {name : Token} (h : e.unnumbered = .get object name) :
    ∃ object', e = .get object' name ∧ object'.unnumbered = object := by
  cases e <;> simp [Expr.unnumbered] at h
  exact ⟨_, by rw [h.2], h.1⟩

theorem entriesUnnumbered_append (es ds : List Entry) :
    entriesUnnumbered (es ++ ds) = entriesUnnumbered es ++ entriesUnnumbered ds := by
  induction es with
  | nil => rfl
  | cons e es ih =>
    obtain ⟨key, value⟩ := e
    rw [List.cons_append, entriesUnnumbered, entriesUnnumbered, ih, List.cons_append]

namespace Grammar

/-! ### Readings -/

/-- A tree and a cursor with `P`, or no room left for reading. -/
inductive Outcome {α : Type} (P : α → Cursor → Prop) : Except Failure (α × Cursor) → Prop
  | outOfFuel : Outcome P (.error .outOfFuel)
  | tree {a : α} {c : Cursor} : P a c → Outcome P (.ok (a, c))

/-- From the cursor, the production comes to a tree and a cursor with `P`, if its bound allows. -/
def Parses {α : Type} (x : Parse α) (c : Cursor) (P : α → Cursor → Prop) : Prop := Outcome P (x c)

namespace Parses

section

variable {α β : Type} {x : Parse α} {k : α → Parse β} {c : Cursor} {P : α → Cursor → Prop}
  {Q : β → Cursor → Prop} {t : Token} {rest : List Token}

theorem pure {a : α} (h : P a c) : Parses (Pure.pure a) c P := .tree h

theorem outOfFuel : Parses (throw .outOfFuel) c P := Outcome.outOfFuel

theorem bind (hx : Parses x c P) (hk : ∀ a c₁, P a c₁ → Parses (k a) c₁ Q) :
    Parses (x >>= k) c Q := by
  unfold Parses at hx
  change Outcome Q (x c >>= fun p => k p.1 p.2)
  generalize x c = r at hx
  cases hx with
  | outOfFuel => exact .outOfFuel
  | tree h => exact hk _ _ h

theorem imp {P' : α → Cursor → Prop} (h : Parses x c P) (hP : ∀ a c₁, P a c₁ → P' a c₁) :
    Parses x c P' := by
  unfold Parses at h ⊢
  generalize x c = r at h
  cases h with
  | outOfFuel => exact .outOfFuel
  | tree h => exact .tree (hP _ _ h)

theorem get {k : Cursor → Parse β} (h : Parses (k c) c Q) : Parses (MonadState.get >>= k) c Q := h

theorem peek {k : Token → Parse β} (h : Parses (k c.peek) c Q) : Parses (Grammar.peek >>= k) c Q :=
  h

theorem freshId (hc : c.rest = rest) : Parses Grammar.freshId c fun _ c₁ => c₁.rest = rest :=
  .tree hc

end

/-! ### Tokens in view -/

section

variable {α β : Type} {c : Cursor} {P : α → Cursor → Prop} {t : Token} {rest : List Token}

theorem peek_eq (hc : c.rest = t :: rest) : c.peek = t := by simp [Cursor.peek, hc]

theorem atEnd_eq (hc : c.rest = t :: rest) (ht : t.kind ≠ .endMark) : c.atEnd = false := by
  simpa [Cursor.atEnd, peek_eq hc] using ht

theorem check_of_eq (hc : c.rest = t :: rest) {kind : Token.Kind} (ht : t.kind = kind)
    (hkind : kind ≠ .endMark) : c.check kind = true := by
  simp [Cursor.check, Cursor.atEnd, peek_eq hc, ht, hkind]

theorem check_of_ne (hc : c.rest = t :: rest) {kind : Token.Kind} (ht : t.kind ≠ kind) :
    c.check kind = false := by
  simp [Cursor.check, peek_eq hc, ht]

theorem advance (hc : c.rest = t :: rest) (ht : t.kind ≠ .endMark) :
    Parses Grammar.advance c fun a c₁ => a = t ∧ c₁.rest = rest := by
  obtain ⟨last, _, nextId⟩ := c
  obtain rfl := hc
  unfold Parses
  rw [Reads.advance_cons ht]
  exact .tree ⟨rfl, rfl⟩

theorem expect (hc : c.rest = t :: rest) {kind : Token.Kind} (ht : t.kind = kind)
    (hkind : kind ≠ .endMark) (what : Expectation) :
    Parses (Grammar.expect kind what) c fun a c₁ => a = t ∧ c₁.rest = rest := by
  change Outcome _ ((if c.check kind then _ else _ : Parse Token) c)
  rw [if_pos (check_of_eq hc ht hkind)]
  exact advance hc (ht ▸ hkind)

/-- Taking a token that is there. -/
theorem accept (hc : c.rest = t :: rest) {kind : Token.Kind} (ht : t.kind = kind)
    (hkind : kind ≠ .endMark) {k : Bool → Parse α}
    (h : ∀ c₁, c₁.rest = rest → Parses (k true) c₁ P) : Parses (Grammar.accept kind >>= k) c P := by
  have haccept : Parses (Grammar.accept kind) c fun a c₁ => a = true ∧ c₁.rest = rest := by
    change Outcome _ ((if c.check kind then _ else _ : Parse Bool) c)
    rw [if_pos (check_of_eq hc ht hkind)]
    exact (advance hc (ht ▸ hkind)).bind fun _ c₁ h₁ => .pure ⟨rfl, h₁.2⟩
  refine haccept.bind fun a c₁ h₁ => ?_
  rw [h₁.1]
  exact h c₁ h₁.2

/-- Going on without a token that is not there. -/
theorem accept_other (hc : c.rest = t :: rest) {kind : Token.Kind} (ht : t.kind ≠ kind)
    {k : Bool → Parse α} (h : Parses (k false) c P) : Parses (Grammar.accept kind >>= k) c P := by
  have haccept : Grammar.accept kind c = .ok (false, c) := by
    change (if c.check kind then _ else _ : Parse Bool) c = _
    rw [if_neg (by simp [check_of_ne hc ht])]
    rfl
  unfold Parses
  rw [Reads.bind_ok haccept]
  exact h

theorem acceptAny (hc : c.rest = t :: rest) {kinds : List Token.Kind} (ht : t.kind ∈ kinds)
    (hend : t.kind ≠ .endMark) {k : Option Token → Parse α}
    (h : ∀ c₁, c₁.rest = rest → Parses (k (some t)) c₁ P) :
    Parses (Grammar.acceptAny kinds >>= k) c P := by
  have haccept : Parses (Grammar.acceptAny kinds) c fun a c₁ => a = some t ∧ c₁.rest = rest := by
    have hany : kinds.any c.check = true := List.any_eq_true.2 ⟨_, ht, check_of_eq hc rfl hend⟩
    unfold Parses
    rw [Reads.acceptAny_of_check hany]
    have hadvance := advance hc hend
    unfold Parses at hadvance
    generalize Grammar.advance c = r at hadvance
    cases hadvance with
    | outOfFuel => exact .outOfFuel
    | tree h₁ => exact .tree ⟨congrArg some h₁.1, h₁.2⟩
  refine haccept.bind fun a c₁ h₁ => ?_
  rw [h₁.1]
  exact h c₁ h₁.2

theorem acceptAny_other (hc : c.rest = t :: rest) {kinds : List Token.Kind} (ht : t.kind ∉ kinds)
    {k : Option Token → Parse α} (h : Parses (k none) c P) :
    Parses (Grammar.acceptAny kinds >>= k) c P := by
  have hany : ¬kinds.any c.check = true := by
    intro hany
    obtain ⟨kind, hkind, hcheck⟩ := List.any_eq_true.1 hany
    have hne : t.kind ≠ kind := fun heq => ht (heq ▸ hkind)
    rw [check_of_ne hc hne] at hcheck
    cases hcheck
  unfold Parses
  rw [Reads.bind_ok (Reads.acceptAny_of_not_check hany)]
  exact h

/-- Taking line feeds, up to a token that is none. -/
theorem skipNewlines {feeds : List Token} (hc : c.rest = feeds ++ t :: rest) (hfeeds : Feeds feeds)
    (ht : t.kind ≠ .newline) : Parses Grammar.skipNewlines c fun _ c₁ => c₁.rest = t :: rest := by
  have hdrop : c.rest.dropWhile (·.kind == .newline) = t :: rest := by
    rw [hc, Reads.dropWhile_feeds hfeeds, List.dropWhile_cons_of_neg (by simpa using ht)]
  obtain ⟨last, heq, _⟩ := Reads.dropNewlines_of_dropWhile (l := c.last) hdrop
  unfold Parses
  rw [Reads.skipNewlines_eq, heq]
  exact .tree rfl

end

end Parses

/-! ### What follows an expression -/

/-- The level at which a token goes on with the expression before it. -/
def continuation : Token.Kind → Option Nat
  | .assign | .plusAssign | .minusAssign | .timesAssign | .divideAssign | .increment
  | .decrement => some 0
  | .leftParen | .dot => some 8
  | .leftBracket => some 9
  | kind => kind.precedence

/-- The first of the tokens does not go on with an expression of the level. -/
def Closes (level : Nat) (rest : List Token) : Prop :=
  ∃ t more, rest = t :: more ∧ ∀ l, continuation t.kind = some l → l < level

theorem Closes.mono {l m : Nat} {rest : List Token} (h : Closes l rest) (hlm : l ≤ m) :
    Closes m rest := by
  obtain ⟨t, more, hrest, ht⟩ := h
  exact ⟨t, more, hrest, fun k hk => Nat.lt_of_lt_of_le (ht k hk) hlm⟩

/-- A token of this level closes everything tighter. -/
theorem closes_of_continuation {t : Token} {l : Nat} (h : continuation t.kind = some l)
    (rest : List Token) : Closes (l + 1) (t :: rest) := by
  refine ⟨t, rest, rfl, fun k hk => ?_⟩
  rw [h] at hk
  exact Nat.lt_succ_of_le (Nat.le_of_eq (Option.some.inj hk).symm)

/-- A token that goes on with no expression closes all of them. -/
theorem closes_of_none {t : Token} (h : continuation t.kind = none) (rest : List Token) :
    Closes 0 (t :: rest) := by
  refine ⟨t, rest, rfl, fun k hk => ?_⟩
  rw [h] at hk
  cases hk

/-- Line feeds close an expression as the token after them does. -/
theorem closes_feeds {feeds : List Token} (hfeeds : Feeds feeds) {t : Token}
    (h : continuation t.kind = none) (rest : List Token) : Closes 0 (feeds ++ t :: rest) := by
  cases feeds with
  | nil => exact closes_of_none h rest
  | cons u feeds =>
    have hu : continuation u.kind = none := by rw [hfeeds u List.mem_cons_self]; rfl
    exact closes_of_none hu _

theorem continuation_of_precedence {kind : Token.Kind} {p : Nat} (h : kind.precedence = some p) :
    continuation kind = some p := by
  cases kind <;> first | exact h | cases h

/-- The operators of a level are those that bind by it. -/
theorem mem_binaryLevels {k : Nat} (hk : k < binaryLevels.length) (kind : Token.Kind) :
    kind ∈ binaryLevels[k] ↔ kind.precedence = some (k + 1) := by
  have hk' : k < 6 := hk
  obtain rfl | rfl | rfl | rfl | rfl | rfl : k = 0 ∨ k = 1 ∨ k = 2 ∨ k = 3 ∨ k = 4 ∨ k = 5 := by
    omega
  all_goals cases kind <;> simp [binaryLevels, Token.Kind.precedence]

/-! ### What the productions make of an expression -/

/-- The tree, up to its numbers, and a cursor with the rest to come. -/
def Is (e : Expr) (rest : List Token) (e' : Expr) (c : Cursor) : Prop :=
  e'.unnumbered = e.unnumbered ∧ c.rest = rest

section

variable (e : Expr) (row : List Token)

/-- The tree is read from the row as an operand without calls and property reads. -/
def PrimaryReads : Prop :=
  ∀ {fuel : Nat} {c : Cursor} {rest : List Token}, c.rest = row ++ rest → Closes 9 rest →
    Parses (primary fuel) c (Is e rest)

/-- Behind the row, reading goes on with the calls and property reads of the tree. -/
def HeadReads : Prop :=
  ∀ {fuel : Nat} {c : Cursor} {rest : List Token} {P : Expr → Cursor → Prop},
    c.rest = row ++ rest → Closes 9 rest →
    (∀ fuel' e' c', Is e rest e' c' → Parses (postfixRest fuel' e') c' P) →
    Parses (unary fuel) c P

/-- The tree is read from the row as an operand of the tightest binary operators. -/
def UnaryReads : Prop :=
  ∀ {fuel : Nat} {c : Cursor} {rest : List Token}, c.rest = row ++ rest → Closes 7 rest →
    Parses (unary fuel) c (Is e rest)

/-- Behind the row, reading goes on with the operators of a level after the tree. -/
def ChainReads (k : Nat) (hk : k < binaryLevels.length) : Prop :=
  ∀ {fuel : Nat} {c : Cursor} {rest : List Token} {P : Expr → Cursor → Prop},
    c.rest = row ++ rest → Closes (k + 2) rest →
    (∀ fuel' e' c', Is e rest e' c' →
      Parses (binaryRest fuel' binaryLevels[k] (binaryLevels.drop (k + 1)) e') c' P) →
    Parses (binary fuel (binaryLevels.drop k)) c P

/-- The tree is read from the row with all operators from a level on. -/
def BinaryReads (k : Nat) : Prop :=
  ∀ {fuel : Nat} {c : Cursor} {rest : List Token}, c.rest = row ++ rest → Closes (k + 1) rest →
    Parses (binary fuel (binaryLevels.drop k)) c (Is e rest)

/-- The tree is read from the row as an expression. -/
def ExpressionReads : Prop :=
  ∀ {fuel : Nat} {c : Cursor} {rest : List Token}, c.rest = row ++ rest → Closes 0 rest →
    Parses (expression fuel) c (Is e rest)

/-- The row starts with an operand, or with a unary operator if the tree is loose enough. -/
def Starts : Prop :=
  ∃ t us, row = t :: us ∧ t.kind ∈ starters ∧ (8 ≤ e.level → t.kind ∈ operandStarters)

/-- The tree is read from the row wherever it fits. -/
structure Read : Prop where
  starts : Starts e row
  expression : ExpressionReads e row
  binary : ∀ k, k ≤ binaryLevels.length → k < e.level → BinaryReads e row k
  chain : ∀ k hk, k < e.level → ChainReads e row k hk
  head : 8 ≤ e.level → HeadReads e row

end

section

variable {e : Expr} {row : List Token}

/-- Behind an operand that is read as such, reading goes on with calls and property reads. -/
theorem head_of_primary (hstarts : ∃ t us, row = t :: us ∧ t.kind ∈ operandStarters)
    (h : PrimaryReads e row) : HeadReads e row := by
  intro fuel c rest P hc hrest hP
  cases fuel with
  | zero => exact .outOfFuel
  | succ fuel =>
    obtain ⟨t, us, rfl, ht⟩ := hstarts
    simp only [unary]
    refine .acceptAny_other hc (fun hmem => ?_) ?_
    · rcases List.mem_pair.1 hmem with hkind | hkind <;> rw [hkind] at ht <;> revert ht <;> decide
    · exact (h hc hrest).bind fun e' c' he => hP fuel e' c' he

/-- Calls and property reads end where nothing goes on with them. -/
theorem unary_of_head (h : HeadReads e row) : UnaryReads e row := by
  intro fuel c rest hc hrest
  refine h hc (hrest.mono (by omega)) fun fuel' e' c' he => ?_
  cases fuel' with
  | zero => exact .outOfFuel
  | succ fuel' =>
    obtain ⟨t, more, rfl, ht⟩ := hrest
    simp only [postfixRest]
    refine .accept_other he.2 (fun hkind => ?_) (.accept_other he.2 (fun hkind => ?_) (.pure he))
    all_goals exact absurd (ht 8 (by rw [hkind]; rfl)) (by decide)

/-- The loosest of the levels is no level of its own. -/
theorem binary_of_unary (h : UnaryReads e row) : BinaryReads e row binaryLevels.length := by
  intro fuel c rest hc hrest
  cases fuel with
  | zero => exact .outOfFuel
  | succ fuel =>
    rw [List.drop_length]
    simp only [binary]
    exact h hc hrest

theorem unary_of_binary (h : BinaryReads e row binaryLevels.length) : UnaryReads e row := by
  intro fuel c rest hc hrest
  have hread := @h (fuel + 1) c rest hc hrest
  rw [List.drop_length] at hread
  simpa only [binary] using hread

/-- Behind the first operand of a level, reading goes on with the operators of the level. -/
theorem chain_of_binary {k : Nat} (hk : k < binaryLevels.length) (h : BinaryReads e row (k + 1)) :
    ChainReads e row k hk := by
  intro fuel c rest P hc hrest hP
  rw [List.drop_eq_getElem_cons hk]
  cases fuel with
  | zero => exact .outOfFuel
  | succ fuel =>
    simp only [binary]
    exact (h hc hrest).bind fun e' c' he => hP fuel e' c' he

/-- The operators of a level end where none of them follows. -/
theorem binary_of_chain {k : Nat} {hk : k < binaryLevels.length} (h : ChainReads e row k hk) :
    BinaryReads e row k := by
  intro fuel c rest hc hrest
  refine h hc (hrest.mono (by omega)) fun fuel' e' c' he => ?_
  cases fuel' with
  | zero => exact .outOfFuel
  | succ fuel' =>
    obtain ⟨t, more, rfl, ht⟩ := hrest
    simp only [binaryRest]
    refine .acceptAny_other he.2 (fun hmem => ?_) (.pure he)
    have hlevel := (mem_binaryLevels hk t.kind).1 hmem
    exact Nat.lt_irrefl _ (ht _ (continuation_of_precedence hlevel))

/-- An operand of one level is an operand of all looser levels. -/
theorem binary_of_le {m : Nat} (hm : m ≤ binaryLevels.length) (h : BinaryReads e row m) {k : Nat}
    (hk : k ≤ m) : BinaryReads e row k := by
  induction hk using Nat.decreasingInduction with
  | self => exact h
  | of_succ k hk ih => exact binary_of_chain (chain_of_binary (Nat.lt_of_lt_of_le hk hm) ih)

/-- The operators of assignments, which are the loosest. -/
theorem expression_of_binary (h : BinaryReads e row 0) : ExpressionReads e row := by
  intro fuel c rest hc hrest
  cases fuel with
  | zero => exact .outOfFuel
  | succ fuel =>
    simp only [expression]
    refine (h hc (hrest.mono (by omega))).bind fun e' c' he => ?_
    obtain ⟨t, more, rfl, ht⟩ := hrest
    -- a token of these kinds would go on at level 0
    have hnone {kinds : List Token.Kind} (hkinds : ∀ kind ∈ kinds, continuation kind = some 0) :
        t.kind ∉ kinds := fun hmem => Nat.not_lt_zero 0 (ht 0 (hkinds _ hmem))
    exact .acceptAny_other he.2 (hnone (by decide)) (.acceptAny_other he.2 (hnone (by decide))
      (.acceptAny_other he.2 (hnone (by decide)) (.pure he)))

theorem starts_operand {t : Token} (h : t.kind ∈ operandStarters) (us : List Token) :
    Starts e (t :: us) :=
  ⟨t, us, rfl, List.mem_cons_of_mem _ (List.mem_cons_of_mem _ h), fun _ => h⟩

/-- A row starts as its first part does. -/
theorem Starts.append {d : Expr} (h : Starts d row) (hlevel : 8 ≤ e.level → 8 ≤ d.level)
    (us : List Token) : Starts e (row ++ us) := by
  obtain ⟨t, more, rfl, ht, hoperand⟩ := h
  exact ⟨t, more ++ us, rfl, ht, fun he => hoperand (hlevel he)⟩

/-- A tree is read wherever it fits if it is read at its level. -/
theorem Read.of_binary (hstarts : Starts e row) {m : Nat} (hm : m ≤ binaryLevels.length)
    (hlevel : e.level ≤ m + 1 ∨ m = binaryLevels.length) (h : BinaryReads e row m)
    (hchain : ∀ hm', ChainReads e row m hm') (hhead : 8 ≤ e.level → HeadReads e row) :
    Read e row where
  starts := hstarts
  expression := expression_of_binary (binary_of_le hm h (Nat.zero_le m))
  binary k hk hfits := binary_of_le hm h (by omega)
  chain k hk hfits := by
    rcases Nat.lt_or_ge k m with hlt | hge
    · exact chain_of_binary hk (binary_of_le hm h hlt)
    · obtain rfl : k = m := by omega
      exact hchain hk
  head := hhead

theorem Read.of_unary (hstarts : Starts e row) (h : UnaryReads e row)
    (hhead : 8 ≤ e.level → HeadReads e row) : Read e row :=
  .of_binary hstarts (Nat.le_refl _) (.inr rfl) (binary_of_unary h)
    (fun hlt => absurd hlt (Nat.lt_irrefl _)) hhead

theorem Read.of_head (hstarts : Starts e row) (h : HeadReads e row) : Read e row :=
  .of_unary hstarts (unary_of_head h) fun _ => h

theorem Read.of_primary {t : Token} {us : List Token} (ht : t.kind ∈ operandStarters)
    (h : PrimaryReads e (t :: us)) : Read e (t :: us) :=
  .of_head (starts_operand ht us) (head_of_primary ⟨t, us, rfl, ht⟩ h)

/-- An assignment fits nowhere but at the loosest level. -/
theorem Read.of_expression (hstarts : Starts e row) (hlevel : e.level = 0)
    (h : ExpressionReads e row) : Read e row where
  starts := hstarts
  expression := h
  binary k _ hfits := by omega
  chain k _ hfits := by omega
  head hfits := by omega

theorem Read.unary (h : Read e row) (hlevel : 7 ≤ e.level) : UnaryReads e row :=
  unary_of_binary (h.binary _ (Nat.le_refl _) hlevel)

/-- The row starts with a token that is no line feed. -/
def Solid (row : List Token) : Prop := ∃ t us, row = t :: us ∧ t.kind ≠ .newline

theorem Read.solid (h : Read e row) : Solid row := by
  obtain ⟨t, us, hrow, ht, -⟩ := h.starts
  exact ⟨t, us, hrow, fun hkind => absurd (hkind ▸ ht) (by decide)⟩

/-- Line feeds before a row. -/
theorem Solid.skipNewlines (h : Solid row) {feeds rest : List Token} {c : Cursor}
    (hc : c.rest = feeds ++ (row ++ rest)) (hfeeds : Feeds feeds) :
    Parses Grammar.skipNewlines c fun _ c₁ => c₁.rest = row ++ rest := by
  obtain ⟨t, us, rfl, ht⟩ := h
  exact .skipNewlines hc hfeeds ht

/-- A row is not at its end. -/
theorem Read.not_over (h : Read e row) {rest : List Token} {c : Cursor} (hc : c.rest = row ++ rest)
    {kind : Token.Kind} (hkind : kind ∉ starters) : (c.check kind || c.atEnd) = false := by
  obtain ⟨t, us, rfl, ht, -⟩ := h.starts
  have hne : t.kind ≠ kind := fun heq => hkind (heq ▸ ht)
  have hend : t.kind ≠ .endMark := fun heq => absurd (heq ▸ ht) (by decide)
  rw [Parses.check_of_ne hc hne, Parses.atEnd_eq hc hend]
  rfl

end

end Grammar

end ScopedScript
