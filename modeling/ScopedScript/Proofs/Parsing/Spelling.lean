import Mathlib.Data.List.Nodup
import ScopedScript.Tree

/-! # How expressions are spelled

The grammar of expressions without functions, stated for trees instead of rows of tokens.

* **Levels.** An expression has a level: assignments are loosest (`0`), the binary operators bind by
  their `precedence` (`1` to `6`), then come unary operators (`7`), calls and property reads (`8`),
  and everything that is a single token or stands in brackets (`9`).
* **Canonical trees.** In a canonical tree every child has a level that its position allows: binary
  operators group to the left, assignments to the right, and what is looser than its position stands
  in a grouping (`Expr.Canonical`).
* **Spellings.** A tree is spelled by its tokens in order, with line feeds inside brackets wherever
  a bracketed row may be broken (`Expr.Spelled`).  The punctuation is not kept in the tree, so the
  places of its tokens are free.

Every canonical tree has a spelling (`exists_spelling`). -/

namespace ScopedScript

/-! ### Levels -/

/-- How tightly a binary operator binds; `or` is loosest. -/
def Token.Kind.precedence : Token.Kind → Option Nat
  | .or => some 1
  | .and => some 2
  | .notEqual | .equal => some 3
  | .greater | .greaterEqual | .less | .lessEqual => some 4
  | .plus | .minus => some 5
  | .divide | .times => some 6
  | _ => none

/-- The level of an expression: the loosest position that it fits without brackets. -/
def Expr.level : Expr → Nat
  | .assign .. | .set .. => 0
  | .binary _ operator _ => operator.kind.precedence.getD 0
  | .unary .. => 7
  | .call .. | .get .. => 8
  | _ => 9

/-! ### Canonical trees -/

/-- May this token name a variable in an expression? -/
def Token.IsVariable (t : Token) : Prop := t.kind = .name ∨ t.kind = .kwPrint

mutual

/-- Every operator and name has the kind that the grammar puts there, and every child fits its
position.  Functions are left out. -/
def Expr.Canonical : Expr → Prop
  | .grouping inner => inner.Canonical
  | .binary left operator right =>
    (∃ p, operator.kind.precedence = some p ∧ p ≤ left.level ∧ p < right.level) ∧
      left.Canonical ∧ right.Canonical
  | .unary operator operand =>
    (operator.kind = .not ∨ operator.kind = .minus) ∧ 7 ≤ operand.level ∧ operand.Canonical
  | .literal kind value => value.Canonical kind
  | .name _ token => token.IsVariable
  | .this _ keyword => keyword.kind = .kwThis
  | .function _ _ => False
  | .call callee paren args =>
    paren.kind = .rightParen ∧ 8 ≤ callee.level ∧ args.length ≤ 255 ∧
      callee.Canonical ∧ exprsCanonical args
  | .index _ name index => name.IsVariable ∧ index.Canonical
  | .get object name => name.kind = .name ∧ 8 ≤ object.level ∧ object.Canonical
  | .set object name value =>
    name.kind = .name ∧ 8 ≤ object.level ∧ object.Canonical ∧ value.Canonical
  | .object brace entries =>
    brace.kind = .leftBrace ∧ (entries.map fun entry => entry.key.lexeme).Nodup ∧
      entriesCanonical entries
  | .assign _ name value => name.IsVariable ∧ value.Canonical

/-- Rows of canonical expressions. -/
def exprsCanonical : List Expr → Prop
  | [] => True
  | e :: es => e.Canonical ∧ exprsCanonical es

/-- The kind of a literal matches its value. -/
def LiteralValue.Canonical (kind : Token.Kind) : LiteralValue → Prop
  | .num _ => kind = .number ∨ kind = .float
  | .str _ => kind = .string
  | .bool b => kind = if b then .trueLit else .falseLit
  | .null => kind = .nullLit
  | .undefined => kind = .undefinedLit
  | .emptyObject => kind = .emptyObject
  | .list elements => kind = .list ∧ exprsCanonical elements

/-- Rows of properties with canonical values. -/
def entriesCanonical : List Entry → Prop
  | [] => True
  | .mk key value :: es => key.kind = .name ∧ value.Canonical ∧ entriesCanonical es

end

/-! ### Spellings -/

/-- Line feeds, any number of them. -/
def Feeds (ts : List Token) : Prop := ∀ t ∈ ts, t.kind = .newline

/-- Rows of tokens with commas between them.  Line feeds may stand before and after a comma and
after the last row. -/
inductive Joined : List (List Token) → List Token → Prop
  | none : Joined [] []
  | one {row after : List Token} : Feeds after → Joined [row] (row ++ after)
  | more {row after before ts next : List Token} {comma : Token} {rows : List (List Token)} :
      Feeds after → comma.kind = .comma → Feeds before → Joined (next :: rows) ts →
      Joined (row :: next :: rows) (row ++ after ++ comma :: (before ++ ts))

/-- What stands between two brackets: line feeds, and the rows. -/
def Filling (rows : List (List Token)) (ts : List Token) : Prop :=
  ∃ feeds inside, ts = feeds ++ inside ∧ Feeds feeds ∧ Joined rows inside

/-- The token of a literal denotes its value. -/
def LiteralValue.Denoted (t : Token) : LiteralValue → Prop
  | .num value => t.literal = some (.num value)
  | .str value => t.literal = some (.str value)
  | _ => True

mutual

/-- The tokens of an expression in order. -/
def Expr.Spelled : Expr → List Token → Prop
  | .grouping inner => fun ts =>
    ∃ opening row inside closing, ts = opening :: (inside ++ [closing]) ∧
      opening.kind = .leftParen ∧ closing.kind = .rightParen ∧
      inner.Spelled row ∧ Filling [row] inside
  | .binary left operator right => fun ts =>
    ∃ ls rs, ts = ls ++ operator :: rs ∧ left.Spelled ls ∧ right.Spelled rs
  | .unary operator operand => fun ts => ∃ us, ts = operator :: us ∧ operand.Spelled us
  | .literal kind value => value.Spelled kind
  | .name _ token => fun ts => ts = [token]
  | .this _ keyword => fun ts => ts = [keyword]
  | .function _ _ => fun _ => False
  | .call callee paren args => fun ts =>
    ∃ us opening rows inside, ts = us ++ opening :: (inside ++ [paren]) ∧
      opening.kind = .leftParen ∧ callee.Spelled us ∧ exprsSpelled args rows ∧ Filling rows inside
  | .index _ name index => fun ts =>
    ∃ opening us closing, ts = name :: opening :: (us ++ [closing]) ∧
      opening.kind = .leftBracket ∧ closing.kind = .rightBracket ∧ index.Spelled us
  | .get object name => fun ts =>
    ∃ us dot, ts = us ++ [dot, name] ∧ dot.kind = .dot ∧ object.Spelled us
  | .set object name value => fun ts =>
    ∃ us dot equals vs, ts = us ++ dot :: name :: equals :: vs ∧
      dot.kind = .dot ∧ equals.kind = .assign ∧ object.Spelled us ∧ value.Spelled vs
  | .object brace entries => fun ts =>
    ∃ rows inside closing, ts = brace :: (inside ++ [closing]) ∧
      closing.kind = .rightBrace ∧ entriesSpelled entries rows ∧ Filling rows inside
  | .assign _ name value => fun ts =>
    ∃ equals vs, ts = name :: equals :: vs ∧ equals.kind = .assign ∧ value.Spelled vs

/-- The rows of tokens of several expressions. -/
def exprsSpelled : List Expr → List (List Token) → Prop
  | [] => fun rows => rows = []
  | e :: es => fun rows =>
    ∃ row more, rows = row :: more ∧ e.Spelled row ∧ exprsSpelled es more

/-- A literal is a token of its own; a list is a row in brackets. -/
def LiteralValue.Spelled (kind : Token.Kind) : LiteralValue → List Token → Prop
  | .list elements => fun ts =>
    ∃ opening rows inside closing, ts = opening :: (inside ++ [closing]) ∧
      opening.kind = .leftBracket ∧ closing.kind = .rightBracket ∧
      exprsSpelled elements rows ∧ Filling rows inside
  | value => fun ts => ∃ t, ts = [t] ∧ t.kind = kind ∧ value.Denoted t

/-- The rows of tokens of several properties; line feeds may follow the colon. -/
def entriesSpelled : List Entry → List (List Token) → Prop
  | [] => fun rows => rows = []
  | .mk key value :: es => fun rows =>
    ∃ colon feeds row more, rows = (key :: colon :: (feeds ++ row)) :: more ∧
      colon.kind = .colon ∧ Feeds feeds ∧ value.Spelled row ∧ entriesSpelled es more

end

/-! ### Every canonical tree is spelled -/

/-- A token for a place that the tree leaves free. -/
def freeToken (kind : Token.Kind) (literal : Option Token.Literal) : Token :=
  .make kind "" 1 1 0 literal

theorem feeds_nil : Feeds [] := fun _ h => absurd h List.not_mem_nil

theorem exists_joined : ∀ rows, ∃ ts, Joined rows ts
  | [] => ⟨_, .none⟩
  | [_] => ⟨_, .one feeds_nil⟩
  | _ :: next :: rows => by
    obtain ⟨ts, hts⟩ := exists_joined (next :: rows)
    exact ⟨_, .more feeds_nil (show (freeToken .comma none).kind = _ from rfl) feeds_nil hts⟩

theorem exists_filling (rows : List (List Token)) : ∃ ts, Filling rows ts := by
  obtain ⟨inside, hinside⟩ := exists_joined rows
  exact ⟨inside, [], inside, rfl, feeds_nil, hinside⟩

mutual

theorem Expr.exists_spelling : (e : Expr) → e.Canonical → ∃ ts, e.Spelled ts
  | .grouping inner, h => by
    obtain ⟨row, hrow⟩ := inner.exists_spelling h
    obtain ⟨inside, hinside⟩ := exists_filling [row]
    exact ⟨_, freeToken .leftParen none, row, inside, freeToken .rightParen none, rfl, rfl, rfl,
      hrow, hinside⟩
  | .binary left operator right, ⟨_, hl, hr⟩ => by
    obtain ⟨ls, hls⟩ := left.exists_spelling hl
    obtain ⟨rs, hrs⟩ := right.exists_spelling hr
    exact ⟨_, ls, rs, rfl, hls, hrs⟩
  | .unary operator operand, ⟨_, _, h⟩ => by
    obtain ⟨us, hus⟩ := operand.exists_spelling h
    exact ⟨_, us, rfl, hus⟩
  | .literal kind value, h => value.exists_spelling kind h
  | .name _ token, _ => ⟨[token], rfl⟩
  | .this _ keyword, _ => ⟨[keyword], rfl⟩
  | .function _ _, h => h.elim
  | .call callee paren args, ⟨_, _, _, hc, ha⟩ => by
    obtain ⟨us, hus⟩ := callee.exists_spelling hc
    obtain ⟨rows, hrows⟩ := exists_exprs_spelling args ha
    obtain ⟨inside, hinside⟩ := exists_filling rows
    exact ⟨_, us, freeToken .leftParen none, rows, inside, rfl, rfl, hus, hrows, hinside⟩
  | .index _ name index, ⟨_, h⟩ => by
    obtain ⟨us, hus⟩ := index.exists_spelling h
    exact ⟨_, freeToken .leftBracket none, us, freeToken .rightBracket none, rfl, rfl, rfl, hus⟩
  | .get object name, ⟨_, _, h⟩ => by
    obtain ⟨us, hus⟩ := object.exists_spelling h
    exact ⟨_, us, freeToken .dot none, rfl, rfl, hus⟩
  | .set object name value, ⟨_, _, ho, hv⟩ => by
    obtain ⟨us, hus⟩ := object.exists_spelling ho
    obtain ⟨vs, hvs⟩ := value.exists_spelling hv
    exact ⟨_, us, freeToken .dot none, freeToken .assign none, vs, rfl, rfl, rfl, hus, hvs⟩
  | .object brace entries, ⟨_, _, h⟩ => by
    obtain ⟨rows, hrows⟩ := exists_entries_spelling entries h
    obtain ⟨inside, hinside⟩ := exists_filling rows
    exact ⟨_, rows, inside, freeToken .rightBrace none, rfl, rfl, hrows, hinside⟩
  | .assign _ name value, ⟨_, h⟩ => by
    obtain ⟨vs, hvs⟩ := value.exists_spelling h
    exact ⟨_, freeToken .assign none, vs, rfl, rfl, hvs⟩
termination_by structural x => x

theorem exists_exprs_spelling : (es : List Expr) → exprsCanonical es → ∃ rows, exprsSpelled es rows
  | [], _ => ⟨[], rfl⟩
  | e :: es, ⟨he, hes⟩ => by
    obtain ⟨row, hrow⟩ := e.exists_spelling he
    obtain ⟨more, hmore⟩ := exists_exprs_spelling es hes
    exact ⟨_, row, more, rfl, hrow, hmore⟩
termination_by structural x => x

theorem LiteralValue.exists_spelling (kind : Token.Kind) :
    (value : LiteralValue) → value.Canonical kind → ∃ ts, value.Spelled kind ts
  | .num v, _ => ⟨_, freeToken kind (some (.num v)), rfl, rfl, rfl⟩
  | .str v, _ => ⟨_, freeToken kind (some (.str v)), rfl, rfl, rfl⟩
  | .bool _, _ | .null, _ | .undefined, _ | .emptyObject, _ =>
    ⟨_, freeToken kind none, rfl, rfl, trivial⟩
  | .list elements, ⟨_, h⟩ => by
    obtain ⟨rows, hrows⟩ := exists_exprs_spelling elements h
    obtain ⟨inside, hinside⟩ := exists_filling rows
    exact ⟨_, freeToken .leftBracket none, rows, inside, freeToken .rightBracket none, rfl, rfl,
      rfl, hrows, hinside⟩
termination_by structural x => x

theorem exists_entries_spelling :
    (es : List Entry) → entriesCanonical es → ∃ rows, entriesSpelled es rows
  | [], _ => ⟨[], rfl⟩
  | .mk key value :: es, ⟨_, hv, hes⟩ => by
    obtain ⟨row, hrow⟩ := value.exists_spelling hv
    obtain ⟨more, hmore⟩ := exists_entries_spelling es hes
    exact ⟨_, freeToken .colon none, [], row, more, rfl, rfl, feeds_nil, hrow, hmore⟩
termination_by structural x => x

end

/-! ### First tokens -/

/-- The kinds that start an expression without an operator in front. -/
def operandStarters : List Token.Kind :=
  [.number, .float, .string, .trueLit, .falseLit, .nullLit, .undefinedLit, .emptyObject, .kwThis,
   .name, .kwPrint, .leftParen, .leftBracket, .leftBrace]

/-- The kinds that start an expression. -/
def starters : List Token.Kind := .not :: .minus :: operandStarters

theorem Token.Kind.precedence_le {kind : Token.Kind} {p : Nat} (h : kind.precedence = some p) :
    1 ≤ p ∧ p ≤ 6 := by
  cases kind <;> simp [precedence] at h <;> omega

theorem Token.IsVariable.starts {t : Token} (h : t.IsVariable) : t.kind ∈ operandStarters := by
  rcases h with h | h <;> rw [h] <;> decide

end ScopedScript
