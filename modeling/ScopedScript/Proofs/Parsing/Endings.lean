import ScopedScript.Proofs.Parsing.Programs

/-! # How statements end

A statement ends in one of two ways.  An expression, a declaration of a variable, a `return` or an
assignment to an element takes a separator, and needs none before a closing brace or the end mark.
A block, a conditional, a function or a class is closed by its brace and takes nothing more.  A loop
ends as its body does.

`Stmt.takesSeparator` tells the two apart from the tree alone, although a `for` loop is written out
as blocks and loops: the statements that the loop is made of bear its keyword, which no statement
that can be written in a block does (`Plain`).  The productions agree with it
(`statement_finished`). -/

namespace ScopedScript

namespace Grammar

/-! ### What a production leaves behind -/

/-- Whatever the production yields, and wherever it leaves its cursor, satisfies the condition. -/
def Leaves {α : Type} (x : Parse α) (post : α → Cursor → Prop) : Prop :=
  ∀ ⦃c a c₁⦄, x c = .ok (a, c₁) → post a c₁

section

variable {α β : Type} {x : Parse α} {k : α → Parse β} {P : α → Cursor → Prop}
variable {Q : β → Cursor → Prop} {c c₁ : Cursor}

/-- A step and what comes after it. -/
theorem bind_eq_ok {b : β} (h : (x >>= k) c = .ok (b, c₁)) :
    ∃ a c₂, x c = .ok (a, c₂) ∧ k a c₂ = .ok (b, c₁) := by
  change (x c >>= fun p => k p.1 p.2) = _ at h
  cases hx : x c with
  | error e =>
    rw [hx] at h
    cases h
  | ok p =>
    rw [hx] at h
    exact ⟨p.1, p.2, rfl, h⟩

theorem Leaves.bind (hx : Leaves x P)
    (hk : ∀ a c₂, P a c₂ → ∀ b c₁, k a c₂ = .ok (b, c₁) → Q b c₁) : Leaves (x >>= k) Q := by
  intro c b c₁ h
  obtain ⟨a, c₂, ha, hb⟩ := bind_eq_ok h
  exact hk a c₂ (hx ha) b c₁ hb

/-- What comes last decides. -/
theorem Leaves.last (hk : ∀ a, Leaves (k a) Q) : Leaves (x >>= k) Q := by
  intro c b c₁ h
  obtain ⟨a, c₂, _, hb⟩ := bind_eq_ok h
  exact hk a hb

theorem Leaves.map (hx : Leaves x P) {f : α → β} (hf : ∀ a c, P a c → Q (f a) c) :
    Leaves (do let a ← x; return f a) Q := by
  refine hx.bind fun a c₂ ha b c₁ h => ?_
  obtain ⟨rfl, rfl⟩ := Prod.mk.inj (Except.ok.inj h)
  exact hf a c₂ ha

theorem Leaves.throw {e : Failure} : Leaves (throw e : Parse α) P := by
  intro c a c₁ h
  cases h

theorem Leaves.ite {p : Prop} [Decidable p] {y : Parse α} (hx : Leaves x P) (hy : Leaves y P) :
    Leaves (if p then x else y) P := by
  split
  · exact hx
  · exact hy

theorem Leaves.imp {R : α → Cursor → Prop} (hx : Leaves x P) (h : ∀ a c, P a c → R a c) :
    Leaves x R := fun _ _ _ hc => h _ _ (hx hc)

end

/-! ### The ends of statements -/

/-- The kinds of tokens that close a statement in braces. -/
def closers : List Token.Kind := [.rightBrace, .emptyObject]

/-- A separator has just been taken, or the statement ends without one. -/
def Cursor.Separated (c : Cursor) : Prop :=
  c.last.kind ∈ joints ∨ c.atEnd = true ∨ c.check .rightBrace = true

end Grammar

mutual

/-- Does the statement end with a separator, which it takes?  One that is closed by a brace does
not; a loop ends as its body does. -/
def Stmt.takesSeparator : Stmt → Bool
  | .expression _ _ | .variable _ _ _ _ | .indexAssign _ _ _ _ | .returns _ _ | .object _ => true
  | .loop _ body _ => body.takesSeparator
  | .block statements => lastTakesSeparator statements
  | .empty | .functionDecl _ | .cond _ _ _ _ | .classDecl _ => false

/-- Is the block a `for` loop, or the body of one with its increment, that ends with a separator?
The parts of the loop can be told by the word `for`. -/
def lastTakesSeparator : List Stmt → Bool
  | [] => false
  | [.loop _ body keyword] => keyword.kind == .kwFor && body.takesSeparator
  | [body, .expression _ token] => token.kind == .kwFor && body.takesSeparator
  | _ :: statements => lastTakesSeparator statements

end

namespace Grammar

/-! ### Small productions -/

section

variable {c c₁ : Cursor}

/-- Away from the end mark the token in view is taken. -/
theorem advance_ok {t : Token} (h : advance c = .ok (t, c₁)) (hend : c.atEnd = false) :
    t = c.peek ∧ c₁.last = t := by
  obtain ⟨last, rest, nextId⟩ := c
  cases rest with
  | nil => cases h
  | cons u rest =>
    have hu : u.kind ≠ .endMark := by
      simpa [Cursor.atEnd, Cursor.peek] using hend
    rw [Reads.advance_cons hu] at h
    obtain ⟨rfl, rfl⟩ := Prod.mk.inj (Except.ok.inj h)
    exact ⟨rfl, rfl⟩

theorem kind_of_check {kind : Token.Kind} (h : c.check kind = true) : c.peek.kind = kind := by
  simp only [Cursor.check, Bool.and_eq_true, beq_iff_eq] at h
  exact h.2

/-- The token of the kind is taken, or the cursor stays. -/
theorem accept_ok {kind : Token.Kind} {b : Bool} (h : accept kind c = .ok (b, c₁)) :
    b = true ∧ c.check kind = true ∧ c₁.last.kind = kind ∨
      b = false ∧ c.check kind = false ∧ c₁ = c := by
  change (if c.check kind then _ else _ : Parse Bool) c = _ at h
  split at h
  · next hcheck =>
    obtain ⟨t, c₂, hadv, hb⟩ := bind_eq_ok h
    obtain ⟨rfl, rfl⟩ := Prod.mk.inj (Except.ok.inj hb)
    obtain ⟨rfl, hlast⟩ := advance_ok hadv (Reads.atEnd_of_check hcheck)
    exact .inl ⟨rfl, hcheck, hlast ▸ kind_of_check hcheck⟩
  · next hcheck =>
    obtain ⟨rfl, rfl⟩ := Prod.mk.inj (Except.ok.inj h)
    exact .inr ⟨rfl, Bool.eq_false_iff.2 hcheck, rfl⟩

/-- A token of one of the kinds is taken, or the cursor stays. -/
theorem acceptAny_ok {kinds : List Token.Kind} {o : Option Token}
    (h : acceptAny kinds c = .ok (o, c₁)) :
    (∃ t, o = some t ∧ t.kind ∈ kinds ∧ c₁.last = t) ∨ o = none ∧ c₁ = c := by
  by_cases hcheck : kinds.any c.check = true
  · rw [Reads.acceptAny_of_check hcheck] at h
    cases hadv : advance c with
    | error e =>
      rw [hadv] at h
      cases h
    | ok p =>
      rw [hadv] at h
      obtain ⟨rfl, rfl⟩ := Prod.mk.inj (Except.ok.inj h)
      obtain ⟨ht, hlast⟩ := advance_ok hadv (Reads.atEnd_of_anyCheck hcheck)
      obtain ⟨kind, hkind, hck⟩ := List.any_eq_true.1 hcheck
      refine .inl ⟨_, rfl, ?_, hlast⟩
      rw [ht, kind_of_check hck]
      exact hkind
  · rw [Reads.acceptAny_of_not_check hcheck] at h
    obtain ⟨rfl, rfl⟩ := Prod.mk.inj (Except.ok.inj h)
    exact .inr ⟨rfl, rfl⟩

theorem expect_leaves (kind : Token.Kind) (what : Expectation) :
    Leaves (expect kind what) fun t c₁ => t.kind = kind ∧ c₁.last.kind = kind := by
  intro c t c₁ h
  change (if c.check kind then _ else _ : Parse Token) c = _ at h
  split at h
  · next hcheck =>
    obtain ⟨rfl, hlast⟩ := advance_ok h (Reads.atEnd_of_check hcheck)
    have hkind := kind_of_check hcheck
    exact ⟨hkind, hlast ▸ hkind⟩
  · cases h

theorem acceptAny_leaves (kinds : List Token.Kind) :
    Leaves (acceptAny kinds) fun o c₁ => o.isSome = true → c₁.last.kind ∈ kinds := by
  intro c o c₁ h hsome
  obtain ⟨t, rfl, ht, hlast⟩ | ⟨rfl, -⟩ := acceptAny_ok h
  · exact hlast ▸ ht
  · cases hsome

theorem accept_leaves (kind : Token.Kind) :
    Leaves (accept kind) fun b c₁ => b = true → c₁.last.kind = kind := by
  intro c b c₁ h htaken
  obtain ⟨-, -, hlast⟩ | ⟨rfl, -⟩ := accept_ok h
  · exact hlast
  · cases htaken

theorem statementEnd_leaves : Leaves statementEnd fun _ c₁ => c₁.Separated := by
  refine (acceptAny_leaves _).bind fun o c₂ ho _ c₁ h => ?_
  split at h
  · next hsome =>
    obtain ⟨_, rfl⟩ := Prod.mk.inj (Except.ok.inj h)
    exact .inl (by simpa [joints, or_comm] using ho hsome)
  · change (if c₂.atEnd || c₂.check .rightBrace then _ else _ : Parse Unit) c₂ = _ at h
    split at h
    · next hend =>
      obtain ⟨_, rfl⟩ := Prod.mk.inj (Except.ok.inj h)
      exact .inr (by simpa using hend)
    · cases h

end

/-! ### Statements in braces -/

/-- The statement is no part of a `for` loop that stands for itself. -/
def Plain (s : Stmt) : Prop :=
  (∀ e body t, s = .loop e body t → t.kind ≠ .kwFor) ∧ ∀ e t, s = .expression e t → t.kind ≠ .kwFor

theorem lastTakesSeparator_of_plain {ss : List Stmt} (h : ∀ s ∈ ss, Plain s) :
    lastTakesSeparator ss = false := by
  induction ss with
  | nil => rfl
  | cons s ss ih =>
    have hs := h s List.mem_cons_self
    have hss := ih fun t ht => h t (List.mem_cons_of_mem s ht)
    unfold lastTakesSeparator
    split
    · next heq => cases heq
    · next heq =>
      obtain ⟨rfl, _⟩ := List.cons.inj heq
      simp [hs.1 _ _ _ rfl]
    · next heq =>
      obtain ⟨_, rfl⟩ := List.cons.inj heq
      simp [(h _ (List.mem_cons_of_mem _ List.mem_cons_self)).2 _ _ rfl]
    · next heq =>
      obtain ⟨_, rfl⟩ := List.cons.inj heq
      exact hss

/-- How the statement was read that left the cursor `c₁`. -/
inductive StatementRead (n : Nat) (c₁ : Cursor) : Stmt → Prop
  | classDecl {s : Stmt} {c : Cursor} : classDeclaration n c = .ok (s, c₁) → StatementRead n c₁ s
  | forLoop {s : Stmt} {t : Token} {c : Cursor} : t.kind = .kwFor →
      forStatement n t c = .ok (s, c₁) → StatementRead n c₁ s
  | whileLoop {s : Stmt} {t : Token} {c : Cursor} : t.kind = .kwWhile →
      whileStatement n t c = .ok (s, c₁) → StatementRead n c₁ s
  | cond {s : Stmt} {t : Token} {c : Cursor} : ifStatement n t c = .ok (s, c₁) →
      StatementRead n c₁ s
  | variable {s : Stmt} {t : Token} {c : Cursor} : variableDeclaration n t c = .ok (s, c₁) →
      StatementRead n c₁ s
  | functionDecl {f : FunctionDecl} {t : Token} {c : Cursor} :
      functionRest n t c = .ok (f, c₁) → StatementRead n c₁ (.functionDecl f)
  | returns {s : Stmt} {t : Token} {c : Cursor} : returnStatement n t c = .ok (s, c₁) →
      StatementRead n c₁ s
  | object : c₁.Separated → StatementRead n c₁ (.object [])
  | block {ss : List Stmt} {c : Cursor} : block n c = .ok (ss, c₁) → StatementRead n c₁ (.block ss)
  | empty : StatementRead n c₁ .empty
  | indexAssign {s : Stmt} {c : Cursor} : indexAssignment n c = .ok (s, c₁) →
      StatementRead n c₁ s
  | expression {s : Stmt} {c : Cursor} : c.peek.kind ≠ .kwFor →
      expressionStatement n c = .ok (s, c₁) → StatementRead n c₁ s

theorem emptyObjectStatement_leaves {n : Nat} :
    Leaves emptyObjectStatement fun s c₁ => StatementRead n c₁ s :=
  statementEnd_leaves.map fun _ _ h => .object h

theorem statement_read (n : Nat) : Leaves (statement (n + 1)) fun s c₁ => StatementRead n c₁ s := by
  refine .last fun _ => ?_
  intro c s c₁ h
  rw [Reads.get_bind] at h
  have hend : c.peek.kind ≠ .endMark → c.atEnd = false := by simp [Cursor.atEnd]
  generalize hkind : c.peek.kind = kind at h hend
  split at h
  case h_1 =>
    obtain ⟨_, c₂, _, h⟩ := bind_eq_ok h
    exact .classDecl h
  case h_2 =>
    obtain ⟨t, c₂, ht, h⟩ := bind_eq_ok h
    exact .forLoop ((advance_ok ht (hend (by decide))).1 ▸ hkind) h
  case h_3 =>
    obtain ⟨t, c₂, ht, h⟩ := bind_eq_ok h
    exact .whileLoop ((advance_ok ht (hend (by decide))).1 ▸ hkind) h
  case h_4 =>
    obtain ⟨t, c₂, _, h⟩ := bind_eq_ok h
    exact .cond h
  case h_5 | h_6 | h_7 =>
    obtain ⟨t, c₂, _, h⟩ := bind_eq_ok h
    exact .variable h
  case h_8 =>
    split at h
    · obtain ⟨_, c₂, _, h⟩ := bind_eq_ok h
      obtain ⟨name, c₃, _, h⟩ := bind_eq_ok h
      obtain ⟨_, c₄, _, h⟩ := bind_eq_ok h
      obtain ⟨f, c₅, hf, h⟩ := bind_eq_ok h
      obtain ⟨rfl, rfl⟩ := Prod.mk.inj (Except.ok.inj h)
      exact .functionDecl hf
    · exact .expression (by simp [hkind]) h
  case h_9 =>
    obtain ⟨t, c₂, _, h⟩ := bind_eq_ok h
    exact .returns h
  case h_10 =>
    split at h
    · obtain ⟨_, c₂, _, h⟩ := bind_eq_ok h
      obtain ⟨_, c₃, _, h⟩ := bind_eq_ok h
      exact emptyObjectStatement_leaves h
    · split at h
      · exact .expression (by simp [hkind]) h
      · obtain ⟨ss, c₂, hss, h⟩ := bind_eq_ok h
        obtain ⟨rfl, rfl⟩ := Prod.mk.inj (Except.ok.inj h)
        exact .block hss
  case h_11 =>
    obtain ⟨_, c₂, _, h⟩ := bind_eq_ok h
    exact emptyObjectStatement_leaves h
  case h_12 =>
    obtain ⟨rfl, rfl⟩ := Prod.mk.inj (Except.ok.inj h)
    exact .empty
  case h_13 =>
    split at h
    · exact .indexAssign h
    · exact .expression (by simp_all) h

/-! ### Productions that end with a separator -/

/-- The statement takes a separator, and has done so. -/
def Open (s : Stmt) (c : Cursor) : Prop := s.takesSeparator = true ∧ c.Separated ∧ Plain s

section

variable (n : Nat) (keyword : Token)

theorem expressionStatement_open {c c₁ : Cursor} {s : Stmt} (hc : c.peek.kind ≠ .kwFor)
    (h : expressionStatement n c = .ok (s, c₁)) : Open s c₁ := by
  cases n with
  | zero => cases h
  | succ n =>
    rw [expressionStatement, Reads.peek_bind] at h
    obtain ⟨e, c₂, _, h⟩ := bind_eq_ok h
    obtain ⟨_, c₃, hend, h⟩ := bind_eq_ok h
    obtain ⟨rfl, rfl⟩ := Prod.mk.inj (Except.ok.inj h)
    exact ⟨rfl, statementEnd_leaves hend, by simp, by simpa using hc⟩

theorem variableDeclaration_open : Leaves (variableDeclaration n keyword) Open := by
  cases n with
  | zero => exact .throw
  | succ n =>
    have hopen : ∀ name ty init c, c.Separated →
        Open (.variable name (declarationKind keyword.kind) ty init) c :=
      fun _ _ _ _ h => ⟨rfl, h, by simp, by simp⟩
    refine .last fun name => .last fun ty => .last fun t => .ite ?_ ?_
    · exact statementEnd_leaves.map fun _ _ h => hopen _ _ _ _ h
    · refine .last fun equals => .last fun c => .ite ?_ ?_
      · exact .last fun _ => .last fun _ => statementEnd_leaves.map fun _ _ h => hopen _ _ _ _ h
      · exact .last fun _ => statementEnd_leaves.map fun _ _ h => hopen _ _ _ _ h

theorem returnStatement_open : Leaves (returnStatement n keyword) Open := by
  cases n with
  | zero => exact .throw
  | succ n =>
    have hopen : ∀ value c, c.Separated → Open (.returns keyword (.expression value keyword)) c :=
      fun _ _ h => ⟨rfl, h, by simp, by simp⟩
    refine .last fun t => .ite ?_ ?_
    · exact .last fun _ => statementEnd_leaves.map fun _ _ h => hopen _ _ h
    · exact .last fun _ => statementEnd_leaves.map fun _ _ h => hopen _ _ h

theorem indexAssignment_open : Leaves (indexAssignment n) Open := by
  cases n with
  | zero => exact .throw
  | succ n =>
    refine .last fun _ => .last fun _ => .last fun _ => .last fun _ => .last fun _ => ?_
    refine .last fun _ => .last fun _ => statementEnd_leaves.map fun _ _ h => ?_
    exact ⟨rfl, h, by simp, by simp⟩

end

/-! ### Productions that end with a brace -/

/-- The statement has been closed by a brace. -/
def Closed (s : Stmt) (c : Cursor) : Prop :=
  s.takesSeparator = false ∧ c.last.kind ∈ closers ∧ Plain s

theorem block_closed (n : Nat) : Leaves (block n) fun _ c₁ => c₁.last.kind ∈ closers := by
  cases n with
  | zero => exact .throw
  | succ n =>
    refine .last fun _ => (accept_leaves _).bind fun b c₂ hb ss c₁ h => ?_
    cases b with
    | true =>
      obtain ⟨_, rfl⟩ := Prod.mk.inj (Except.ok.inj h)
      simp [hb rfl, closers]
    | false =>
      have hclose : ∀ ss : List Stmt, Leaves (do let _ ← expect .rightBrace .blockClose; return ss)
          fun _ c₁ => c₁.last.kind ∈ closers := fun ss =>
        (expect_leaves _ _).map fun _ _ h => by simp [h.2, closers]
      obtain ⟨_, c₃, _, h⟩ := bind_eq_ok h
      obtain ⟨_, c₄, _, h⟩ := bind_eq_ok h
      obtain ⟨ss', c₅, _, h⟩ := bind_eq_ok h
      exact hclose ss' h

theorem functionRest_closed (n : Nat) (name : Token) :
    Leaves (functionRest n name) fun _ c₁ => c₁.last.kind ∈ closers := by
  cases n with
  | zero => exact .throw
  | succ n => exact .last fun _ => .last fun _ => (block_closed n).map fun _ _ h => h

theorem classDeclaration_closed (n : Nat) : Leaves (classDeclaration n) Closed := by
  cases n with
  | zero => exact .throw
  | succ n =>
    have hclosed : ∀ (d : ClassDecl) (c : Cursor), c.last.kind ∈ closers →
        Closed (.classDecl d) c := fun _ _ h => ⟨rfl, h, by simp, by simp⟩
    refine .last fun name => .last fun _ => (accept_leaves _).bind fun b c₂ hb s c₁ h => ?_
    cases b with
    | true =>
      obtain ⟨rfl, rfl⟩ := Prod.mk.inj (Except.ok.inj h)
      exact hclosed _ _ (by simp [hb rfl, closers])
    | false =>
      obtain ⟨_, c₃, _, h⟩ := bind_eq_ok h
      obtain ⟨_, c₄, _, h⟩ := bind_eq_ok h
      obtain ⟨⟨methods, fields⟩, c₅, _, h⟩ := bind_eq_ok h
      obtain ⟨_, c₆, hbrace, h⟩ := bind_eq_ok h
      obtain ⟨rfl, rfl⟩ := Prod.mk.inj (Except.ok.inj h)
      exact hclosed _ _ (by simp [(expect_leaves _ _ hbrace).2, closers])

/-- The branches of a conditional are blocks; one that looks for `else` in vain goes back. -/
theorem ifStatement_closed (n : Nat) (keyword : Token) : Leaves (ifStatement n keyword) Closed := by
  induction n generalizing keyword with
  | zero => exact .throw
  | succ n ih =>
    have hclosed : ∀ (e : Expr) (s : Stmt) (o : Option Stmt) (c : Cursor), c.last.kind ∈ closers →
        Closed (.cond keyword e s o) c := fun _ _ _ _ h => ⟨rfl, h, by simp, by simp⟩
    refine .last fun _ => .last fun e => .last fun _ => ?_
    refine (block_closed n).bind fun thenBranch c₂ hthen s c₁ h => ?_
    rw [Reads.get_bind] at h
    obtain ⟨_, c₃, _, h⟩ := bind_eq_ok h
    obtain ⟨b, c₄, _, h⟩ := bind_eq_ok h
    cases b with
    | false =>
      obtain ⟨rfl, rfl⟩ := Prod.mk.inj (Except.ok.inj h)
      exact hclosed _ _ _ _ hthen
    | true =>
      obtain ⟨inner, c₅, _, h⟩ := bind_eq_ok h
      cases inner with
      | some inner =>
        obtain ⟨elseBranch, c₆, helse, h⟩ := bind_eq_ok h
        obtain ⟨rfl, rfl⟩ := Prod.mk.inj (Except.ok.inj h)
        exact hclosed _ _ _ _ (ih inner helse).2.1
      | none =>
        obtain ⟨elseBranch, c₆, helse, h⟩ := bind_eq_ok h
        obtain ⟨rfl, rfl⟩ := Prod.mk.inj (Except.ok.inj h)
        exact hclosed _ _ _ _ (block_closed n helse)

/-! ### Loops -/

theorem whileStatement_ok {n : Nat} {t : Token} {c c₁ : Cursor} {s : Stmt}
    (h : whileStatement (n + 1) t c = .ok (s, c₁)) :
    ∃ e body c₂, statement n c₂ = .ok (body, c₁) ∧ s = .loop e body t := by
  obtain ⟨_, c₂, _, h⟩ := bind_eq_ok h
  obtain ⟨e, c₃, _, h⟩ := bind_eq_ok h
  obtain ⟨_, c₄, _, h⟩ := bind_eq_ok h
  obtain ⟨body, c₅, hbody, h⟩ := bind_eq_ok h
  obtain ⟨rfl, rfl⟩ := Prod.mk.inj (Except.ok.inj h)
  exact ⟨e, body, c₄, hbody, rfl⟩

theorem forStatement_ok (n : Nat) (t : Token) : Leaves (forStatement (n + 1) t) fun s c₁ =>
    ∃ init e inc body c₂, statement n c₂ = .ok (body, c₁) ∧ s = forLoop t init e inc body := by
  refine .last fun _ => .last fun init => .last fun c => ?_
  have hbody (e : Expr) (inc : Option Expr) : Leaves (do
      let _ ← expect .rightParen .forClose
      let body ← statement n
      return forLoop t init e inc body) fun s c₁ =>
      ∃ init e inc body c₂, statement n c₂ = .ok (body, c₁) ∧ s = forLoop t init e inc body := by
    refine .last fun _ c s c₁ h => ?_
    obtain ⟨body, c₂, hbody, h⟩ := bind_eq_ok h
    obtain ⟨rfl, rfl⟩ := Prod.mk.inj (Except.ok.inj h)
    exact ⟨init, e, inc, body, c, hbody, rfl⟩
  refine .ite (.last fun e => ?_) (.last fun e => ?_)
  all_goals
    refine .last fun _ => .last fun c => .ite (.last fun inc => ?_) (.last fun inc => ?_)
    · exact hbody e inc
    · exact hbody e inc

theorem statement_plain (n : Nat) : Leaves (statement n) fun s _ => Plain s := by
  cases n with
  | zero => exact .throw
  | succ n =>
    refine (statement_read n).imp fun s c₁ h => ?_
    cases h with
    | classDecl h => exact (classDeclaration_closed n h).2.2
    | forLoop _ h =>
      cases n with
      | zero => cases h
      | succ n =>
        obtain ⟨init, e, inc, body, c₂, _, rfl⟩ := forStatement_ok n _ h
        exact ⟨by simp [forLoop], by simp [forLoop]⟩
    | whileLoop ht h =>
      cases n with
      | zero => cases h
      | succ n =>
        obtain ⟨e, body, c₂, _, rfl⟩ := whileStatement_ok h
        exact ⟨by simp [ht], by simp⟩
    | cond h => exact (ifStatement_closed n _ h).2.2
    | «variable» h => exact (variableDeclaration_open n _ h).2.2
    | returns h => exact (returnStatement_open n _ h).2.2
    | indexAssign h => exact (indexAssignment_open n h).2.2
    | expression hc h => exact (expressionStatement_open n hc h).2.2
    | functionDecl | object | block | empty => exact ⟨by simp, by simp⟩

theorem blockRow_plain (n : Nat) : Leaves (blockRow n) fun ss _ => ∀ s ∈ ss, Plain s := by
  induction n with
  | zero => exact .throw
  | succ n ih =>
    refine .last fun c => .ite ?_ ?_
    · intro c ss c₁ h
      obtain ⟨rfl, _⟩ := Prod.mk.inj (Except.ok.inj h)
      simp
    · refine (statement_plain n).bind fun s c₂ hs ss c₁ h => ?_
      obtain ⟨_, c₃, _, h⟩ := bind_eq_ok h
      obtain ⟨rest, c₄, hrest, h⟩ := bind_eq_ok h
      obtain ⟨rfl, rfl⟩ := Prod.mk.inj (Except.ok.inj h)
      exact List.forall_mem_cons.2 ⟨hs, ih hrest⟩

theorem block_plain (n : Nat) : Leaves (block n) fun ss _ => ∀ s ∈ ss, Plain s := by
  cases n with
  | zero => exact .throw
  | succ n =>
    refine .last fun _ => .last fun b => .ite ?_ ?_
    · intro c ss c₁ h
      obtain ⟨rfl, _⟩ := Prod.mk.inj (Except.ok.inj h)
      simp
    · refine .last fun _ => .last fun _ => (blockRow_plain n).bind fun ss c₂ hss ss' c₁ h => ?_
      obtain ⟨_, c₃, _, h⟩ := bind_eq_ok h
      obtain ⟨rfl, rfl⟩ := Prod.mk.inj (Except.ok.inj h)
      exact hss

theorem takesSeparator_forLoop {t : Token} (ht : t.kind = .kwFor) (init : Option Stmt) (e : Expr)
    (inc : Option Expr) (body : Stmt) :
    (forLoop t init e inc body).takesSeparator = body.takesSeparator := by
  cases init <;> cases inc <;> simp [forLoop, Stmt.takesSeparator, lastTakesSeparator, ht]

/-- A statement that takes a separator has done so, and any other has been closed by a brace,
unless it has been cut off. -/
structure Finished (s : Stmt) (c : Cursor) : Prop where
  separated : s.takesSeparator = true → c.Separated
  closed : s.takesSeparator = false → c.last.kind ∈ closers ∨ s.Unfinished

theorem Open.finished {s : Stmt} {c : Cursor} (h : Open s c) : Finished s c :=
  ⟨fun _ => h.2.1, fun hs => absurd (h.1.symm.trans hs) (by simp)⟩

theorem finished_of_closer {s : Stmt} {c : Cursor} (hs : s.takesSeparator = false)
    (h : c.last.kind ∈ closers) : Finished s c :=
  ⟨fun hs' => absurd (hs'.symm.trans hs) (by simp), fun _ => .inl h⟩

theorem statement_finished (n : Nat) : Leaves (statement n) Finished := by
  induction n using Nat.strongRecOn with
  | ind n ih =>
    cases n with
    | zero => exact .throw
    | succ n =>
      refine (statement_read n).imp fun s c₁ h => ?_
      cases h with
      | classDecl h =>
        obtain ⟨hs, hc, _⟩ := classDeclaration_closed n h
        exact finished_of_closer hs hc
      | cond h =>
        obtain ⟨hs, hc, _⟩ := ifStatement_closed n _ h
        exact finished_of_closer hs hc
      | functionDecl h => exact finished_of_closer rfl (functionRest_closed n _ h)
      | block h =>
        exact finished_of_closer (lastTakesSeparator_of_plain (block_plain n h)) (block_closed n h)
      | «variable» h => exact (variableDeclaration_open n _ h).finished
      | returns h => exact (returnStatement_open n _ h).finished
      | indexAssign h => exact (indexAssignment_open n h).finished
      | expression hc h => exact (expressionStatement_open n hc h).finished
      | object h => exact ⟨fun _ => h, by simp [Stmt.takesSeparator]⟩
      | empty => exact ⟨by simp [Stmt.takesSeparator], fun _ => .inr unfinished_empty⟩
      | forLoop ht h =>
        cases n with
        | zero => cases h
        | succ n =>
          obtain ⟨init, e, inc, body, c₂, hbody, rfl⟩ := forStatement_ok n _ h
          obtain ⟨hsep, hclosed⟩ := ih n (by omega) hbody
          rw [← takesSeparator_forLoop ht init e inc] at hsep hclosed
          exact ⟨hsep, fun hs => (hclosed hs).imp_right fun h => unfinished_forLoop h _ init e inc⟩
      | whileLoop _ h =>
        cases n with
        | zero => cases h
        | succ n =>
          obtain ⟨e, body, c₂, hbody, rfl⟩ := whileStatement_ok h
          obtain ⟨hsep, hclosed⟩ := ih n (by omega) hbody
          exact ⟨hsep, fun hs => (hclosed hs).imp_right fun h => unfinished_loop h e _⟩

end Grammar

end ScopedScript
