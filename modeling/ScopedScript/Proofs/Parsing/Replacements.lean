import ScopedScript.Proofs.Paraphrases.Trees
import ScopedScript.Proofs.Parsing.Expressions

/-! # Replacing a statement

Two rows of tokens that are read as expressions which say the same can stand for each other as
statements, in every program.

* **The place.** A statement may stand where the same expression may be the value of a new variable: the
  row is read too with the beginning of a declaration, `let x =`, in front of it
  (`Replacement.declared`).  Nothing but a statement starts with that word, so the place is no part of
  anything else.
* **Cursors.** Three rows are read side by side, that of the declaration and those of the two
  statements.  Their cursors are `Around` the place if they have corresponding tokens to come, up to
  the place or behind it.  At the place itself the first cursor is `Here`.
* **Productions.** Three productions *keep* in step (`Keeps`) if, where the first makes a tree, the
  others make trees that say the same.  A production that is no statement goes no further than to the
  place (`Stalls`); if it may stop there, nothing is said of the others, which may go on into their
  rows.

Each production keeps in step (`productionsAdapt`), and so do programs (`Replacement.parseFrom`). -/

namespace ScopedScript

namespace Grammar

/-! ### Looking ahead -/

section

variable {token : Token → Token → Prop} {ts ts' : List Token}

/-- Is the first of these tokens of this kind? -/
def firstIs (kind : Token.Kind) (ts : List Token) : Bool :=
  match ts.head? with
  | some t => t.kind == kind
  | none => false

theorem startsEntry_cons (t : Token) (ts : List Token) : startsEntry (t :: ts) =
    if t.kind = .newline then startsEntry ts else t.kind == .name && firstIs .colon ts := by
  unfold startsEntry
  by_cases hfeed : t.kind = .newline
  · rw [List.dropWhile_cons_of_pos (by simp [hfeed]), if_pos hfeed]
  · rw [List.dropWhile_cons_of_neg (by simp [hfeed]), if_neg hfeed]
    cases ts with
    | nil => simp [firstIs]
    | cons u us => rfl

theorem closesAtOnce_cons (t : Token) (ts : List Token) : closesAtOnce (t :: ts) =
    if t.kind = .newline then closesAtOnce ts else t.kind == .rightBrace := by
  unfold closesAtOnce
  by_cases hfeed : t.kind = .newline
  · rw [List.dropWhile_cons_of_pos (by simp [hfeed]), if_pos hfeed]
  · rw [List.dropWhile_cons_of_neg (by simp [hfeed]), if_neg hfeed]

theorem assignsAfterBracket_closing {t : Token} (ht : t.kind = .rightBracket) (depth : Nat)
    (ts : List Token) : assignsAfterBracket depth (t :: ts) =
      if depth ≤ 1 then firstIs .assign ts else assignsAfterBracket (depth - 1) ts := by
  simp only [assignsAfterBracket, ht]
  cases ts <;> rfl

section

variable (hm : Matches token) (h : List.Forall₂ token ts ts')
include hm h

theorem firstIs_alike (kind : Token.Kind) : firstIs kind ts' = firstIs kind ts := by
  cases h with
  | nil => rfl
  | cons ht _ => simp [firstIs, (hm.same ht).1]

theorem marked_alike (hmark : ∃ t ∈ ts, t.kind = .endMark) : ∃ t ∈ ts', t.kind = .endMark := by
  induction h with
  | nil => exact hmark
  | @cons t t' ts ts' ht h ih =>
    obtain ⟨u, hu, hmark⟩ := hmark
    rcases List.mem_cons.1 hu with rfl | hu
    · exact ⟨t', List.mem_cons_self, (hm.same ht).1.trans hmark⟩
    · obtain ⟨u', hu', hmark'⟩ := ih ⟨u, hu, hmark⟩
      exact ⟨u', List.mem_cons_of_mem _ hu', hmark'⟩

theorem startsEntry_alike : startsEntry ts' = startsEntry ts := by
  induction h with
  | nil => rfl
  | cons ht h ih => rw [startsEntry_cons, startsEntry_cons, (hm.same ht).1, ih, firstIs_alike hm h]

theorem closesAtOnce_alike : closesAtOnce ts' = closesAtOnce ts := by
  induction h with
  | nil => rfl
  | cons ht h ih => rw [closesAtOnce_cons, closesAtOnce_cons, (hm.same ht).1, ih]

theorem assignsAfterBracket_alike (depth : Nat) :
    assignsAfterBracket depth ts' = assignsAfterBracket depth ts := by
  induction h generalizing depth with
  | nil => rfl
  | @cons t _ _ _ ht h ih =>
    by_cases hclose : t.kind = .rightBracket
    · rw [assignsAfterBracket_closing hclose,
        assignsAfterBracket_closing ((hm.same ht).1.trans hclose), ih, firstIs_alike hm h]
    · simp only [assignsAfterBracket, (hm.same ht).1, ih]
      split <;> first | rfl | exact absurd ‹_› hclose

end

end

/-! ### The place of a statement -/

/-- A row that is read as an expression in the place of a statement. -/
structure Sentence (ts post : List Token) : Prop where
  brackets : Brackets 0 ts 0
  no_entry : startsEntry (ts ++ post) = false
  statement : ∀ fuel last i, statement (fuel + 1) ⟨last, ts ++ post, i⟩ =
    expressionStatement fuel ⟨last, ts ++ post, i⟩

/-- Two rows that are read as expressions which say the same, what comes behind them, and the beginning
of a declaration to stand in front of the first one. -/
structure Replacement (token : Token → Token → Prop) where
  row : List Token
  row' : List Token
  post : List Token
  post' : List Token
  word : Token
  name : Token
  equals : Token
  /-- How deep the productions may call each other on the rows. -/
  room : Nat
  tokens : Matches token
  word_kind : word.kind ∈ declarationKinds
  name_kind : name.kind = .name
  equals_kind : equals.kind = .assign
  posts : List.Forall₂ token post post'
  marked : ∃ t ∈ post, t.kind = .endMark
  starts : ∃ t t' ts ts', row = t :: ts ∧ row' = t' :: ts' ∧ token t t' ∧ t.kind ∈ expressionStarters
  sentence : Sentence row post
  sentence' : Sentence row' post'
  joints : (∃ t ∈ row, t.kind ∈ Grammar.joints) ↔ ∃ t ∈ row', t.kind ∈ Grammar.joints
  read : ∀ last last' i, ∃ e e' l l' j j', e.Paraphrases (fun _ _ => True) e' ∧
    ∀ fuel, room ≤ fuel →
      expression fuel ⟨last, row ++ post, i⟩ = .ok (e, ⟨l, post, j⟩) ∧
      expression fuel ⟨last', row' ++ post', i⟩ = .ok (e', ⟨l', post', j'⟩)

namespace Replacement

variable {token : Token → Token → Prop}

/-- The second row in the place of the first. -/
def swap (J : Replacement token) (hsymm : ∀ {t t' : Token}, token t t' → token t' t) :
    Replacement token where
  row := J.row'
  row' := J.row
  post := J.post'
  post' := J.post
  word := J.word
  name := J.name
  equals := J.equals
  room := J.room
  tokens := J.tokens
  word_kind := J.word_kind
  name_kind := J.name_kind
  equals_kind := J.equals_kind
  posts := (J.posts.imp fun _ _ => hsymm).flip
  marked := marked_alike J.tokens J.posts J.marked
  starts := by
    obtain ⟨t, t', ts, ts', hrow, hrow', ht, hstart⟩ := J.starts
    exact ⟨t', t, ts', ts, hrow', hrow, hsymm ht, by rwa [(J.tokens.same ht).1]⟩
  sentence := J.sentence'
  sentence' := J.sentence
  joints := J.joints.symm
  read last last' i := by
    obtain ⟨e, e', l, l', j, j', he, hread⟩ := J.read last' last i
    exact ⟨e', e, l', l, j', j, Expr.Paraphrases.symm e he, fun fuel hfuel => (hread fuel hfuel).symm⟩

/-- The declaration of a variable with the first row as its value. -/
def declared (J : Replacement token) : List Token :=
  J.word :: J.name :: J.equals :: (J.row ++ J.post)

/-- What is left of the three rows in front of the place. -/
inductive Ahead (J : Replacement token) : List Token → List Token → List Token → Prop
  | here : J.Ahead J.declared (J.row ++ J.post) (J.row' ++ J.post')
  | cons {t t' : Token} {ts₀ ts₁ ts₂ : List Token} : token t t' → J.Ahead ts₀ ts₁ ts₂ →
      J.Ahead (t :: ts₀) (t :: ts₁) (t' :: ts₂)

/-- What is left of the three rows behind the place. -/
structure Past (J : Replacement token) (ts₀ ts₁ ts₂ : List Token) : Prop where
  same : ts₁ = ts₀
  alike : List.Forall₂ token ts₀ ts₂
  short : ts₀.length ≤ J.post.length
  marked : ∃ t ∈ ts₀, t.kind = .endMark

/-- The cursors have corresponding tokens to come. -/
structure Around (J : Replacement token) (c₀ c₁ c₂ : Cursor) : Prop where
  rows : J.Ahead c₀.rest c₁.rest c₂.rest ∧ c₂.nextId = c₁.nextId ∨ J.Past c₀.rest c₁.rest c₂.rest

/-- The cursor is at the place. -/
def Here (J : Replacement token) (c : Cursor) : Prop := c.rest = J.declared

/-! ### What is in view -/

section

variable {J : Replacement token} {c c₀ c₁ c₂ : Cursor} {ts₀ ts₁ ts₂ : List Token}
  {kind : Token.Kind} {kinds : List Token.Kind}

theorem check_false {t : Token} {ts : List Token} (hc : c.rest = t :: ts) (ht : t.kind ≠ kind) :
    c.check kind = false := by
  simp [Cursor.check, Cursor.peek, hc, ht]

theorem atEnd_false {t : Token} {ts : List Token} (hc : c.rest = t :: ts)
    (ht : t.kind ≠ .endMark) : c.atEnd = false := by
  simpa [Cursor.atEnd, Cursor.peek, hc] using ht

theorem kind_eq (J : Replacement token) {t t' : Token} (h : token t t') : t'.kind = t.kind :=
  (J.tokens.same h).1

theorem sameWord (J : Replacement token) {t t' : Token} (h : token t t') : t.SameWord t' :=
  ⟨(J.tokens.same h).1, (J.tokens.same h).2.1⟩

theorem word_ne (J : Replacement token) (hkind : kind ∉ declarationKinds) : J.word.kind ≠ kind :=
  fun h => hkind (h ▸ J.word_kind)

namespace Here

theorem peek (h : J.Here c) : c.peek = J.word := by
  rw [Cursor.peek, h]
  rfl

theorem atEnd (h : J.Here c) : c.atEnd = false := by
  simpa [Cursor.atEnd, h.peek] using J.word_ne (by decide : Token.Kind.endMark ∉ declarationKinds)

theorem check (h : J.Here c) (hkind : kind ∉ declarationKinds) : c.check kind = false := by
  rw [Cursor.check, h.peek, beq_eq_false_iff_ne.2 (J.word_ne hkind), Bool.and_false]

theorem anyCheck (h : J.Here c) (hkinds : ∀ kind ∈ kinds, kind ∉ declarationKinds) :
    ¬kinds.any c.check = true := by
  intro hany
  obtain ⟨kind, hmem, hcheck⟩ := List.any_eq_true.1 hany
  rw [h.check (hkinds kind hmem)] at hcheck
  cases hcheck

end Here

/-- Both rows start like an expression. -/
theorem heads (J : Replacement token) : ∃ t t' ts ts', J.row ++ J.post = t :: ts ∧
    J.row' ++ J.post' = t' :: ts' ∧ t.kind ∈ expressionStarters ∧ t'.kind ∈ expressionStarters ∧
    token t t' := by
  obtain ⟨t, t', ts, ts', hrow, hrow', ht, hstart⟩ := J.starts
  exact ⟨t, t', _, _, by rw [hrow]; rfl, by rw [hrow']; rfl, hstart, by rwa [J.kind_eq ht], ht⟩

/-- The first cursor is at the place, or the three have corresponding tokens in view. -/
theorem Around.cases (h : J.Around c₀ c₁ c₂) :
    J.Here c₀ ∧ c₁.rest = J.row ++ J.post ∧ c₂.rest = J.row' ++ J.post' ∧ c₂.nextId = c₁.nextId ∨
    ¬J.Here c₀ ∧ ∃ t t' ts₀ ts₁ ts₂, c₀.rest = t :: ts₀ ∧ c₁.rest = t :: ts₁ ∧ c₂.rest = t' :: ts₂ ∧
      token t t' ∧ (t.kind ≠ .endMark → ∀ l₀ l₁ l₂,
        J.Around ⟨l₀, ts₀, c₀.nextId⟩ ⟨l₁, ts₁, c₁.nextId⟩ ⟨l₂, ts₂, c₂.nextId⟩) := by
  obtain ⟨last₀, rest₀, nextId₀⟩ := c₀
  obtain ⟨last₁, rest₁, nextId₁⟩ := c₁
  obtain ⟨last₂, rest₂, nextId₂⟩ := c₂
  obtain ⟨⟨hrows, hid⟩ | ⟨rfl, halike, hshort, hmarked⟩⟩ := h
  · dsimp only at hrows hid
    have hlength : ∀ {ts₀ ts₁ ts₂ : List Token}, J.Ahead ts₀ ts₁ ts₂ →
        J.declared.length ≤ ts₀.length := fun h => by
      induction h with
      | here => exact Nat.le_refl _
      | cons _ _ ih => exact ih.trans (Nat.le_succ _)
    cases hrows with
    | here => exact .inl ⟨rfl, rfl, rfl, hid⟩
    | cons ht hrows =>
      refine .inr ⟨fun hhere => ?_, _, _, _, _, _, rfl, rfl, rfl, ht,
        fun _ _ _ _ => ⟨.inl ⟨hrows, hid⟩⟩⟩
      have hlt := hlength hrows
      have heq := congrArg List.length hhere
      simp only [List.length_cons] at heq
      omega
  · dsimp only at halike hshort hmarked
    refine .inr ⟨fun hhere => ?_, ?_⟩
    · replace hhere : rest₁ = J.declared := hhere
      rw [hhere] at hshort
      simp only [declared, List.length_cons, List.length_append] at hshort
      omega
    cases halike with
    | nil =>
      obtain ⟨t, ht, -⟩ := hmarked
      cases ht
    | @cons t t' ts ts' ht halike =>
      refine ⟨t, t', ts, ts, ts', rfl, rfl, rfl, ht, fun hkind _ _ _ => ⟨.inr ⟨rfl, halike,
        (Nat.le_succ _).trans hshort, ?_⟩⟩⟩
      obtain ⟨u, hu, hmark⟩ := hmarked
      exact ⟨u, (List.mem_cons.1 hu).resolve_left fun heq => hkind (heq ▸ hmark), hmark⟩

namespace Around

theorem peek (h : J.Around c₀ c₁ c₂) (hhere : ¬J.Here c₀) :
    c₁.peek = c₀.peek ∧ token c₀.peek c₂.peek := by
  obtain ⟨hplace, -⟩ | ⟨-, t, t', ts₀, ts₁, ts₂, h₀, h₁, h₂, ht, -⟩ := h.cases
  · exact absurd hplace hhere
  · simp only [Cursor.peek, h₀, h₁, h₂, List.head?_cons, Option.getD_some]
    exact ⟨trivial, ht⟩

theorem atEnd (h : J.Around c₀ c₁ c₂) (hhere : ¬J.Here c₀) :
    c₁.atEnd = c₀.atEnd ∧ c₂.atEnd = c₀.atEnd := by
  obtain ⟨h₁, h₂⟩ := h.peek hhere
  simp [Cursor.atEnd, h₁, J.kind_eq h₂]

theorem check (h : J.Around c₀ c₁ c₂) (hhere : ¬J.Here c₀) (kind : Token.Kind) :
    c₁.check kind = c₀.check kind ∧ c₂.check kind = c₀.check kind := by
  obtain ⟨h₁, h₂⟩ := h.peek hhere
  simp [Cursor.check, Cursor.atEnd, h₁, J.kind_eq h₂]

/-- No statement starts with a token of this kind. -/
theorem check_eq (h : J.Around c₀ c₁ c₂) (hkind : kind ∉ declarationKinds)
    (hkind' : kind ∉ expressionStarters) :
    c₁.check kind = c₀.check kind ∧ c₂.check kind = c₀.check kind := by
  by_cases hhere : J.Here c₀
  · obtain ⟨-, h₁, h₂, -⟩ | ⟨hplace, -⟩ := h.cases
    · obtain ⟨t, t', ts, ts', hrow, hrow', ht, ht', -⟩ := J.heads
      rw [hhere.check hkind, check_false (h₁.trans hrow) (starter_ne ht hkind'),
        check_false (h₂.trans hrow') (starter_ne ht' hkind')]
      exact ⟨rfl, rfl⟩
    · exact absurd hhere hplace
  · exact h.check hhere kind

theorem atEnd_eq (h : J.Around c₀ c₁ c₂) : c₁.atEnd = c₀.atEnd ∧ c₂.atEnd = c₀.atEnd := by
  by_cases hhere : J.Here c₀
  · obtain ⟨-, h₁, h₂, -⟩ | ⟨hplace, -⟩ := h.cases
    · obtain ⟨t, t', ts, ts', hrow, hrow', ht, ht', -⟩ := J.heads
      rw [hhere.atEnd, atEnd_false (h₁.trans hrow) (starter_ne ht (by decide)),
        atEnd_false (h₂.trans hrow') (starter_ne ht' (by decide))]
      exact ⟨rfl, rfl⟩
    · exact absurd hhere hplace
  · exact h.atEnd hhere

theorem anyCheck (h : J.Around c₀ c₁ c₂) (hhere : ¬J.Here c₀) (kinds : List Token.Kind) :
    kinds.any c₁.check = kinds.any c₀.check ∧ kinds.any c₂.check = kinds.any c₀.check := by
  rw [funext fun kind => (h.check hhere kind).1, funext fun kind => (h.check hhere kind).2]
  exact ⟨rfl, rfl⟩

end Around

end


section

variable {J : Replacement token} {c₀ c₁ c₂ : Cursor} {ts₀ ts₁ ts₂ : List Token} {kind : Token.Kind}

/-- What is left of the three rows. -/
def Rows (J : Replacement token) (ts₀ ts₁ ts₂ : List Token) : Prop :=
  J.Ahead ts₀ ts₁ ts₂ ∨ J.Past ts₀ ts₁ ts₂

namespace Ahead

theorem firstIs (h : J.Ahead ts₀ ts₁ ts₂) (hkind : kind ∉ declarationKinds) :
    ts₀ = J.declared ∧ firstIs kind ts₀ = false ∨
      firstIs kind ts₁ = firstIs kind ts₀ ∧ firstIs kind ts₂ = firstIs kind ts₀ := by
  cases h with
  | here => exact .inl ⟨rfl, beq_eq_false_iff_ne.2 (J.word_ne hkind)⟩
  | cons ht => exact .inr ⟨rfl, congrArg (· == kind) (J.kind_eq ht)⟩

theorem firstIs_eq (h : J.Ahead ts₀ ts₁ ts₂) (hkind : kind ∉ declarationKinds)
    (hkind' : kind ∉ expressionStarters) : Grammar.firstIs kind ts₁ = Grammar.firstIs kind ts₀ ∧
      Grammar.firstIs kind ts₂ = Grammar.firstIs kind ts₀ := by
  cases h with
  | here =>
    obtain ⟨t, t', ts, ts', hrow, hrow', ht, ht', -⟩ := J.heads
    rw [hrow, hrow']
    exact ⟨(beq_eq_false_iff_ne.2 (starter_ne ht hkind')).trans
        (beq_eq_false_iff_ne.2 (J.word_ne hkind)).symm,
      (beq_eq_false_iff_ne.2 (starter_ne ht' hkind')).trans
        (beq_eq_false_iff_ne.2 (J.word_ne hkind)).symm⟩
  | cons ht => exact ⟨rfl, congrArg (· == kind) (J.kind_eq ht)⟩

theorem startsEntry_eq (h : J.Ahead ts₀ ts₁ ts₂) :
    startsEntry ts₁ = startsEntry ts₀ ∧ startsEntry ts₂ = startsEntry ts₀ := by
  induction h with
  | here =>
    rw [J.sentence.no_entry, J.sentence'.no_entry, declared, startsEntry_cons,
      if_neg (J.word_ne (by decide)), beq_eq_false_iff_ne.2 (J.word_ne (by decide)), Bool.false_and]
    exact ⟨rfl, rfl⟩
  | cons ht h ih =>
    obtain ⟨h₁, h₂⟩ := h.firstIs_eq (by decide : Token.Kind.colon ∉ declarationKinds) (by decide)
    simp only [startsEntry_cons, J.kind_eq ht, ih.1, ih.2, h₁, h₂, and_self]

theorem closesAtOnce_eq (h : J.Ahead ts₀ ts₁ ts₂) :
    closesAtOnce ts₁ = closesAtOnce ts₀ ∧ closesAtOnce ts₂ = closesAtOnce ts₀ := by
  induction h with
  | here =>
    obtain ⟨t, t', ts, ts', hrow, hrow', ht, ht', -⟩ := J.heads
    have hother : ∀ {u : Token} us, u.kind ≠ .newline → u.kind ≠ .rightBrace →
        closesAtOnce (u :: us) = false := fun us hfeed hbrace => by
      rw [closesAtOnce_cons, if_neg hfeed, beq_eq_false_iff_ne.2 hbrace]
    rw [hrow, hrow', declared, hother _ (J.word_ne (by decide)) (J.word_ne (by decide)),
      hother _ (starter_ne ht (by decide)) (starter_ne ht (by decide)),
      hother _ (starter_ne ht' (by decide)) (starter_ne ht' (by decide))]
    exact ⟨rfl, rfl⟩
  | cons ht h ih => simp only [closesAtOnce_cons, J.kind_eq ht, ih.1, ih.2, and_self]

/-- A search for the bracket that closes an open one comes to the same in the three rows. -/
theorem search_eq (h : J.Ahead ts₀ ts₁ ts₂) (n : Nat) :
    assignsAfterBracket (n + 1) ts₁ = assignsAfterBracket (n + 1) ts₀ ∧
      assignsAfterBracket (n + 1) ts₂ = assignsAfterBracket (n + 1) ts₀ := by
  induction h generalizing n with
  | here =>
    have hpass : ∀ {t : Token}, t.kind ∈ [.name, .assign] ++ declarationKinds → ∀ ts,
        assignsAfterBracket (n + 1) (t :: ts) = assignsAfterBracket (n + 1) ts := by
      intro t ht ts
      have hkinds : ∀ kind ∈ [.name, .assign] ++ declarationKinds,
          kind ∉ [.leftBracket, .rightBracket, Token.Kind.endMark] ∧ kind ∉ Grammar.joints := by decide
      obtain ⟨hbracket, hjoint⟩ := hkinds _ ht
      rw [Brackets.assignsAfterBracket_other hbracket, if_neg hjoint]
    rw [declared, hpass (List.mem_append_right _ J.word_kind), hpass (by simp [J.name_kind]),
      hpass (by simp [J.equals_kind])]
    refine ⟨rfl, ?_⟩
    have hrow : Brackets n J.row n := J.sentence.brackets.deeper n
    have hrow' : Brackets n J.row' n := J.sentence'.brackets.deeper n
    by_cases hjoint : ∃ t ∈ J.row, t.kind ∈ Grammar.joints
    · rw [hrow.assignsAfterBracket_joint hjoint, hrow'.assignsAfterBracket_joint (J.joints.1 hjoint)]
    · rw [hrow.assignsAfterBracket_append fun t ht h => hjoint ⟨t, ht, h⟩,
        hrow'.assignsAfterBracket_append fun t ht h => hjoint (J.joints.2 ⟨t, ht, h⟩)]
      exact assignsAfterBracket_alike J.tokens J.posts (n + 1)
  | @cons t t' ts₀ ts₁ ts₂ ht h ih =>
    have hkind := J.kind_eq ht
    by_cases hopen : t.kind = .leftBracket
    · simp only [assignsAfterBracket, hkind, hopen]
      exact ih (n + 1)
    by_cases hclose : t.kind = .rightBracket
    · rw [assignsAfterBracket_closing hclose, assignsAfterBracket_closing hclose,
        assignsAfterBracket_closing (hkind.trans hclose)]
      cases n with
      | zero => exact h.firstIs_eq (by decide) (by decide)
      | succ n => exact ih n
    by_cases hmark : t.kind = .endMark
    · simp only [assignsAfterBracket, hkind, hmark, and_self]
    have hother : t.kind ∉ [.leftBracket, .rightBracket, Token.Kind.endMark] := by
      simp [hopen, hclose, hmark]
    rw [Brackets.assignsAfterBracket_other hother, Brackets.assignsAfterBracket_other hother,
      Brackets.assignsAfterBracket_other (hkind ▸ hother), hkind]
    split
    · exact ⟨rfl, rfl⟩
    · exact ih n

end Ahead

namespace Rows

theorem firstIs (h : J.Rows ts₀ ts₁ ts₂) (hkind : kind ∉ declarationKinds) :
    ts₀ = J.declared ∧ firstIs kind ts₀ = false ∨
      firstIs kind ts₁ = firstIs kind ts₀ ∧ firstIs kind ts₂ = firstIs kind ts₀ := by
  rcases h with h | ⟨rfl, h, -, -⟩
  · exact h.firstIs hkind
  · exact .inr ⟨rfl, firstIs_alike J.tokens h kind⟩

theorem firstIs_eq (h : J.Rows ts₀ ts₁ ts₂) (hkind : kind ∉ declarationKinds)
    (hkind' : kind ∉ expressionStarters) : Grammar.firstIs kind ts₁ = Grammar.firstIs kind ts₀ ∧
      Grammar.firstIs kind ts₂ = Grammar.firstIs kind ts₀ := by
  rcases h with h | ⟨rfl, h, -, -⟩
  · exact h.firstIs_eq hkind hkind'
  · exact ⟨rfl, firstIs_alike J.tokens h kind⟩

theorem startsEntry_eq (h : J.Rows ts₀ ts₁ ts₂) :
    startsEntry ts₁ = startsEntry ts₀ ∧ startsEntry ts₂ = startsEntry ts₀ := by
  rcases h with h | ⟨rfl, h, -, -⟩
  · exact h.startsEntry_eq
  · exact ⟨rfl, startsEntry_alike J.tokens h⟩

theorem closesAtOnce_eq (h : J.Rows ts₀ ts₁ ts₂) :
    closesAtOnce ts₁ = closesAtOnce ts₀ ∧ closesAtOnce ts₂ = closesAtOnce ts₀ := by
  rcases h with h | ⟨rfl, h, -, -⟩
  · exact h.closesAtOnce_eq
  · exact ⟨rfl, closesAtOnce_alike J.tokens h⟩

theorem search_eq (h : J.Rows ts₀ ts₁ ts₂) (n : Nat) :
    assignsAfterBracket (n + 1) ts₁ = assignsAfterBracket (n + 1) ts₀ ∧
      assignsAfterBracket (n + 1) ts₂ = assignsAfterBracket (n + 1) ts₀ := by
  rcases h with h | ⟨rfl, h, -, -⟩
  · exact h.search_eq n
  · exact ⟨rfl, assignsAfterBracket_alike J.tokens h _⟩

end Rows

namespace Around

theorem rows_after {l₀ l₁ l₂ : Token} {i₀ i₁ i₂ : NodeId}
    (h : J.Around ⟨l₀, ts₀, i₀⟩ ⟨l₁, ts₁, i₁⟩ ⟨l₂, ts₂, i₂⟩) : J.Rows ts₀ ts₁ ts₂ :=
  h.rows.imp_left And.left

/-- What comes behind the tokens in view. -/
theorem tail (h : J.Around c₀ c₁ c₂) (hhere : ¬J.Here c₀) (hend : c₀.atEnd = false) :
    J.Rows c₀.rest.tail c₁.rest.tail c₂.rest.tail := by
  obtain ⟨hplace, -⟩ | ⟨-, t, t', ts₀, ts₁, ts₂, h₀, h₁, h₂, ht, hnext⟩ := h.cases
  · exact absurd hplace hhere
  · rw [h₀, h₁, h₂]
    refine (hnext (fun hkind => ?_) t t t).rows_after
    simp [Cursor.atEnd, Cursor.peek, h₀, hkind] at hend

theorem checkNext_eq (h : J.Around c₀ c₁ c₂) (hhere : ¬J.Here c₀) (hend : c₀.atEnd = false)
    (hkind : kind ∉ declarationKinds) (hkind' : kind ∉ expressionStarters) :
    c₁.checkNext kind = c₀.checkNext kind ∧ c₂.checkNext kind = c₀.checkNext kind :=
  (h.tail hhere hend).firstIs_eq hkind hkind'

theorem checkNext (h : J.Around c₀ c₁ c₂) (hhere : ¬J.Here c₀) (hend : c₀.atEnd = false)
    (hkind : kind ∉ declarationKinds) : c₀.rest.tail = J.declared ∧ c₀.checkNext kind = false ∨
      c₁.checkNext kind = c₀.checkNext kind ∧ c₂.checkNext kind = c₀.checkNext kind :=
  (h.tail hhere hend).firstIs hkind

theorem atObject_eq (h : J.Around c₀ c₁ c₂) (hhere : ¬J.Here c₀) (hend : c₀.atEnd = false) :
    c₁.atObject = c₀.atObject ∧ c₂.atObject = c₀.atObject := by
  obtain ⟨hentry₁, hentry₂⟩ := (h.tail hhere hend).startsEntry_eq
  obtain ⟨hcloses₁, hcloses₂⟩ := (h.tail hhere hend).closesAtOnce_eq
  unfold Cursor.atObject
  rw [hentry₁, hentry₂, hcloses₁, hcloses₂]
  exact ⟨rfl, rfl⟩

/-- A name directly before the place, or an index assignment starts at all of the cursors or at none. -/
theorem atIndexAssignment (h : J.Around c₀ c₁ c₂) (hhere : ¬J.Here c₀) (hend : c₀.atEnd = false) :
    c₀.peek.kind = .name ∧ c₀.rest.tail = J.declared ∧ c₀.atIndexAssignment = false ∨
      c₁.atIndexAssignment = c₀.atIndexAssignment ∧
        c₂.atIndexAssignment = c₀.atIndexAssignment := by
  obtain ⟨hname₁, hname₂⟩ := h.check hhere .name
  unfold Cursor.atIndexAssignment
  rw [hname₁, hname₂]
  cases hname : c₀.check .name with
  | false => exact .inr ⟨rfl, rfl⟩
  | true =>
    obtain ⟨hplace, hnext⟩ | ⟨hnext₁, hnext₂⟩ :=
      h.checkNext hhere hend (by decide : Token.Kind.leftBracket ∉ declarationKinds)
    · exact .inl ⟨Cursor.kind_of_check hname, hplace, by rw [hnext]; rfl⟩
    refine .inr ?_
    rw [hnext₁, hnext₂]
    cases hnext : c₀.checkNext .leftBracket with
    | false => exact ⟨rfl, rfl⟩
    | true =>
      -- the search starts behind the bracket
      have hopen : ∀ {c : Cursor}, c.checkNext .leftBracket = true → ∃ u us, c.rest.tail = u :: us ∧
          u.kind = .leftBracket := by
        intro c hc
        unfold Cursor.checkNext at hc
        cases htail : c.rest.tail with
        | nil => simp [htail] at hc
        | cons u us => exact ⟨u, us, rfl, by simpa [htail] using hc⟩
      obtain ⟨u₀, us₀, h₀, hu₀⟩ := hopen hnext
      obtain ⟨u₁, us₁, h₁, hu₁⟩ := hopen (hnext₁.trans hnext)
      obtain ⟨u₂, us₂, h₂, hu₂⟩ := hopen (hnext₂.trans hnext)
      have hrows := h.tail hhere hend
      rw [h₀, h₁, h₂] at hrows ⊢
      have hbehind : J.Around ⟨u₀, u₀ :: us₀, 0⟩ ⟨u₁, u₁ :: us₁, 0⟩ ⟨u₂, u₂ :: us₂, 0⟩ :=
        ⟨hrows.imp_left fun hahead => ⟨hahead, rfl⟩⟩
      have hplace : ¬J.Here ⟨u₀, u₀ :: us₀, 0⟩ := fun hplace =>
        absurd ((congrArg Token.kind hplace.peek).symm.trans hu₀) (J.word_ne (by decide))
      have hmore := hbehind.tail hplace (by simp [Cursor.atEnd, Cursor.peek, hu₀])
      simp only [assignsAfterBracket, hu₀, hu₁, hu₂, Bool.true_and]
      exact hmore.search_eq 0

end Around

end

/-! ### Three readings -/

theorem skipNewlines_cons {c : Cursor} {t : Token} {ts : List Token} (hc : c.rest = t :: ts) :
    skipNewlines c = if t.kind = .newline then skipNewlines ⟨t, ts, c.nextId⟩ else .ok ((), c) := by
  obtain ⟨last, rest, nextId⟩ := c
  obtain rfl : rest = t :: ts := hc
  simp only [Reads.skipNewlines_eq, dropNewlines]
  split <;> rfl

/-- If the first result is a tree, so are the others, unless they went on into their rows. -/
def Tells (J : Replacement token) (b : Prop) {α : Type} (P : α → α → α → Prop)
    (r₀ r₁ r₂ : Except Failure (α × Cursor)) : Prop :=
  ∀ a₀ d₀, r₀ = .ok (a₀, d₀) → b ∧ J.Here d₀ ∨
    ∃ a₁ a₂ d₁ d₂, r₁ = .ok (a₁, d₁) ∧ r₂ = .ok (a₂, d₂) ∧ J.Around d₀ d₁ d₂ ∧ P a₀ a₁ a₂

/-- The three productions keep in step around the place. -/
def Keeps (J : Replacement token) (b : Prop) {α : Type} (P : α → α → α → Prop)
    (x₀ x₁ x₂ : Parse α) : Prop :=
  ∀ c₀ c₁ c₂ : Cursor, J.Around c₀ c₁ c₂ → J.Tells b P (x₀ c₀) (x₁ c₁) (x₂ c₂)

/-- At the place the production makes no tree, or takes nothing for it where that is allowed. -/
def Stalls (J : Replacement token) (b : Prop) {α : Type} (x : Parse α) : Prop :=
  ∀ c, J.Here c → ∀ a d, x c = .ok (a, d) → b ∧ J.Here d

/-- From a name or the word `function` directly before the place, a tree ends at the place. -/
def Arrives (J : Replacement token) (b : Prop) {α : Type} (x : Parse α) : Prop :=
  ∀ c t, c.rest = t :: J.declared → t.kind ∈ [.name, .kwFunction] → ∀ a d, x c = .ok (a, d) →
    b ∧ J.Here d

/-- The first production goes no further than to the place, and up to it the three keep in step. -/
structure Adapts (J : Replacement token) (K b : Prop) {α : Type} (P : α → α → α → Prop)
    (x₀ x₁ x₂ : Parse α) : Prop where
  stalls : J.Stalls b x₀
  keeps : K → J.Keeps b P x₀ x₁ x₂

section

variable {J : Replacement token} {K K' b b' : Prop} {c c₀ c₁ c₂ : Cursor} {α β : Type}
  {P P' : α → α → α → Prop} {Q : β → β → β → Prop} {x₀ x₁ x₂ : Parse α} {y₀ y₁ y₂ : α → Parse β}

theorem Tells.failed {r₀ r₁ r₂ : Except Failure (α × Cursor)} (h : ∃ e, r₀ = .error e) :
    J.Tells b P r₀ r₁ r₂ := by
  obtain ⟨e, rfl⟩ := h
  exact fun a d h => by cases h

theorem Tells.stopped {r₀ r₁ r₂ : Except Failure (α × Cursor)}
    (h : ∀ a d, r₀ = .ok (a, d) → False ∧ J.Here d) : J.Tells b P r₀ r₁ r₂ :=
  fun a d hr => (h a d hr).1.elim

/-- Taking the token in view, from given cursors. -/
theorem Tells.advance_to (h : J.Around c₀ c₁ c₂) (hhere : ¬J.Here c₀) (hend : c₀.atEnd = false)
    {y₀ y₁ y₂ : Token → Parse β}
    (hy : ∀ t t', token t t' → t.kind = c₀.peek.kind → ∀ d₀ d₁ d₂, J.Around d₀ d₁ d₂ →
      d₀.rest = c₀.rest.tail → J.Tells b Q (y₀ t d₀) (y₁ t d₁) (y₂ t' d₂)) :
    J.Tells b Q ((advance >>= y₀) c₀) ((advance >>= y₁) c₁) ((advance >>= y₂) c₂) := by
  obtain ⟨hplace, -⟩ | ⟨-, t, t', ts₀, ts₁, ts₂, h₀, h₁, h₂, ht, hnext⟩ := h.cases
  · exact absurd hplace hhere
  obtain ⟨last₀, rest₀, nextId₀⟩ := c₀
  obtain ⟨last₁, rest₁, nextId₁⟩ := c₁
  obtain ⟨last₂, rest₂, nextId₂⟩ := c₂
  obtain ⟨rfl, rfl, rfl⟩ : rest₀ = _ ∧ rest₁ = _ ∧ rest₂ = _ := ⟨h₀, h₁, h₂⟩
  have hkind : t.kind ≠ .endMark := by simpa [Cursor.atEnd, Cursor.peek] using hend
  rw [advance_taken hkind, advance_taken hkind, advance_taken ((J.kind_eq ht).trans_ne hkind)]
  exact hy t t' ht rfl _ _ _ (hnext hkind _ _ _) rfl

theorem Tells.advance (h : J.Around c₀ c₁ c₂) (hhere : ¬J.Here c₀) (hend : c₀.atEnd = false)
    {y₀ y₁ y₂ : Token → Parse β}
    (hy : ∀ t t', token t t' → t.kind = c₀.peek.kind → J.Keeps b Q (y₀ t) (y₁ t) (y₂ t')) :
    J.Tells b Q ((Grammar.advance >>= y₀) c₀) ((Grammar.advance >>= y₁) c₁)
      ((Grammar.advance >>= y₂) c₂) :=
  advance_to h hhere hend fun t t' ht hkind _ _ _ hd _ => hy t t' ht hkind _ _ _ hd

/-- Taking two tokens, from given cursors. -/
theorem Tells.advanceTwice (h : J.Around c₀ c₁ c₂) (hhere : ¬J.Here c₀) (hend : c₀.atEnd = false)
    {kind : Token.Kind} (hnext : c₀.checkNext kind = true) (hkind : kind ∉ declarationKinds)
    (hmark : kind ≠ .endMark) {y₀ y₁ y₂ : Parse β} (hy : J.Keeps b Q y₀ y₁ y₂) :
    J.Tells b Q ((Grammar.advance >>= fun _ => Grammar.advance >>= fun _ => y₀) c₀)
      ((Grammar.advance >>= fun _ => Grammar.advance >>= fun _ => y₁) c₁)
      ((Grammar.advance >>= fun _ => Grammar.advance >>= fun _ => y₂) c₂) := by
  refine advance_to h hhere hend fun _ _ _ _ d₀ d₁ d₂ hd hrest => ?_
  have hpeek : d₀.peek.kind = kind := by
    unfold Cursor.checkNext at hnext
    rw [← hrest] at hnext
    rw [Cursor.peek]
    cases hhead : d₀.rest.head? with
    | none => simp [hhead] at hnext
    | some t => simpa [hhead] using hnext
  refine advance hd (fun hplace => ?_) ?_ fun _ _ _ _ => hy
  · rw [hplace.peek] at hpeek
    exact J.word_ne hkind hpeek
  · simpa [Cursor.atEnd, hpeek] using hmark

theorem Tells.weaken {r₀ r₁ r₂ : Except Failure (α × Cursor)} (h : J.Tells b P r₀ r₁ r₂)
    (hb : b → b') (hP : ∀ a₀ a₁ a₂, P a₀ a₁ a₂ → P' a₀ a₁ a₂) : J.Tells b' P' r₀ r₁ r₂ := by
  intro a₀ d₀ hr
  obtain ⟨h, hd⟩ | ⟨a₁, a₂, d₁, d₂, hr₁, hr₂, hd, ha⟩ := h a₀ d₀ hr
  · exact .inl ⟨hb h, hd⟩
  · exact .inr ⟨a₁, a₂, d₁, d₂, hr₁, hr₂, hd, hP _ _ _ ha⟩

namespace Stalls

theorem pure (a : α) : J.Stalls True (Pure.pure a) := by
  intro c hc a' d hr
  obtain ⟨-, rfl⟩ := Prod.mk.inj (Except.ok.inj hr)
  exact ⟨trivial, hc⟩

theorem bind (hx : J.Stalls b' x₀) (hy : ∀ a, J.Stalls b (y₀ a)) : J.Stalls b (x₀ >>= y₀) := by
  intro c hc a d hr
  obtain ⟨a₀, d₀, hx₀, hy₀⟩ := bind_eq_ok hr
  exact hy a₀ d₀ (hx c hc a₀ d₀ hx₀).2 a d hy₀

theorem map (hx : J.Stalls b x₀) (f : α → β) : J.Stalls b (do let a ← x₀; return f a) := by
  intro c hc a d hr
  obtain ⟨a₀, d₀, hx₀, hy₀⟩ := bind_eq_ok hr
  obtain ⟨-, rfl⟩ := Prod.mk.inj (Except.ok.inj hy₀)
  exact hx c hc a₀ d₀ hx₀

theorem freshId : J.Stalls True Grammar.freshId := by
  intro c hc a d hr
  obtain ⟨-, rfl⟩ := Prod.mk.inj (Except.ok.inj hr)
  exact ⟨trivial, hc⟩

theorem acceptAny {kinds : List Token.Kind} (hkinds : ∀ kind ∈ kinds, kind ∉ declarationKinds)
    {y : Option Token → Parse β} (hno : J.Stalls b (y none)) :
    J.Stalls b (Grammar.acceptAny kinds >>= y) := by
  intro c hc a d hr
  rw [acceptAny_bind, if_neg (hc.anyCheck hkinds)] at hr
  exact hno c hc a d hr

end Stalls

theorem Arrives.bind (hx : J.Arrives b' x₀) (hy : ∀ a, J.Stalls b (y₀ a)) :
    J.Arrives b (x₀ >>= y₀) := by
  intro c t hc ht a d hr
  obtain ⟨a₀, d₀, hx₀, hy₀⟩ := bind_eq_ok hr
  exact hy a₀ d₀ (hx c t hc ht a₀ d₀ hx₀).2 a d hy₀

namespace Keeps

theorem pure {a₀ a₁ a₂ : α} (h : P a₀ a₁ a₂) :
    J.Keeps b P (Pure.pure a₀) (Pure.pure a₁) (Pure.pure a₂) := by
  intro c₀ c₁ c₂ hc a d hr
  obtain ⟨rfl, rfl⟩ := Prod.mk.inj (Except.ok.inj hr)
  exact .inr ⟨a₁, a₂, c₁, c₂, rfl, rfl, hc, h⟩

theorem fails (h : ∀ c, ∃ e, x₀ c = .error e) : J.Keeps b P x₀ x₁ x₂ :=
  fun _ _ _ _ => .failed (h _)

theorem bind (hx : J.Keeps False P x₀ x₁ x₂)
    (hy : ∀ a₀ a₁ a₂, P a₀ a₁ a₂ → J.Keeps b Q (y₀ a₀) (y₁ a₁) (y₂ a₂)) :
    J.Keeps b Q (x₀ >>= y₀) (x₁ >>= y₁) (x₂ >>= y₂) := by
  intro c₀ c₁ c₂ hc a d hr
  obtain ⟨a₀, d₀, hx₀, hy₀⟩ := bind_eq_ok hr
  obtain ⟨h, -⟩ | ⟨a₁, a₂, d₁, d₂, hx₁, hx₂, hd, ha⟩ := hx _ _ _ hc a₀ d₀ hx₀
  · exact h.elim
  · rw [Reads.bind_ok hx₁, Reads.bind_ok hx₂]
    exact hy a₀ a₁ a₂ ha _ _ _ hd a d hy₀

theorem weaken (h : J.Keeps b P x₀ x₁ x₂) (hb : b → b')
    (hP : ∀ a₀ a₁ a₂, P a₀ a₁ a₂ → P' a₀ a₁ a₂) : J.Keeps b' P' x₀ x₁ x₂ :=
  fun _ _ _ hc => (h _ _ _ hc).weaken hb hP

/-- Line feeds in front of the place are taken alike, and none stand at it. -/
theorem skipNewlines : J.Keeps False (fun _ _ _ => True) Grammar.skipNewlines Grammar.skipNewlines
    Grammar.skipNewlines := by
  intro c₀ c₁ c₂ hc
  generalize hrest : c₀.rest = ts
  induction ts generalizing c₀ c₁ c₂ with
  | nil =>
    obtain ⟨hhere, -⟩ | ⟨-, t, t', ts₀, ts₁, ts₂, h₀, -⟩ := hc.cases
    · rw [Here, declared, hrest] at hhere
      cases hhere
    · rw [hrest] at h₀
      cases h₀
  | cons t ts ih =>
    obtain ⟨hhere, h₁, h₂, -⟩ | ⟨-, u, u', ts₀, ts₁, ts₂, h₀, h₁, h₂, hu, hnext⟩ := hc.cases
    · obtain ⟨t₁, t₂, ts₁, ts₂, hrow₁, hrow₂, ht₁, ht₂, -⟩ := J.heads
      rw [skipNewlines_cons hhere, if_neg (J.word_ne (by decide)),
        skipNewlines_cons (h₁.trans hrow₁), if_neg (starter_ne ht₁ (by decide)),
        skipNewlines_cons (h₂.trans hrow₂), if_neg (starter_ne ht₂ (by decide))]
      exact Keeps.pure (J := J) trivial _ _ _ hc
    · obtain ⟨rfl, rfl⟩ := List.cons.inj (hrest.symm.trans h₀)
      rw [skipNewlines_cons h₀, skipNewlines_cons h₁, skipNewlines_cons h₂, J.kind_eq hu]
      split
      · next hfeed => exact ih _ _ _ (hnext (by rw [hfeed]; decide) _ _ _) rfl
      · exact Keeps.pure (J := J) trivial _ _ _ hc

end Keeps

theorem Tells.skipNewlines {y₀ y₁ y₂ : Unit → Parse β} (hc : J.Around c₀ c₁ c₂)
    (hy : ∀ d₀ d₁ d₂, J.Around d₀ d₁ d₂ → J.Tells b Q (y₀ () d₀) (y₁ () d₁) (y₂ () d₂)) :
    J.Tells b Q ((Grammar.skipNewlines >>= y₀) c₀) ((Grammar.skipNewlines >>= y₁) c₁)
      ((Grammar.skipNewlines >>= y₂) c₂) := by
  intro a d hr
  obtain ⟨_, d₀, hskip₀, hr⟩ := bind_eq_ok hr
  obtain ⟨hfalse, -⟩ | ⟨_, _, d₁, d₂, hskip₁, hskip₂, hd, -⟩ :=
    Keeps.skipNewlines _ _ _ hc () d₀ hskip₀
  · exact hfalse.elim
  · rw [Reads.bind_ok hskip₁, Reads.bind_ok hskip₂]
    exact hy d₀ d₁ d₂ hd a d hr

namespace Adapts

theorem pure {a₀ a₁ a₂ : α} (h : K → P a₀ a₁ a₂) :
    J.Adapts K True P (Pure.pure a₀) (Pure.pure a₁) (Pure.pure a₂) where
  stalls := .pure a₀
  keeps hK := .pure (h hK)

theorem fails (h : ∀ c, ∃ e, x₀ c = .error e) : J.Adapts K b P x₀ x₁ x₂ where
  stalls c _ a d hr := by
    obtain ⟨e, he⟩ := h c
    rw [he] at hr
    cases hr
  keeps _ := .fails h

theorem weaken (h : J.Adapts K b P x₀ x₁ x₂) (hK : K' → K) (hb : b → b')
    (hP : ∀ a₀ a₁ a₂, P a₀ a₁ a₂ → P' a₀ a₁ a₂) : J.Adapts K' b' P' x₀ x₁ x₂ where
  stalls c hc a d hr := (h.stalls c hc a d hr).imp_left hb
  keeps hK' := (h.keeps (hK hK')).weaken hb hP

/-- What comes last may stop at the place where what comes first does. -/
theorem bind (hx : J.Adapts K b' P x₀ x₁ x₂)
    (hy : ∀ a₀ a₁ a₂, J.Adapts (K ∧ P a₀ a₁ a₂) b Q (y₀ a₀) (y₁ a₁) (y₂ a₂)) :
    J.Adapts K b Q (x₀ >>= y₀) (x₁ >>= y₁) (x₂ >>= y₂) where
  stalls := hx.stalls.bind fun a₀ => (hy a₀ a₀ a₀).stalls
  keeps hK c₀ c₁ c₂ hc a d hr := by
    obtain ⟨a₀, d₀, hx₀, hy₀⟩ := bind_eq_ok hr
    obtain ⟨-, hd⟩ | ⟨a₁, a₂, d₁, d₂, hx₁, hx₂, hd, ha⟩ := hx.keeps hK _ _ _ hc a₀ d₀ hx₀
    · exact .inl ((hy a₀ a₀ a₀).stalls d₀ hd a d hy₀)
    · rw [Reads.bind_ok hx₁, Reads.bind_ok hx₂]
      exact (hy a₀ a₁ a₂).keeps ⟨hK, ha⟩ _ _ _ hd a d hy₀

theorem map (hx : J.Adapts K b P x₀ x₁ x₂) {f₀ f₁ f₂ : α → β}
    (hf : K → ∀ a₀ a₁ a₂, P a₀ a₁ a₂ → Q (f₀ a₀) (f₁ a₁) (f₂ a₂)) :
    J.Adapts K b Q (do let a ← x₀; return f₀ a) (do let a ← x₁; return f₁ a)
      (do let a ← x₂; return f₂ a) where
  stalls := hx.stalls.map f₀
  keeps hK c₀ c₁ c₂ hc a d hr := by
    obtain ⟨a₀, d₀, hx₀, hy₀⟩ := bind_eq_ok hr
    obtain ⟨rfl, rfl⟩ := Prod.mk.inj (Except.ok.inj hy₀)
    obtain h | ⟨a₁, a₂, d₁, d₂, hx₁, hx₂, hd, ha⟩ := hx.keeps hK _ _ _ hc a₀ d₀ hx₀
    · exact .inl h
    · rw [Reads.bind_ok hx₁, Reads.bind_ok hx₂]
      exact .inr ⟨_, _, d₁, d₂, rfl, rfl, hd, hf hK _ _ _ ha⟩

/-- Behind what does not stop at the place before its end. -/
theorem after (hx : J.Adapts K False P x₀ x₁ x₂)
    (hy : K → ∀ a₀ a₁ a₂, P a₀ a₁ a₂ → J.Keeps b Q (y₀ a₀) (y₁ a₁) (y₂ a₂)) :
    J.Adapts K b Q (x₀ >>= y₀) (x₁ >>= y₁) (x₂ >>= y₂) where
  stalls c hc a d hr := by
    obtain ⟨a₀, d₀, hx₀, -⟩ := bind_eq_ok hr
    exact (hx.stalls c hc a₀ d₀ hx₀).1.elim
  keeps hK := (hx.keeps hK).bind (hy hK)

theorem skipNewlines : J.Adapts K True (fun _ _ _ => True) Grammar.skipNewlines
    Grammar.skipNewlines Grammar.skipNewlines where
  stalls c hc a d hr := by
    rw [skipNewlines_cons hc, if_neg (J.word_ne (by decide))] at hr
    obtain ⟨-, rfl⟩ := Prod.mk.inj (Except.ok.inj hr)
    exact ⟨trivial, hc⟩
  keeps _ := Keeps.skipNewlines.weaken False.elim fun _ _ _ => id

theorem freshId : J.Adapts K True (fun _ _ _ => True) Grammar.freshId Grammar.freshId
    Grammar.freshId where
  stalls := .freshId
  keeps _ c₀ c₁ c₂ hc a d hr := by
    obtain ⟨-, rfl⟩ := Prod.mk.inj (Except.ok.inj hr)
    exact .inr ⟨_, _, _, _, rfl, rfl,
      ⟨hc.rows.imp_left (And.imp_right (congrArg (· + 1)))⟩, trivial⟩

theorem failExpecting (what : Expectation) :
    J.Adapts K b P (Grammar.failExpecting what) x₁ x₂ := .fails fun _ => ⟨_, rfl⟩

/-- Looking at the cursor. -/
theorem get {y₀ y₁ y₂ : Cursor → Parse β}
    (hy : ∀ c₀ c₁ c₂, J.Adapts K b Q (y₀ c₀) (y₁ c₁) (y₂ c₂)) :
    J.Adapts K b Q (MonadState.get >>= y₀) (MonadState.get >>= y₁) (MonadState.get >>= y₂) where
  stalls c hc := (hy c c c).stalls c hc
  keeps hK c₀ c₁ c₂ hc := (hy c₀ c₁ c₂).keeps hK _ _ _ hc

/-- Looking at the token in view. -/
theorem peek {y₀ y₁ y₂ : Token → Parse β}
    (hy : ∀ t t', J.Adapts (K ∧ token t t') b Q (y₀ t) (y₁ t) (y₂ t')) :
    J.Adapts K b Q (Grammar.peek >>= y₀) (Grammar.peek >>= y₁) (Grammar.peek >>= y₂) where
  stalls c hc := (hy c.peek c.peek).stalls c hc
  keeps hK c₀ c₁ c₂ hc := by
    by_cases hhere : J.Here c₀
    · exact fun a d hr => .inl ((hy c₀.peek c₀.peek).stalls c₀ hhere a d hr)
    · obtain ⟨h₁, h₂⟩ := hc.peek hhere
      change J.Tells b Q (y₀ c₀.peek c₀) (y₁ c₁.peek c₁) (y₂ c₂.peek c₂)
      rw [h₁]
      exact (hy c₀.peek c₂.peek).keeps ⟨hK, h₂⟩ _ _ _ hc

/-- Going on by what is in view, which is said for the place by itself. -/
theorem view {y₀ y₁ y₂ : Cursor → Parse β}
    (hstalls : ∀ c, J.Here c → ∀ a d, y₀ c c = .ok (a, d) → b ∧ J.Here d)
    (hkeeps : K → ∀ c₀ c₁ c₂, J.Around c₀ c₁ c₂ → ¬J.Here c₀ →
      J.Tells b Q (y₀ c₀ c₀) (y₁ c₁ c₁) (y₂ c₂ c₂)) :
    J.Adapts K b Q (MonadState.get >>= y₀) (MonadState.get >>= y₁) (MonadState.get >>= y₂) where
  stalls := hstalls
  keeps hK c₀ c₁ c₂ hc := by
    by_cases hhere : J.Here c₀
    · exact fun a d hr => .inl (hstalls c₀ hhere a d hr)
    · exact hkeeps hK c₀ c₁ c₂ hc hhere

/-- Deciding by what is in view. -/
theorem look {f : Cursor → Bool} (hf : ∀ {c₀ c₁ c₂}, J.Around c₀ c₁ c₂ → ¬J.Here c₀ →
    f c₁ = f c₀ ∧ f c₂ = f c₀) {z₀ z₁ z₂ w₀ w₁ w₂ : Parse β} (hz : J.Adapts K b Q z₀ z₁ z₂)
    (hw : J.Adapts K b Q w₀ w₁ w₂) :
    J.Adapts K b Q (do if f (← MonadState.get) then z₀ else w₀)
      (do if f (← MonadState.get) then z₁ else w₁)
      (do if f (← MonadState.get) then z₂ else w₂) := by
  refine view (fun c hc a d hr => ?_) fun hK c₀ c₁ c₂ hc hhere => ?_
  · split at hr
    · exact hz.stalls c hc a d hr
    · exact hw.stalls c hc a d hr
  · rw [(hf hc hhere).1, (hf hc hhere).2]
    split
    · exact hz.keeps hK _ _ _ hc
    · exact hw.keeps hK _ _ _ hc

theorem ifCheck (kind : Token.Kind) {z₀ z₁ z₂ w₀ w₁ w₂ : Parse β} (hz : J.Adapts K b Q z₀ z₁ z₂)
    (hw : J.Adapts K b Q w₀ w₁ w₂) :
    J.Adapts K b Q (do if (← MonadState.get).check kind then z₀ else w₀)
      (do if (← MonadState.get).check kind then z₁ else w₁)
      (do if (← MonadState.get).check kind then z₂ else w₂) :=
  look (fun hc hhere => hc.check hhere kind) hz hw

/-- A row that ends at a bracket or at the end mark. -/
theorem row (kind : Token.Kind) {z₀ z₁ z₂ w₀ w₁ w₂ : Parse β} (hz : J.Adapts K b Q z₀ z₁ z₂)
    (hw : J.Adapts K b Q w₀ w₁ w₂) :
    J.Adapts K b Q
      (do let c ← MonadState.get; if c.check kind || c.atEnd then z₀ else w₀)
      (do let c ← MonadState.get; if c.check kind || c.atEnd then z₁ else w₁)
      (do let c ← MonadState.get; if c.check kind || c.atEnd then z₂ else w₂) :=
  look (fun hc hhere => by
    rw [(hc.check hhere kind).1, (hc.check hhere kind).2, (hc.atEnd hhere).1, (hc.atEnd hhere).2]
    exact ⟨rfl, rfl⟩) hz hw

/-- Deciding by whether the statement has come to its end. -/
theorem ifPeek {z₀ z₁ z₂ w₀ w₁ w₂ : Parse β} (hz : J.Adapts K b Q z₀ z₁ z₂)
    (hw : J.Adapts K b Q w₀ w₁ w₂) :
    J.Adapts K b Q (do if (← Grammar.peek).kind.isTerminator then z₀ else w₀)
      (do if (← Grammar.peek).kind.isTerminator then z₁ else w₁)
      (do if (← Grammar.peek).kind.isTerminator then z₂ else w₂) :=
  look (f := fun c => c.peek.kind.isTerminator) (fun hc hhere => by
    rw [(hc.peek hhere).1, J.kind_eq (hc.peek hhere).2]
    exact ⟨rfl, rfl⟩) hz hw

/-- Taking a token of some kinds, or going on without. -/
theorem acceptAny {kinds : List Token.Kind} (hkinds : ∀ kind ∈ kinds, kind ∉ declarationKinds)
    {y₀ y₁ y₂ : Option Token → Parse β}
    (hyes : K → ∀ t t', token t t' → t.kind ∈ kinds →
      J.Keeps b Q (y₀ (some t)) (y₁ (some t)) (y₂ (some t')))
    (hno : J.Adapts K b Q (y₀ none) (y₁ none) (y₂ none)) :
    J.Adapts K b Q (Grammar.acceptAny kinds >>= y₀) (Grammar.acceptAny kinds >>= y₁)
      (Grammar.acceptAny kinds >>= y₂) where
  stalls := .acceptAny hkinds hno.stalls
  keeps hK c₀ c₁ c₂ hc := by
    simp only [acceptAny_bind]
    by_cases hhere : J.Here c₀
    · rw [if_neg (hhere.anyCheck hkinds)]
      exact fun a d hr => .inl (hno.stalls c₀ hhere a d hr)
    · rw [(hc.anyCheck hhere kinds).1, (hc.anyCheck hhere kinds).2]
      split
      · next hcheck =>
        refine .advance hc hhere (Reads.atEnd_of_anyCheck hcheck) fun t t' ht hkind =>
          hyes hK t t' ht ?_
        obtain ⟨kind, hmem, hcheck⟩ := List.any_eq_true.1 hcheck
        rwa [hkind, Cursor.kind_of_check hcheck]
      · exact hno.keeps hK _ _ _ hc

theorem accept {kind : Token.Kind} (hkind : kind ∉ declarationKinds) {y₀ y₁ y₂ : Bool → Parse β}
    (hyes : K → J.Keeps b Q (y₀ true) (y₁ true) (y₂ true))
    (hno : J.Adapts K b Q (y₀ false) (y₁ false) (y₂ false)) :
    J.Adapts K b Q (Grammar.accept kind >>= y₀) (Grammar.accept kind >>= y₁)
      (Grammar.accept kind >>= y₂) := by
  rw [accept_eq_acceptAny, accept_eq_acceptAny, accept_eq_acceptAny]
  exact acceptAny (by simpa using hkind) (fun hK _ _ _ _ => hyes hK) hno

/-- Taking a token of the kind. -/
theorem expect {kind : Token.Kind} (hkind : kind ∉ declarationKinds) (what : Expectation)
    {y₀ y₁ y₂ : Token → Parse β}
    (hy : K → ∀ t t', token t t' → t.kind = kind → J.Keeps b Q (y₀ t) (y₁ t) (y₂ t')) :
    J.Adapts K b Q (Grammar.expect kind what >>= y₀) (Grammar.expect kind what >>= y₁)
      (Grammar.expect kind what >>= y₂) where
  stalls c hc a d hr := by
    rw [expect_bind, if_neg (by simp [hc.check hkind])] at hr
    cases hr
  keeps hK c₀ c₁ c₂ hc := by
    simp only [expect_bind]
    by_cases hhere : J.Here c₀
    · rw [if_neg (by simp [hhere.check hkind])]
      exact .failed ⟨_, rfl⟩
    · rw [(hc.check hhere kind).1, (hc.check hhere kind).2]
      split
      · next hcheck =>
        refine .advance hc hhere (Reads.atEnd_of_check hcheck) fun t t' ht htkind =>
          hy hK t t' ht ?_
        rw [htkind, Cursor.kind_of_check hcheck]
      · exact .failed ⟨_, rfl⟩

/-- The end of a statement is not at the place. -/
theorem statementEnd : J.Adapts K False (fun _ _ _ => True) Grammar.statementEnd
    Grammar.statementEnd Grammar.statementEnd := by
  refine .acceptAny (by decide) (fun _ _ _ _ _ => .pure trivial)
    (view (fun c hc a d hr => ?_) fun hK c₀ c₁ c₂ hc hhere => ?_)
  · rw [hc.atEnd, hc.check (by decide)] at hr
    cases hr
  · rw [(hc.check hhere _).1, (hc.check hhere _).2, (hc.atEnd hhere).1, (hc.atEnd hhere).2]
    split
    · exact Keeps.pure (J := J) trivial _ _ _ hc
    · exact .failed ⟨_, rfl⟩

end Adapts

end

end Replacement

end Grammar

end ScopedScript
