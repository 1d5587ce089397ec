import ScopedScript.Proofs.Parsing.Trees

/-! # Reading side by side

Two rows of tokens are read by the same productions.  The second row corresponds to the first token
by token, except perhaps at the end: where the first row has its end mark, the second may have a
*joint*, a line feed or a semicolon, with more tokens after it.  A `Reading` fixes what corresponds,
what comes later in the second row, and whether errors are to be compared too.

* While both cursors are *in step* (`Reading.Step`), the first one has in view what the second
  has, or its end mark where the second has the joint.
* At the end of a statement the second cursor may take the joint, which leaves it *over* the
  end of the first row (`Reading.Over`).  A line feed may also be taken between statements; a
  semicolon may not, and a first row that ends with no separator of its own shows which of the two
  happened.
* `Reads` relates the results of two productions.  Nothing is said if the first one fails, unless
  errors are compared, and nothing if it *escapes*: a production that comes to the end mark where
  it should not may yield something that only its user rejects. -/

namespace ScopedScript.Grammar

/-- The kinds of tokens that end a statement and are taken with it. -/
def joints : List Token.Kind := [.newline, .semicolon]

/-- The kinds of the operators that compound assignments stand for. -/
def arithmetic : List Token.Kind := [.plus, .minus, .times, .divide]

/-- The token before the last one is no separator. -/
def Tidy (ts : List Token) : Prop :=
  ∀ pre t u, ts = pre ++ [t, u] → t.kind ∉ joints

theorem Tidy.tail {t : Token} {ts : List Token} (h : Tidy (t :: ts)) : Tidy ts := by
  rintro pre u v rfl
  exact h (t :: pre) u v rfl

/-- Tokens in view that correspond: end marks have a relation of their own. -/
def Viewed (token mark : Token → Token → Prop) (t t' : Token) : Prop :=
  token t t' ∨ t.kind = .endMark ∧ t'.kind = .endMark ∧ mark t t'

/-- The token is not read as part of what comes before it: it is no `else`, or no `if` comes before
it. -/
def Apart (token : Token → Token → Prop) (t : Token) : Prop :=
  t.kind = .kwElse → ∀ u u', token u u' → u.kind ≠ .kwIf

theorem apart_of_ne {token : Token → Token → Prop} {t : Token} (h : t.kind ≠ .kwElse) :
    Apart token t := fun helse => absurd helse h

/-- How two rows of tokens correspond. -/
structure Reading where
  token : Token → Token → Prop
  /-- What end marks correspond.  They come up in errors, but in no tree. -/
  mark : Token → Token → Prop
  /-- How far the numbers of the second reading are ahead. -/
  shift : Nat
  /-- Are errors compared? -/
  exact : Prop
  /-- Do the tokens last taken correspond even before any has been taken? -/
  taken : Prop
  /-- The token that the second row has in the place of the first row's end mark. -/
  joint : Token
  /-- What the second row has after its joint. -/
  later : Option (List Token)
  joins : joint.kind ∈ joints
  same : ∀ {t t' : Token}, token t t' →
    t'.kind = t.kind ∧ t'.lexeme = t.lexeme ∧ t'.literal = t.literal
  derived : ∀ {t t' : Token} {kind : Token.Kind} (lexeme : String), kind ∈ arithmetic →
    token t t' → token (.derived kind lexeme t) (.derived kind lexeme t')
  whole : exact → later = none
  goesOn : ∀ {more : List Token}, later = some more →
    ∃ t rest, more.dropWhile (·.kind == .newline) = t :: rest ∧ Apart token t

namespace Reading

variable (G : Reading)

/-- Tokens in view that correspond. -/
def View (t t' : Token) : Prop := Viewed G.token G.mark t t'

/-- Rows that correspond. -/
inductive Rows : List Token → List Token → Prop
  | nil : G.later = none → Rows [] []
  | mark {mark : Token} {more : List Token} : G.later = some more → mark.kind = .endMark →
      Rows [mark] (G.joint :: more)
  | cons {t t' : Token} {ts ts' : List Token} : G.View t t' →
      (G.later ≠ none → t.kind ≠ .endMark) → Rows ts ts' → Rows (t :: ts) (t' :: ts')

/-- Cursors in step. -/
structure Step (c c' : Cursor) : Prop where
  rows : G.Rows c.rest c'.rest
  last : c.rest = [] ∨ G.taken → G.token c.last c'.last
  tidy : G.joint.kind = .semicolon → Tidy (c.last :: c.rest)
  nextId : c'.nextId = c.nextId + G.shift

/-- The first cursor is at its end mark, and the second row goes on. -/
def Lost (c : Cursor) : Prop :=
  (∃ more, G.later = some more) ∧ ∃ mark, c.rest = [mark] ∧ mark.kind = .endMark

/-- The first cursor is at its end mark, and the second one is past the joint, in what comes
later. -/
structure Over (c c' : Cursor) : Prop where
  lost : G.Lost c
  last : c'.last.kind ∈ joints
  rest : ∃ feeds : List Token, (∀ t ∈ feeds, t.kind = .newline) ∧
    G.later = some (feeds ++ c'.rest)
  nextId : c'.nextId = c.nextId + G.shift

/-- The second cursor has taken all line feeds as well. -/
structure Past (c c' : Cursor) : Prop extends G.Over c c' where
  first : ∃ t rest, c'.rest = t :: rest ∧ t.kind ≠ .newline

/-- Failures that correspond. -/
inductive Failures : Failure → Failure → Prop
  | rejected (fault : Fault) {t t' : Token} : G.View t t' →
      Failures (.rejected ⟨fault, t⟩) (.rejected ⟨fault, t'⟩)
  | outOfRange : Failures .outOfRange .outOfRange
  | outOfFuel : Failures .outOfFuel .outOfFuel

/-- Bounds on the depth of two readings: the second may be larger, unless errors are compared. -/
def Bounds (n n' : Nat) : Prop := n ≤ n' ∧ (G.exact → n' = n)

variable {G}

theorem kind_eq {t t' : Token} (h : G.token t t') : t'.kind = t.kind := (G.same h).1

theorem View.kind_eq {t t' : Token} (h : G.View t t') : t'.kind = t.kind := by
  rcases h with h | ⟨h, h', _⟩
  · exact (G.same h).1
  · rw [h, h']

theorem View.token {t t' : Token} (h : G.View t t') (ht : t.kind ≠ .endMark) : G.token t t' :=
  h.resolve_right fun hmark => ht hmark.1

theorem lexeme_eq {t t' : Token} (h : G.token t t') : t'.lexeme = t.lexeme := (G.same h).2.1

theorem literal_eq {t t' : Token} (h : G.token t t') : t'.literal = t.literal := (G.same h).2.2

theorem Lost.not_exact {c : Cursor} (h : G.Lost c) : ¬G.exact := by
  intro hexact
  obtain ⟨more, hmore⟩ := h.1
  rw [G.whole hexact] at hmore
  cases hmore

theorem Lost.atEnd {c : Cursor} (h : G.Lost c) : c.atEnd = true := by
  obtain ⟨_, mark, hrest, hmark⟩ := h
  simp [Cursor.atEnd, Cursor.peek, hrest, hmark]

theorem Lost.peek_kind {c : Cursor} (h : G.Lost c) : c.peek.kind = .endMark := by
  obtain ⟨_, mark, hrest, hmark⟩ := h
  simp [Cursor.peek, hrest, hmark]

theorem Bounds.succ {n n' : Nat} (h : G.Bounds (n + 1) n') : ∃ k, n' = k + 1 ∧ G.Bounds n k := by
  obtain ⟨hle, hexact⟩ := h
  cases n' with
  | zero => omega
  | succ k => exact ⟨k, rfl, by omega, fun h => by have := hexact h; omega⟩

end Reading

/-! ### Results -/

/-- The results of two productions.  `esc` are the escapes of the first one, `S` relates the
cursors afterwards, and `post` the results, with the next number of the first reading. -/
inductive Reads (G : Reading) {α β : Type} (esc : Cursor → α → Prop)
    (S : Cursor → Cursor → Prop) (post : Nat → α → β → Prop) :
    Except Failure (α × Cursor) → Except Failure (β × Cursor) → Prop
  | failed {e : Failure} {r' : Except Failure (β × Cursor)} :
      (G.exact → ∃ e', r' = .error e' ∧ G.Failures e e') → Reads G esc S post (.error e) r'
  | escaped {a : α} {c : Cursor} {r' : Except Failure (β × Cursor)} : esc c a →
      Reads G esc S post (.ok (a, c)) r'
  | read {a : α} {b : β} {c c' : Cursor} : S c c' → post c.nextId a b →
      Reads G esc S post (.ok (a, c)) (.ok (b, c'))

/-- No escape. -/
def never {α : Type} : Cursor → α → Prop := fun _ _ => False

namespace Reads

variable {G : Reading} {α β γ δ : Type} {c c' : Cursor}
variable {E : Cursor → α → Prop} {S : Cursor → Cursor → Prop} {P : Nat → α → β → Prop}

theorem bindEscaping {x : Parse α} {x' : Parse β} {k : α → Parse γ} {k' : β → Parse δ}
    {F : Cursor → γ → Prop} {T : Cursor → Cursor → Prop} {Q : Nat → γ → δ → Prop}
    (h : Reads G E S P (x c) (x' c'))
    (hesc : ∀ a c₁, E c₁ a → ∀ r', Reads G F T Q (k a c₁) r')
    (hk : ∀ a b c₁ c₁', S c₁ c₁' → P c₁.nextId a b → Reads G F T Q (k a c₁) (k' b c₁')) :
    Reads G F T Q ((x >>= k) c) ((x' >>= k') c') := by
  change Reads G F T Q (x c >>= fun p => k p.1 p.2) (x' c' >>= fun p => k' p.1 p.2)
  generalize x c = r, x' c' = r' at h
  cases h with
  | @failed e r' he =>
    refine .failed fun hexact => ?_
    obtain ⟨e', rfl, hee⟩ := he hexact
    exact ⟨e', rfl, hee⟩
  | @escaped a c₁ r' ha => exact hesc a c₁ ha _
  | @read a b c₁ c₁' hS hP => exact hk a b c₁ c₁' hS hP

theorem bind {x : Parse α} {x' : Parse β} {k : α → Parse γ} {k' : β → Parse δ}
    {F : Cursor → γ → Prop} {T : Cursor → Cursor → Prop} {Q : Nat → γ → δ → Prop}
    (h : Reads G never S P (x c) (x' c'))
    (hk : ∀ a b c₁ c₁', S c₁ c₁' → P c₁.nextId a b → Reads G F T Q (k a c₁) (k' b c₁')) :
    Reads G F T Q ((x >>= k) c) ((x' >>= k') c') :=
  h.bindEscaping (fun _ _ h => h.elim) hk

/-- Where the first step fails, nothing comes after it. -/
theorem bindFailed {x : Parse α} {x' : Parse β} {k : α → Parse γ} {k' : β → Parse δ}
    {F : Cursor → γ → Prop} {T : Cursor → Cursor → Prop} {Q : Nat → γ → δ → Prop}
    (hx : ∃ e, x c = .error e) (h : Reads G E S P (x c) (x' c')) :
    Reads G F T Q ((x >>= k) c) ((x' >>= k') c') := by
  obtain ⟨e, hx⟩ := hx
  rw [hx] at h
  change Reads G F T Q (x c >>= fun p => k p.1 p.2) (x' c' >>= fun p => k' p.1 p.2)
  rw [hx]
  generalize x' c' = r' at h
  cases h with
  | failed he =>
    refine .failed fun hexact => ?_
    obtain ⟨e', rfl, hee⟩ := he hexact
    exact ⟨e', rfl, hee⟩

/-- Looking at the cursor. -/
theorem get {k : Cursor → Parse α} {k' : Cursor → Parse β}
    (h : Reads G E S P (k c c) (k' c' c')) :
    Reads G E S P ((MonadState.get >>= k : Parse α) c) ((MonadState.get >>= k' : Parse β) c') := h

theorem pure {a : α} {b : β} (hS : S c c') (hP : P c.nextId a b) :
    Reads G E S P ((Pure.pure a : Parse α) c) ((Pure.pure b : Parse β) c') :=
  .read hS hP

theorem weaken {F : Cursor → α → Prop} {T : Cursor → Cursor → Prop} {Q : Nat → α → β → Prop}
    {r : Except Failure (α × Cursor)} {r' : Except Failure (β × Cursor)}
    (h : Reads G E S P r r') (hE : ∀ c a, E c a → F c a) (hS : ∀ c c', S c c' → T c c')
    (hP : ∀ j a b, P j a b → Q j a b) : Reads G F T Q r r' := by
  cases h with
  | failed he => exact .failed he
  | escaped ha => exact .escaped (hE _ _ ha)
  | read h hp => exact .read (hS _ _ h) (hP _ _ _ hp)

theorem outOfFuel {n : Nat} (h : G.Bounds 0 n) {x : Nat → Parse β} (hx : x 0 = throw .outOfFuel) :
    Reads G E S P ((throw .outOfFuel : Parse α) c) (x n c') := by
  refine .failed fun hexact => ?_
  rw [h.2 hexact, hx]
  exact ⟨_, rfl, .outOfFuel⟩

/-- A production that fails at the end mark. -/
theorem lost {x : Parse α} (h : G.Lost c) (hx : ∃ e, x c = .error e)
    {r' : Except Failure (β × Cursor)} : Reads G E S P (x c) r' := by
  obtain ⟨e, he⟩ := hx
  rw [he]
  exact .failed fun hexact => absurd hexact h.not_exact

end Reads

/-! ### After the first token

Once a token has been taken, the tokens last taken correspond, whether or not they did before. -/

namespace Reading

/-- The same reading, further on. -/
def further (G : Reading) : Reading := { G with taken := True }

variable {G : Reading} {c c' : Cursor}

theorem Rows.further {ts ts' : List Token} (h : G.Rows ts ts') : G.further.Rows ts ts' := by
  induction h with
  | nil h => exact .nil h
  | mark hmore hmark => exact .mark hmore hmark
  | cons ht hend _ ih => exact .cons ht hend ih

theorem Rows.ofFurther {ts ts' : List Token} (h : G.further.Rows ts ts') : G.Rows ts ts' := by
  induction h with
  | nil h => exact .nil h
  | mark hmore hmark => exact .mark hmore hmark
  | cons ht hend _ ih => exact .cons ht hend ih

theorem Step.further (h : G.Step c c') (hlast : G.token c.last c'.last) : G.further.Step c c' :=
  ⟨h.rows.further, fun _ => hlast, h.tidy, h.nextId⟩

theorem Step.ofFurther (h : G.further.Step c c') : G.Step c c' :=
  ⟨h.rows.ofFurther, fun _ => h.last (.inr trivial), h.tidy, h.nextId⟩

theorem Failures.ofFurther {e e' : Failure} (h : G.further.Failures e e') : G.Failures e e' := by
  cases h with
  | rejected fault ht => exact .rejected fault ht
  | outOfRange => exact .outOfRange
  | outOfFuel => exact .outOfFuel

end Reading

theorem Reads.ofFurther {G : Reading} {α β : Type} {P : Nat → α → β → Prop}
    {r : Except Failure (α × Cursor)} {r' : Except Failure (β × Cursor)}
    (h : Reads G.further never G.further.Step P r r') : Reads G never G.Step P r r' := by
  cases h with
  | failed he =>
    refine .failed fun hexact => ?_
    obtain ⟨e', rfl, hee⟩ := he hexact
    exact ⟨e', rfl, hee.ofFurther⟩
  | escaped h => exact h.elim
  | read hS hP => exact .read hS.ofFurther hP

/-! ### What is in view -/

namespace Reading

variable {G : Reading} {c c' : Cursor}

/-- The tokens in view correspond, or the first cursor is at its end mark and the second one at
the joint. -/
theorem Step.peek (h : G.Step c c') :
    G.View c.peek c'.peek ∨ G.Lost c ∧ ∃ more, c'.rest = G.joint :: more ∧
      G.later = some more := by
  obtain ⟨last, rest, nextId⟩ := c
  obtain ⟨last', rest', nextId'⟩ := c'
  obtain ⟨hrows, hlast, _⟩ := h
  cases hrows with
  | nil _ => exact .inl (.inl (hlast (.inl rfl)))
  | mark hmore hmark => exact .inr ⟨⟨⟨_, hmore⟩, _, rfl, hmark⟩, _, rfl, hmore⟩
  | cons ht _ _ => exact .inl ht

theorem joint_cases (G : Reading) : G.joint.kind = .newline ∨ G.joint.kind = .semicolon := by
  simpa [joints] using G.joins

theorem ne_joint (G : Reading) {kind : Token.Kind} (hk : kind ∉ joints) : kind ≠ G.joint.kind :=
  fun h => hk (h ▸ G.joins)

/-- Away from the end of the first row both cursors have the same kind of token in view. -/
theorem Step.sameView (h : G.Step c c') :
    c'.atEnd = c.atEnd ∧ (∀ kind, c'.check kind = c.check kind) ∨ G.Lost c := by
  rcases h.peek with ht | ⟨hlost, _⟩
  · exact .inl (by simp [Cursor.check, Cursor.atEnd, ht.kind_eq])
  · exact .inr hlost

theorem Step.check (h : G.Step c c') {kind : Token.Kind} (hk : kind ∉ joints) :
    c'.check kind = c.check kind := by
  rcases h.peek with ht | ⟨hlost, more, hrest, _⟩
  · simp [Cursor.check, Cursor.atEnd, ht.kind_eq]
  · have hpeek : c'.peek.kind = G.joint.kind := by simp [Cursor.peek, hrest]
    simp [Cursor.check, hlost.atEnd, hpeek, (G.ne_joint hk).symm]

/-- Both cursors are where a statement ends, or neither is. -/
theorem Step.isTerminator (h : G.Step c c') :
    c'.peek.kind.isTerminator = c.peek.kind.isTerminator := by
  rcases h.peek with ht | ⟨hlost, more, hrest, _⟩
  · rw [ht.kind_eq]
  · have hpeek : c'.peek.kind = G.joint.kind := by simp [Cursor.peek, hrest]
    have hjoint : ∀ kind ∈ joints, kind.isTerminator = true := by decide
    rw [hlost.peek_kind, hpeek, hjoint _ G.joins]
    rfl

theorem Step.anyCheck (h : G.Step c c') {kinds : List Token.Kind}
    (hk : ∀ kind ∈ kinds, kind ∉ joints) : kinds.any c'.check = kinds.any c.check := by
  induction kinds with
  | nil => rfl
  | cons kind kinds ih =>
    rw [List.any_cons, List.any_cons, h.check (hk kind List.mem_cons_self),
      ih fun k hmem => hk k (List.mem_cons_of_mem kind hmem)]

theorem Lost.check (h : G.Lost c) (kind : Token.Kind) : c.check kind = false := by
  simp [Cursor.check, h.atEnd]

theorem Lost.anyCheck (h : G.Lost c) (kinds : List Token.Kind) :
    kinds.any c.check = false := by
  simp [h.check]

/-- Away from the end of the first row both cursors have a token to take, or neither has. -/
theorem Step.view (h : G.Step c c') (hend : c.atEnd = false) :
    G.token c.peek c'.peek ∧ c'.atEnd = false ∧
      (c.rest = [] ∧ c'.rest = [] ∨ ∃ t t' rest rest', c.rest = t :: rest ∧ c'.rest = t' :: rest' ∧
        G.token t t' ∧ G.Rows rest rest') := by
  rcases h.peek with ht | ⟨hlost, _⟩
  · have hkind : c.peek.kind ≠ .endMark := by simpa [Cursor.atEnd] using hend
    refine ⟨ht.token hkind, ?_, ?_⟩
    · simpa [Cursor.atEnd, ht.kind_eq] using hend
    · obtain ⟨last, rest, nextId⟩ := c
      obtain ⟨last', rest', nextId'⟩ := c'
      obtain ⟨hrows, _, _⟩ := h
      cases hrows with
      | nil _ => exact .inl ⟨rfl, rfl⟩
      | mark _ hmark => simp [Cursor.atEnd, Cursor.peek, hmark] at hend
      | cons ht _ hrows => exact .inr ⟨_, _, _, _, rfl, rfl, ht.token hkind, hrows⟩
  · rw [hlost.atEnd] at hend
    cases hend

end Reading

/-! ### Small steps -/

namespace Reads

open Reading

variable {G : Reading} {α β : Type} {c c' : Cursor}
variable {E : Cursor → α → Prop} {S : Cursor → Cursor → Prop} {P : Nat → α → β → Prop}

theorem failAt {t t' : Token} (h : G.exact → G.View t t') (fault : Fault) :
    Reads G E S P ((Grammar.failAt t fault : Parse α) c) ((Grammar.failAt t' fault : Parse β) c') :=
  .failed fun hexact => ⟨_, rfl, .rejected fault (h hexact)⟩

theorem failExpecting (h : G.Step c c') (what : Expectation) :
    Reads G E S P ((Grammar.failExpecting what : Parse α) c)
      ((Grammar.failExpecting what : Parse β) c') := by
  change Reads G E S P ((Grammar.failAt c.peek (.expected what) : Parse α) c)
    ((Grammar.failAt c'.peek (.expected what) : Parse β) c')
  refine failAt (fun hexact => ?_) _
  rcases h.peek with ht | ⟨hlost, _⟩
  · exact ht
  · exact absurd hexact hlost.not_exact

theorem advance_cons {last t : Token} {rest : List Token} {nextId : NodeId}
    (h : t.kind ≠ .endMark) :
    Grammar.advance ⟨last, t :: rest, nextId⟩ = .ok (t, ⟨t, rest, nextId⟩) := by
  change (if t.kind = .endMark then _ else _ : Parse Token) _ = _
  rw [if_neg h]
  rfl

/-- Taking a token that is not the end mark: it is gone afterwards, and the one last taken. -/
theorem advanceTo (h : G.Step c c') (hend : c.atEnd = false) :
    Reads G never
      (fun c₁ c₁' => G.Step c₁ c₁' ∧ c₁.rest = c.rest.tail ∧ G.token c₁.last c₁'.last)
      (fun j t t' => j = c.nextId ∧ G.token t t' ∧ t.kind = c.peek.kind) (Grammar.advance c)
      (Grammar.advance c') := by
  obtain ⟨_, hend', hrest | ⟨t, t', rest, rest', hr, hr', ht, hrows⟩⟩ := h.view hend
  · obtain ⟨last, _, nextId⟩ := c
    obtain ⟨last', _, nextId'⟩ := c'
    obtain ⟨rfl, rfl⟩ := hrest
    exact .failed fun _ => ⟨_, rfl, .outOfRange⟩
  · obtain ⟨last, _, nextId⟩ := c
    obtain ⟨last', _, nextId'⟩ := c'
    obtain rfl := hr
    obtain rfl := hr'
    have hkind : t.kind ≠ .endMark := by simpa [Cursor.atEnd, Cursor.peek] using hend
    have hkind' : t'.kind ≠ .endMark := by rwa [kind_eq ht]
    rw [advance_cons hkind, advance_cons hkind']
    exact .read ⟨⟨hrows, fun _ => ht, fun hj => (h.tidy hj).tail, h.nextId⟩, rfl, ht⟩
      ⟨rfl, ht, rfl⟩

theorem advance (h : G.Step c c') (hend : c.atEnd = false) :
    Reads G never G.Step (fun j t t' => j = c.nextId ∧ G.token t t') (Grammar.advance c)
      (Grammar.advance c') :=
  (advanceTo h hend).weaken (fun _ _ h => h) (fun _ _ h => h.1) fun _ _ _ h => ⟨h.1, h.2.1⟩

/-- Taking a token of which the kind is known. -/
theorem advanceKind (h : G.Step c c') (hend : c.atEnd = false) :
    Reads G never G.Step (fun j t t' => j = c.nextId ∧ G.token t t' ∧ t.kind = c.peek.kind)
      (Grammar.advance c) (Grammar.advance c') :=
  (advanceTo h hend).weaken (fun _ _ h => h) (fun _ _ h => h.1) fun _ _ _ h => h

/-- Taking two tokens, of which the second is known. -/
theorem advanceTwice (h : G.Step c c') (hend : c.atEnd = false) {kind : Token.Kind}
    (hnext : c.checkNext kind = true) (hk : kind ≠ .endMark) {k : Parse α} {k' : Parse β}
    (hrest : ∀ c₁ c₁', G.Step c₁ c₁' → c₁.nextId = c.nextId → Reads G E S P (k c₁) (k' c₁')) :
    Reads G E S P ((do let _ ← Grammar.advance; let _ ← Grammar.advance; k) c)
      ((do let _ ← Grammar.advance; let _ ← Grammar.advance; k') c') := by
  refine (advanceTo h hend).bind ?_
  rintro t t' c₁ c₁' ⟨h₁, hr, _⟩ ⟨hj, _⟩
  have hend₁ : c₁.atEnd = false := by
    unfold Cursor.checkNext at hnext
    rw [← hr] at hnext
    unfold Cursor.atEnd Cursor.peek
    cases hc : c₁.rest.head? with
    | none => rw [hc] at hnext; cases hnext
    | some u =>
      rw [hc] at hnext
      simpa [beq_iff_eq.1 hnext] using hk
  refine (advance h₁ hend₁).bind ?_
  rintro u u' c₂ c₂' h₂ ⟨hj₂, _⟩
  exact hrest c₂ c₂' h₂ (hj₂.trans hj)

theorem atEnd_of_check {kind : Token.Kind} (h : c.check kind = true) : c.atEnd = false := by
  simp only [Cursor.check, Bool.and_eq_true, Bool.not_eq_true'] at h
  exact h.1

theorem atEnd_of_anyCheck {kinds : List Token.Kind} (h : kinds.any c.check = true) :
    c.atEnd = false := by
  obtain ⟨kind, _, hk⟩ := List.any_eq_true.1 h
  exact atEnd_of_check hk

/-- The optional token is there in both rows or in neither. -/
theorem acceptAny_same (h : G.Step c c') {kinds : List Token.Kind}
    (hany : kinds.any c'.check = kinds.any c.check) :
    Reads G never G.Step (fun j a b => j = c.nextId ∧ Option.Rel G.token a b)
      (Grammar.acceptAny kinds c) (Grammar.acceptAny kinds c') := by
  change Reads G never G.Step _ ((if kinds.any c.check then _ else _ : Parse (Option Token)) c)
    ((if kinds.any c'.check then _ else _ : Parse (Option Token)) c')
  rw [hany]
  split
  · next hc =>
    refine (advance h (atEnd_of_anyCheck hc)).bind ?_
    rintro t t' c₁ c₁' h₁ ⟨hj, ht⟩
    exact .pure h₁ ⟨hj, .some ht⟩
  · exact .pure h ⟨rfl, .none⟩

theorem acceptAny (h : G.Step c c') {kinds : List Token.Kind}
    (hk : ∀ kind ∈ kinds, kind ∉ joints) :
    Reads G never G.Step (fun j a b => j = c.nextId ∧ Option.Rel G.token a b)
      (Grammar.acceptAny kinds c) (Grammar.acceptAny kinds c') :=
  acceptAny_same h (h.anyCheck hk)

theorem accept_same (h : G.Step c c') {kind : Token.Kind} (hcheck : c'.check kind = c.check kind) :
    Reads G never G.Step (fun j a b => j = c.nextId ∧ b = a) (Grammar.accept kind c)
      (Grammar.accept kind c') := by
  change Reads G never G.Step _ ((if c.check kind then _ else _ : Parse Bool) c)
    ((if c'.check kind then _ else _ : Parse Bool) c')
  rw [hcheck]
  split
  · next hc =>
    refine (advance h (atEnd_of_check hc)).bind ?_
    rintro t t' c₁ c₁' h₁ ⟨hj, _⟩
    exact .pure h₁ ⟨hj, rfl⟩
  · exact .pure h ⟨rfl, rfl⟩

/-- Once a token has been taken, one is the last taken afterwards too. -/
theorem acceptTo (h : G.Step c c') (hlast : G.token c.last c'.last) {kind : Token.Kind}
    (hk : kind ∉ joints) :
    Reads G never (fun c₁ c₁' => G.Step c₁ c₁' ∧ G.token c₁.last c₁'.last)
      (fun j a b => j = c.nextId ∧ b = a) (Grammar.accept kind c) (Grammar.accept kind c') := by
  have hread := accept_same (h.further hlast) (h.check hk)
  generalize Grammar.accept kind c = r, Grammar.accept kind c' = r' at hread
  cases hread with
  | failed he =>
    refine .failed fun hexact => ?_
    obtain ⟨e', rfl, hee⟩ := he hexact
    exact ⟨e', rfl, hee.ofFurther⟩
  | escaped h => exact h.elim
  | read hS hP => exact .read ⟨hS.ofFurther, hS.last (.inr trivial)⟩ hP

theorem accept (h : G.Step c c') {kind : Token.Kind} (hk : kind ∉ joints) :
    Reads G never G.Step (fun j a b => j = c.nextId ∧ b = a) (Grammar.accept kind c)
      (Grammar.accept kind c') :=
  accept_same h (h.check hk)

theorem expect_lost (h : G.Lost c) (kind : Token.Kind) (what : Expectation) :
    ∃ e, Grammar.expect kind what c = .error e := by
  change ∃ e, (if c.check kind then _ else _ : Parse Token) c = .error e
  rw [h.check, if_neg Bool.false_ne_true]
  exact ⟨_, rfl⟩

/-- Taking a token of a kind: it is the one last taken afterwards, and has the kind. -/
theorem expectKind (h : G.Step c c') {kind : Token.Kind} (what : Expectation) :
    Reads G never (fun c₁ c₁' => G.Step c₁ c₁' ∧ G.token c₁.last c₁'.last)
      (fun j t t' => j = c.nextId ∧ G.token t t' ∧ t.kind = kind) (Grammar.expect kind what c)
      (Grammar.expect kind what c') := by
  rcases h.sameView with ⟨_, hcheck⟩ | hlost
  · change Reads G never _ _ ((if c.check kind then _ else _ : Parse Token) c)
      ((if c'.check kind then _ else _ : Parse Token) c')
    rw [hcheck]
    split
    · next hc =>
      have hkind : c.peek.kind = kind := by
        rw [Cursor.check, Bool.and_eq_true, beq_iff_eq] at hc
        exact hc.2
      exact (advanceTo h (atEnd_of_check hc)).weaken (fun _ _ h => h) (fun _ _ h => ⟨h.1, h.2.2⟩)
        fun _ _ _ h => ⟨h.1, h.2.1, h.2.2.trans hkind⟩
    · exact failExpecting h what
  · exact lost hlost (expect_lost hlost kind what)

theorem expectTo (h : G.Step c c') {kind : Token.Kind} (what : Expectation) :
    Reads G never (fun c₁ c₁' => G.Step c₁ c₁' ∧ G.token c₁.last c₁'.last)
      (fun j t t' => j = c.nextId ∧ G.token t t') (Grammar.expect kind what c)
      (Grammar.expect kind what c') :=
  (expectKind h what).weaken (fun _ _ h => h) (fun _ _ h => h) fun _ _ _ h => ⟨h.1, h.2.1⟩

theorem expect (h : G.Step c c') {kind : Token.Kind} (what : Expectation) :
    Reads G never G.Step (fun j t t' => j = c.nextId ∧ G.token t t') (Grammar.expect kind what c)
      (Grammar.expect kind what c') :=
  (expectTo h what).weaken (fun _ _ h => h) (fun _ _ h => h.1) fun _ _ _ h => h

theorem freshId (h : G.Step c c') :
    Reads G never G.Step
      (fun j a b => j = c.nextId + 1 ∧ a = c.nextId ∧ b = c.nextId + G.shift)
      (Grammar.freshId c) (Grammar.freshId c') := by
  refine .read ⟨h.rows, h.last, h.tidy, ?_⟩ ⟨rfl, rfl, h.nextId⟩
  change c'.nextId + 1 = c.nextId + 1 + G.shift
  rw [h.nextId, Nat.add_right_comm]

theorem peek (h : G.Step c c') :
    Reads G never (fun c₁ c₁' => c₁ = c ∧ c₁' = c') (fun _ t t' => G.exact → G.View t t')
      (Grammar.peek c) (Grammar.peek c') := by
  refine .read ⟨rfl, rfl⟩ fun hexact => ?_
  rcases h.peek with ht | ⟨hlost, _⟩
  · exact ht
  · exact absurd hexact hlost.not_exact

/-- Taking line feeds that one cursor has and the other need not have. -/
theorem dropNewlines_of_dropWhile {l t : Token} {ts rest : List Token}
    (h : ts.dropWhile (·.kind == .newline) = t :: rest) :
    ∃ last', Grammar.dropNewlines l ts = .ok (last', t :: rest) ∧ t.kind ≠ .newline := by
  induction ts generalizing l with
  | nil => cases h
  | cons u us ih =>
    by_cases hu : u.kind = .newline
    · rw [List.dropWhile_cons_of_pos (by simpa using hu)] at h
      obtain ⟨last', heq, ht⟩ := ih h
      exact ⟨last', by rw [Grammar.dropNewlines, if_pos hu, heq], ht⟩
    · rw [List.dropWhile_cons_of_neg (by simpa using hu)] at h
      obtain ⟨rfl, rfl⟩ := List.cons.inj h
      exact ⟨l, by rw [Grammar.dropNewlines, if_neg hu], hu⟩

/-- The token last taken is the one from before, or a line feed. -/
theorem dropNewlines_last {l last : Token} {ts rest : List Token}
    (h : Grammar.dropNewlines l ts = .ok (last, rest)) : last = l ∨ last.kind = .newline := by
  induction ts generalizing l with
  | nil =>
    rw [Grammar.dropNewlines] at h
    split at h
    · cases h
    · exact .inl (Prod.mk.inj (Except.ok.inj h)).1.symm
  | cons t ts ih =>
    rw [Grammar.dropNewlines] at h
    split at h
    · next ht =>
      rcases ih h with rfl | hlast
      · exact .inr ht
      · exact .inr hlast
    · exact .inl (Prod.mk.inj (Except.ok.inj h)).1.symm

theorem dropWhile_feeds {feeds rest : List Token} (h : ∀ t ∈ feeds, t.kind = .newline) :
    (feeds ++ rest).dropWhile (·.kind == .newline) = rest.dropWhile (·.kind == .newline) := by
  induction feeds with
  | nil => rfl
  | cons t feeds ih =>
    rw [List.cons_append, List.dropWhile_cons_of_pos (by simp [h t List.mem_cons_self])]
    exact ih fun u hu => h u (List.mem_cons_of_mem t hu)

/-- What is past the line feeds of what comes later. -/
theorem past_of_later (feeds : List Token) {rest' : List Token}
    (hfeeds : ∀ t ∈ feeds, t.kind = .newline) (hlater : G.later = some (feeds ++ rest'))
    (hlost : G.Lost c) {last' : Token} (hlast : last'.kind ∈ joints) {nextId' : NodeId}
    (hid : nextId' = c.nextId + G.shift) :
    ∃ last'' rest'', Grammar.dropNewlines last' rest' = .ok (last'', rest'') ∧
      G.Past c ⟨last'', rest'', nextId'⟩ := by
  obtain ⟨t, rest, hdrop, _⟩ := G.goesOn hlater
  rw [dropWhile_feeds hfeeds] at hdrop
  obtain ⟨last'', heq, ht⟩ := dropNewlines_of_dropWhile (l := last') hdrop
  have hlast' : last''.kind ∈ joints := by
    rcases dropNewlines_last heq with rfl | hfeed
    · exact hlast
    · exact hfeed ▸ List.mem_cons_self
  refine ⟨last'', t :: rest, heq, ⟨hlost, hlast', ?_, hid⟩, t, rest, rfl, ht⟩
  refine ⟨feeds ++ rest'.takeWhile (·.kind == .newline), fun u hu => ?_, ?_⟩
  · rcases List.mem_append.1 hu with hu | hu
    · exact hfeeds u hu
    · simpa using List.all_eq_true.1 List.all_takeWhile u hu
  · rw [hlater, ← hdrop, List.append_assoc, List.takeWhile_append_dropWhile]

theorem skipNewlines_eq (c : Cursor) : Grammar.skipNewlines c =
    (Grammar.dropNewlines c.last c.rest).map fun p => ((), { c with last := p.1, rest := p.2 }) := by
  change (Grammar.dropNewlines c.last c.rest >>= fun p => Pure.pure (p, c) : Except Failure _) >>=
    (fun p => Pure.pure ((), { c with last := p.1.1, rest := p.1.2 })) = _
  cases Grammar.dropNewlines c.last c.rest <;> rfl

/-- Taking line feeds keeps cursors in step, or leaves the second one past the end. -/
theorem skipNewlines (h : G.Step c c') :
    Reads G never (fun c₁ c₁' => G.Step c₁ c₁' ∨ G.Past c₁ c₁') (fun j _ _ => j = c.nextId)
      (Grammar.skipNewlines c) (Grammar.skipNewlines c') := by
  rw [skipNewlines_eq, skipNewlines_eq]
  obtain ⟨last, rest, nextId⟩ := c
  obtain ⟨last', rest', nextId'⟩ := c'
  obtain ⟨hrows, hlast, htidy, hid⟩ := h
  dsimp only at hrows hlast htidy hid ⊢
  induction hrows generalizing last last' with
  | nil hnone =>
    simp only [Grammar.dropNewlines, kind_eq (hlast (.inl rfl))]
    split
    · exact .failed fun _ => ⟨_, rfl, .outOfRange⟩
    · exact .read (.inl ⟨.nil hnone, hlast, htidy, hid⟩) rfl
  | @mark mark more hmore hmark =>
    have hlost : G.Lost ⟨last, [mark], nextId⟩ := ⟨⟨more, hmore⟩, mark, rfl, hmark⟩
    by_cases hjoint : G.joint.kind = .newline
    · obtain ⟨last'', rest'', heq, hpast⟩ :=
        past_of_later [] (by simp) hmore hlost G.joins hid
      simp only [Grammar.dropNewlines, hmark, hjoint, reduceCtorEq, if_false, if_true, heq]
      exact .read (.inr hpast) rfl
    · -- a semicolon is not taken
      simp only [Grammar.dropNewlines, hmark, hjoint, reduceCtorEq, if_false]
      exact .read (.inl ⟨.mark hmore hmark, hlast, htidy, hid⟩) rfl
  | @cons t t' ts ts' ht hend hrows ih =>
    simp only [Grammar.dropNewlines, ht.kind_eq]
    split
    · next hfeed =>
      exact ih t t' (fun _ => ht.token (by simp [hfeed])) fun hj => (htidy hj).tail
    · exact .read (.inl ⟨.cons ht hend hrows, fun h => hlast (h.imp_left (by simp)), htidy, hid⟩) rfl

theorem skipNewlines_lost (h : G.Lost c) : Grammar.skipNewlines c = .ok ((), c) := by
  obtain ⟨last, rest, nextId⟩ := c
  obtain ⟨_, mark, rfl, hmark⟩ := h
  rw [skipNewlines_eq]
  simp [Grammar.dropNewlines, hmark, Except.map]

/-- Once past the end, there is nothing more to take. -/
theorem skipNewlines_over (h : G.Over c c') :
    Reads G never G.Past (fun j _ _ => j = c.nextId) (Grammar.skipNewlines c)
      (Grammar.skipNewlines c') := by
  obtain ⟨last', rest', nextId'⟩ := c'
  obtain ⟨hlost, hlast, ⟨feeds, hfeeds, hlater⟩, hid⟩ := h
  obtain ⟨last'', rest'', heq, hpast⟩ := past_of_later feeds hfeeds hlater hlost hlast hid
  rw [skipNewlines_lost hlost, skipNewlines_eq]
  dsimp only
  rw [heq]
  exact .read hpast rfl

theorem accept_lost (h : G.Lost c) (kind : Token.Kind) :
    Grammar.accept kind c = .ok (false, c) := by
  change (if c.check kind then _ else _ : Parse Bool) c = _
  rw [h.check, if_neg Bool.false_ne_true]
  rfl

theorem acceptAny_lost (h : G.Lost c) (kinds : List Token.Kind) :
    Grammar.acceptAny kinds c = .ok (none, c) := by
  change (if kinds.any c.check then _ else _ : Parse (Option Token)) c = _
  rw [h.anyCheck, if_neg Bool.false_ne_true]
  rfl

theorem get_bind (k : Cursor → Parse α) : (MonadState.get >>= k : Parse α) c = k c c := rfl

theorem peek_bind (k : Token → Parse α) : (Grammar.peek >>= k) c = k c.peek c := rfl

theorem bind_error {x : Parse α} {k : α → Parse β} (h : ∃ e, x c = .error e) :
    ∃ e, (x >>= k) c = .error e := by
  obtain ⟨e, he⟩ := h
  change ∃ e, (x c >>= fun p => k p.1 p.2) = .error e
  rw [he]
  exact ⟨e, rfl⟩

theorem bind_ok {x : Parse α} {k : α → Parse β} {a : α} {c₁ : Cursor} (h : x c = .ok (a, c₁)) :
    (x >>= k) c = k a c₁ := by
  change (x c >>= fun p => k p.1 p.2) = _
  rw [h]
  rfl

theorem acceptAny_of_check {kinds : List Token.Kind} (h : kinds.any c.check = true) :
    Grammar.acceptAny kinds c = (Grammar.advance c).map fun p => (some p.1, p.2) := by
  change (if kinds.any c.check then _ else _ : Parse (Option Token)) c = _
  rw [if_pos h]
  change (Grammar.advance c >>= fun p => Pure.pure (some p.1, p.2)) = _
  cases Grammar.advance c <;> rfl

theorem acceptAny_of_not_check {kinds : List Token.Kind} (h : ¬kinds.any c.check = true) :
    Grammar.acceptAny kinds c = .ok (none, c) := by
  change (if kinds.any c.check then _ else _ : Parse (Option Token)) c = _
  rw [if_neg h]
  rfl

/-- The end of a statement keeps cursors in step, or takes the second one over the end. -/
theorem statementEnd (h : G.Step c c') :
    Reads G never (fun c₁ c₁' => G.Step c₁ c₁' ∨ G.Over c₁ c₁') (fun j _ _ => j = c.nextId)
      (Grammar.statementEnd c) (Grammar.statementEnd c') := by
  rcases h.peek with ht | ⟨hlost, more, hrest, hlater⟩
  · have hcheck (kind : Token.Kind) : c'.check kind = c.check kind := by
      simp [Cursor.check, Cursor.atEnd, ht.kind_eq]
    have hatEnd : c'.atEnd = c.atEnd := by simp [Cursor.atEnd, ht.kind_eq]
    have hany : [Token.Kind.semicolon, .newline].any c'.check =
        [Token.Kind.semicolon, .newline].any c.check := by simp [hcheck]
    by_cases hc : [Token.Kind.semicolon, .newline].any c.check = true
    · refine (bind (S := G.Step) (P := fun j a b => j = c.nextId ∧ a.isSome ∧ b.isSome) ?_ ?_)
      · rw [acceptAny_of_check hc, acceptAny_of_check (hany.trans hc)]
        have hadv := advance h (atEnd_of_anyCheck hc)
        generalize Grammar.advance c = r, Grammar.advance c' = r' at hadv
        cases hadv with
        | failed he =>
          refine .failed fun hexact => ?_
          obtain ⟨e', rfl, hee⟩ := he hexact
          exact ⟨e', rfl, hee⟩
        | escaped ha => exact ha.elim
        | read h₁ hp => exact .read h₁ ⟨hp.1, rfl, rfl⟩
      · rintro a b c₁ c₁' h₁ ⟨hj, ha, hb⟩
        rw [if_pos ha, if_pos hb]
        exact .pure (.inl h₁) hj
    · have hc' := hany ▸ hc
      unfold Grammar.statementEnd
      rw [bind_ok (acceptAny_of_not_check hc), bind_ok (acceptAny_of_not_check hc')]
      change Reads G never _ _ ((if c.atEnd || c.check .rightBrace then _ else _ : Parse Unit) c)
        ((if c'.atEnd || c'.check .rightBrace then _ else _ : Parse Unit) c')
      rw [hatEnd, hcheck]
      split
      · exact .pure (.inl h) rfl
      · exact failExpecting h _
  · obtain ⟨last', rest', nextId'⟩ := c'
    obtain rfl := hrest
    have hjoint := G.joint_cases
    have hcheck : [Token.Kind.semicolon, .newline].any
        (Cursor.check ⟨last', G.joint :: more, nextId'⟩) = true := by
      rcases hjoint with h | h <;> simp [Cursor.check, Cursor.atEnd, Cursor.peek, h]
    have hmark : G.joint.kind ≠ .endMark := by
      rcases hjoint with h | h <;> simp [h]
    have hadv : Grammar.acceptAny [.semicolon, .newline] ⟨last', G.joint :: more, nextId'⟩ =
        .ok (some G.joint, ⟨G.joint, more, nextId'⟩) := by
      rw [acceptAny_of_check hcheck, advance_cons hmark]
      rfl
    unfold Grammar.statementEnd
    rw [bind_ok (acceptAny_lost hlost _), bind_ok hadv]
    change Reads G never _ _ ((if c.atEnd || c.check .rightBrace then _ else _ : Parse Unit) c) _
    rw [hlost.atEnd]
    exact .read (.inr ⟨hlost, G.joins, ⟨[], by simp, hlater⟩, h.nextId⟩) rfl

end Reads

/-! ### Rows of parts -/

/-- The production fails or does nothing. -/
def Idles {α : Type} (x : Parse α) (c : Cursor) : Prop :=
  (∃ e, x c = .error e) ∨ ∃ a, x c = .ok (a, c)

/-- The escape of a row: its cursor is at the end mark. -/
def outside (G : Reading) {α : Type} : Cursor → α → Prop := fun c _ => G.Lost c

namespace Reads

open Reading

variable {G : Reading} {α β γ : Type} {c c' : Cursor} {P : Nat → α → β → Prop}

/-- A row that ends at a bracket or at the end mark. -/
theorem row (h : G.Step c c') {kind : Token.Kind} {a : α} {b : β}
    (hdone : P c.nextId a b) {x : Parse α} {x' : Parse β}
    (hmore : Reads G (outside G) G.Step P (x c) (x' c')) :
    Reads G (outside G) G.Step P
      ((if c.check kind || c.atEnd then Pure.pure a else x : Parse α) c)
      ((if c'.check kind || c'.atEnd then Pure.pure b else x' : Parse β) c') := by
  rcases h.sameView with ⟨hatEnd, hcheck⟩ | hlost
  · rw [hcheck, hatEnd]
    split
    · exact .pure h hdone
    · exact hmore
  · rw [hlost.atEnd, Bool.or_true, if_pos rfl]
    exact .escaped hlost

/-- At the end mark a row yields what it has. -/
theorem row_lost (h : G.Lost c) (kind : Token.Kind) (a : α) (x : Parse α) :
    (if c.check kind || c.atEnd then Pure.pure a else x : Parse α) c = .ok (a, c) := by
  rw [h.atEnd, Bool.or_true, if_pos rfl]
  rfl

/-- A row at the end mark, as the rest of a row. -/
theorem row_rest {x : Parse α} (h : G.Lost c) (hx : Idles x c) (f : α → γ) {δ : Type}
    {S : Cursor → Cursor → Prop} {Q : Nat → γ → δ → Prop} {r' : Except Failure (δ × Cursor)} :
    Reads G (outside G) S Q ((do let a ← x; return f a : Parse γ) c) r' := by
  rcases hx with hx | ⟨a, hx⟩
  · exact lost h (bind_error hx)
  · rw [bind_ok hx]
    exact .escaped h

/-- A row at the end mark, and then the bracket that is missing. -/
theorem row_expect {x : Parse α} (h : G.Lost c) (hx : Idles x c) (kind : Token.Kind)
    (what : Expectation) (k : α → Token → Parse γ) :
    ∃ e, (do let a ← x; let t ← Grammar.expect kind what; k a t : Parse γ) c = .error e := by
  rcases hx with hx | ⟨a, hx⟩
  · exact bind_error hx
  · rw [bind_ok hx]
    exact bind_error (expect_lost h kind what)

end Reads

/-! ### Looking ahead -/

namespace Reading

variable {G : Reading} {c c' : Cursor} {ts ts' : List Token}

theorem Rows.head (h : G.Rows ts ts') {kind : Token.Kind} (hn : kind ∉ joints)
    (he : kind ≠ .endMark) :
    (match ts'.head? with | some t => t.kind == kind | none => false) =
      match ts.head? with | some t => t.kind == kind | none => false := by
  cases h with
  | nil _ => rfl
  | mark _ hmark => simp [hmark, (G.ne_joint hn).symm, he.symm]
  | cons ht _ _ => simp [ht.kind_eq]

theorem Step.checkNext (h : G.Step c c') (hend : c.atEnd = false) {kind : Token.Kind}
    (hn : kind ∉ joints) (he : kind ≠ .endMark) : c'.checkNext kind = c.checkNext kind := by
  unfold Cursor.checkNext
  obtain ⟨_, _, ⟨hr, hr'⟩ | ⟨t, t', rest, rest', hr, hr', _, hrows⟩⟩ := h.view hend
  · rw [hr, hr']
  · rw [hr, hr']
    exact hrows.head hn he

theorem Rows.assigns (h : G.Rows ts ts') (depth : Nat) :
    assignsAfterBracket depth ts' = assignsAfterBracket depth ts := by
  induction h generalizing depth with
  | nil _ => rfl
  | mark _ hmark =>
    rcases G.joint_cases with h | h <;> simp [assignsAfterBracket, hmark, h]
  | @cons t t' ts ts' ht _ hrows ih =>
    simp only [assignsAfterBracket, ht.kind_eq, ih]
    split
    · rfl
    · split
      · cases hrows with
        | nil _ => rfl
        | mark _ hmark => rcases G.joint_cases with h | h <;> simp [hmark, h]
        | cons ht _ _ => simp only [ht.kind_eq]
      · rfl
    · rfl
    · rfl
    · rfl
    · rfl

theorem Step.atIndexAssignment (h : G.Step c c') :
    c'.atIndexAssignment = c.atIndexAssignment := by
  unfold Cursor.atIndexAssignment
  rw [h.check (by decide)]
  cases hc : c.check .name with
  | false => rfl
  | true =>
    have hend := Reads.atEnd_of_check hc
    rw [h.checkNext hend (by decide) (by decide)]
    obtain ⟨_, _, ⟨hr, hr'⟩ | ⟨t, t', rest, rest', hr, hr', _, hrows⟩⟩ := h.view hend
    · rw [hr, hr']
    · rw [hr, hr', List.tail_cons, List.tail_cons, hrows.assigns]

/-- The first row has only line feeds left before its end mark, where the second row goes on. -/
def RunsOut (G : Reading) (ts : List Token) : Prop :=
  (∃ more, G.later = some more) ∧
    ∃ mark, ts.dropWhile (·.kind == .newline) = [mark] ∧ mark.kind = .endMark

/-- Rows start with the same kind of thing, unless the first one runs out. -/
theorem Rows.starts (h : G.Rows ts ts') :
    startsEntry ts' = startsEntry ts ∧ closesAtOnce ts' = closesAtOnce ts ∨ G.RunsOut ts := by
  induction h with
  | nil _ => exact .inl ⟨rfl, rfl⟩
  | @mark mark more hmore hmark =>
    exact .inr ⟨⟨more, hmore⟩, mark, by simp [hmark], hmark⟩
  | @cons t t' ts ts' ht _ hrows ih =>
    by_cases hk : t.kind = .newline
    · have hk' : t'.kind = .newline := ht.kind_eq.trans hk
      have hd : (t :: ts).dropWhile (·.kind == .newline) = ts.dropWhile (·.kind == .newline) :=
        List.dropWhile_cons_of_pos (by simpa using hk)
      have hd' : (t' :: ts').dropWhile (·.kind == .newline) =
          ts'.dropWhile (·.kind == .newline) := List.dropWhile_cons_of_pos (by simpa using hk')
      unfold startsEntry closesAtOnce RunsOut at ih ⊢
      rwa [hd, hd']
    · have hk' : ¬t'.kind = .newline := ht.kind_eq ▸ hk
      refine .inl ⟨?_, ?_⟩
      · unfold startsEntry
        rw [List.dropWhile_cons_of_neg (by simpa using hk'),
          List.dropWhile_cons_of_neg (by simpa using hk)]
        cases hrows with
        | nil _ => rfl
        | mark _ hmark =>
          rcases G.joint_cases with h | h <;> simp only [ht.kind_eq, hmark, h] <;> rfl
        | cons hu _ _ => simp only [ht.kind_eq, hu.kind_eq]
      · unfold closesAtOnce
        rw [List.dropWhile_cons_of_neg (by simpa using hk'),
          List.dropWhile_cons_of_neg (by simpa using hk)]
        simp [ht.kind_eq]

/-- The tokens after the one in view. -/
theorem Step.tail (h : G.Step c c') (hend : c.atEnd = false) :
    startsEntry c'.rest.tail = startsEntry c.rest.tail ∧ c'.atObject = c.atObject ∨
      G.RunsOut c.rest.tail := by
  unfold Cursor.atObject
  obtain ⟨_, _, ⟨hr, hr'⟩ | ⟨t, t', rest, rest', hr, hr', _, hrows⟩⟩ := h.view hend
  · rw [hr, hr']
    exact .inl ⟨rfl, rfl⟩
  · rw [hr, hr', List.tail_cons, List.tail_cons]
    rcases hrows.starts with ⟨hs, hc⟩ | hout
    · exact .inl ⟨hs, by rw [hs, hc]⟩
    · exact .inr hout

/-- A row that runs out starts no object. -/
theorem RunsOut.not_atObject (h : G.RunsOut c.rest.tail) : c.atObject = false := by
  obtain ⟨_, mark, hdrop, hmark⟩ := h
  simp [Cursor.atObject, startsEntry, closesAtOnce, hdrop, hmark]

end Reading

end ScopedScript.Grammar
