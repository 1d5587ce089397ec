import ScopedScript.Proofs.Parsing.Programs
import ScopedScript.Proofs.Scanning

/-! # Properties of tokens

What holds of all tokens of a row holds of all tokens of the program that is read from it, as long
as it passes to the operators that compound assignments stand for (`PassedOn`).

* `Diagonal Q` relates a token with the property `Q` to itself.  A reading compared with itself
  along this relation is a reading whose tokens have the property (`parseFrom_marked`,
  `programRow_marked`).
* A scanned token is a name, or one of the two keywords that can stand for a variable, just if its
  text is (`Token.Worded`).  So nothing that a program declares is called `this`, and nothing else
  is called so that the keyword refers to. -/

namespace ScopedScript

open Grammar

/-! ### Tokens that have a property -/

/-- A token with a property, related to itself. -/
def Diagonal (Q : Token → Prop) (t t' : Token) : Prop := t' = t ∧ Q t

/-- Tokens pass a property on to the operators that are derived from them. -/
def PassedOn (Q : Token → Prop) : Prop :=
  ∀ (t : Token) (kind : Token.Kind) (lexeme : String), kind ∈ arithmetic → Q t →
    Q (.derived kind lexeme t)

section

variable {Q M : Token → Prop}

theorem matches_diagonal (hQ : PassedOn Q) : Matches (Diagonal Q) where
  same := by
    rintro t _ ⟨rfl, _⟩
    exact ⟨rfl, rfl, rfl⟩
  derived := by
    rintro t _ kind lexeme hkind ⟨rfl, ht⟩
    exact ⟨rfl, hQ _ kind lexeme hkind ht⟩

/-- Tokens that have the property `Q`, except for end marks, which have `M`. -/
def Marked (Q M : Token → Prop) (t : Token) : Prop := Q t ∨ t.kind = .endMark ∧ M t

theorem viewed_diagonal {t : Token} (h : Marked Q M t) : Viewed (Diagonal Q) (Diagonal M) t t :=
  h.imp (fun hq => ⟨rfl, hq⟩) fun hm => ⟨hm.1, hm.1, rfl, hm.2⟩

theorem marked_of_viewed {t t' : Token} (h : Viewed (Diagonal Q) (Diagonal M) t t') :
    Marked Q M t :=
  h.imp (fun hq => hq.2) fun hm => ⟨hm.1, hm.2.2.2⟩

/-- The tokens of a program are those of its row, and so is the token of a fault. -/
theorem parseFrom_marked (hQ : PassedOn Q) {ts : List Token} (hts : ∀ t ∈ ts, Marked Q M t)
    (i : NodeId) :
    (∀ e, parseFrom i ts = .error (.rejected e) → Marked Q M e.token) ∧
      ∀ p j, parseFrom i ts = .ok (p, j) → stmtsMade (Diagonal Q) 0 i j p p := by
  have hparsed := parseFrom_alike (matches_diagonal hQ) i 0
    (List.forall₂_same.2 fun t ht => viewed_diagonal (hts t ht))
  rw [Nat.add_zero] at hparsed
  refine ⟨fun e he => ?_, fun p j hp => ?_⟩
  · rw [he] at hparsed
    obtain ⟨hfail⟩ := hparsed
    cases hfail with
    | rejected fault ht => exact marked_of_viewed ht
  · rw [hp] at hparsed
    cases hparsed with
    | read hmade => exact hmade

/-- The same from the middle of a row on. -/
theorem programRow_marked (hQ : PassedOn Q) {d : Cursor} (hd : d.rest ≠ [])
    (hrest : ∀ t ∈ d.rest, Marked Q M t) (n : Nat) :
    (∀ e, programRow n d = .error (.rejected e) → Marked Q M e.token) ∧
      ∀ q c, programRow n d = .ok (q, c) → stmtsMade (Diagonal Q) 0 d.nextId c.nextId q q := by
  have hrows := rows_throughout (matches_diagonal hQ) 0 True
    (List.forall₂_same.2 fun t ht => viewed_diagonal (hrest t ht))
  have hstep : (Reading.throughout (matches_diagonal hQ) (Diagonal M) 0 True).Step d d :=
    ⟨hrows, fun h => h.elim (absurd · hd) False.elim, (fun hj => by cases hj), rfl⟩
  have hmakes := programRow_makes (n := n) rfl ⟨Nat.le_refl _, fun _ => rfl⟩ hstep
  refine ⟨fun e he => ?_, fun q c hq => ?_⟩
  · rw [he] at hmakes
    cases hmakes with
    | failed hfail =>
      obtain ⟨e', _, hee⟩ := hfail trivial
      cases hee with
      | rejected fault ht => exact marked_of_viewed ht
  · rw [hq] at hmakes
    cases hmakes with
    | escaped hesc => exact hesc.elim
    | read _ hmade => exact hmade

end

/-! ### Words -/

/-- Names, and keywords that refer to variables, are of the kind that their text says. -/
def Token.Worded (t : Token) : Prop :=
  t.kind ∈ [.name, .kwPrint, .kwThis] → t.kind = .ofWord t.lexeme

namespace Token.Worded

variable {t : Token}

theorem lexeme_ne (h : t.Worded) (hk : t.kind ∈ [.name, .kwPrint]) : t.lexeme ≠ "this" := by
  intro hthis
  have hkind := h (by
    simp only [List.mem_cons, List.not_mem_nil, or_false] at hk ⊢
    exact hk.imp_right .inl)
  rw [hthis] at hkind
  rw [hkind] at hk
  exact absurd hk (by decide)

theorem lexeme_eq (h : t.Worded) (hk : t.kind = .kwThis) : t.lexeme = "this" := by
  have hreserved : ∀ p ∈ Token.Kind.reserved, p.2 = .kwThis → p.1 = "this" := by decide
  have hkind := h (by simp [hk])
  rw [hk, Token.Kind.ofWord] at hkind
  cases hl : Token.Kind.reserved.lookup t.lexeme with
  | none =>
    rw [hl] at hkind
    cases hkind
  | some kind =>
    rw [hl] at hkind
    obtain ⟨l, r, hsplit, _⟩ := List.lookup_eq_some_iff.1 hl
    exact hreserved (t.lexeme, kind) (by rw [hsplit]; simp) hkind.symm

theorem shift (h : t.Worded) (k : Nat) : (t.shift k).Worded := h

end Token.Worded

theorem passedOn_worded : PassedOn Token.Worded := by
  intro t kind lexeme hkind _ hname
  have hapart : ∀ kind ∈ arithmetic, kind ∉ [Token.Kind.name, .kwPrint, .kwThis] := by decide
  exact absurd hname (hapart kind hkind)

theorem Piece.worded {c : Char} {cs lexeme rest : List Char} {kind : Token.Kind}
    {literal : Option Token.Literal} (h : Piece.ofSource c cs = .token kind literal lexeme rest)
    (line column index : Nat) :
    (Token.make kind (String.ofList lexeme) line column index literal).Worded := by
  have hsymbols : ∀ s ∈ symbols, s.2 ∉ [Token.Kind.name, .kwPrint, .kwThis] := by decide
  have hother : kind ∉ [Token.Kind.name, .kwPrint, .kwThis] →
      (Token.make kind (String.ofList lexeme) line column index literal).Worded :=
    fun hk hk' => absurd hk' hk
  unfold ofSource at h
  split at h
  · cases h
    exact hother (by decide)
  split at h
  · cases h
  split at h
  · unfold string at h
    dsimp only at h
    split at h <;> cases h
    exact hother (by decide)
  split at h
  · unfold number at h
    dsimp only at h
    split at h
    · split at h <;> cases h <;> exact hother (by decide)
    · cases h
      exact hother (by decide)
  split at h
  · cases h
    exact fun _ => rfl
  split at h
  · cases h
  split at h
  · unfold blockComment at h
    split at h <;> cases h
  · unfold symbol at h
    split at h
    · next hfind =>
      cases h
      exact hother (hsymbols _ (List.mem_of_find?_eq_some hfind))
    · cases h

theorem Scan.start_worded (p : Position) (i : Nat) (source : List Char) :
    ∀ t ∈ (start p i source).tokens, t.Worded := by
  fun_induction start p i source with
  | case1 => exact List.forall_mem_singleton.2 fun h => absurd h (by simp [Token.make])
  | case2 => exact fun t ht => by cases ht
  | case3 p i c cs skipped rest hpiece ih => exact ih
  | case4 p i c cs kind literal lexeme rest hpiece later ih =>
    exact List.forall_mem_cons.2 ⟨Piece.worded hpiece _ _ _, ih⟩

theorem tokenizeFrom_worded {line : Nat} {source : String} {tokens : List Token}
    (h : tokenizeFrom line source = .ok tokens) : ∀ t ∈ tokens, t.Worded := by
  unfold tokenizeFrom Scan.result at h
  split at h
  · cases h
  · obtain rfl := Except.ok.inj h
    exact Scan.start_worded _ _ _

/-- A program that is read from words, and its numbers. -/
theorem parseFrom_worded {tokens : List Token} (htokens : ∀ t ∈ tokens, t.Worded) {i j : NodeId}
    {p : Program} (hp : parseFrom i tokens = .ok (p, j)) :
    stmtsMade (Diagonal Token.Worded) 0 i j p p :=
  (parseFrom_marked (M := fun _ => True) passedOn_worded (fun t ht => .inl (htokens t ht)) i).2 p j hp

end ScopedScript
