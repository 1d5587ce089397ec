import Mathlib
import ScopedScript.Proofs.Parsing.Totality
import ScopedScript.Proofs.Parsing.Programs

/-! # The parser reads up to the first end mark

What a production does at a cursor depends on the tokens up to the first end mark, and on no token
after it.  It depends on the bound on its depth only as long as that is used up, and it finds fault
only with tokens that it has seen.

* **Rows.** Two rows are `SameToMark H` if they agree up to and with their first end mark, where all
  tokens are in `H`.  A cursor `Tracks` another one if it has taken the same token, has the same number
  to hand out, and has such a row to come.
* **Productions.** A second production *echoes* a first one (`Echoes`) if from every cursor that
  tracks another one it has the same result, or finds the same fault with a token of `H`.  Nothing is
  said where the first production uses up the bound on its depth.

Each production echoes itself with a smaller bound (`productionsEcho`).  With `parseFrom_ne_outOfFuel`
this makes the parser total and local on rows with an end mark (`parseFrom_total_local`). -/

namespace ScopedScript

namespace Grammar

/-- What two rows may have up to their first end mark, and what they have behind it. -/
structure Horizon where
  seen : Token → Prop
  behind : List Token
  behind' : List Token

/-- The rows agree up to and with their first end mark. -/
inductive SameToMark (H : Horizon) : List Token → List Token → Prop
  | mark {t : Token} : H.seen t → t.kind = .endMark →
      SameToMark H (t :: H.behind) (t :: H.behind')
  | cons {t : Token} {ts ts' : List Token} : H.seen t → t.kind ≠ .endMark → SameToMark H ts ts' →
      SameToMark H (t :: ts) (t :: ts')

theorem sameToMark_self {ts : List Token} (h : ∃ t ∈ ts, t.kind = .endMark) :
    ∃ behind, SameToMark ⟨fun _ => True, behind, behind⟩ ts ts := by
  induction ts with
  | nil =>
    obtain ⟨t, ht, -⟩ := h
    cases ht
  | cons u us ih =>
    by_cases hu : u.kind = .endMark
    · exact ⟨us, .mark trivial hu⟩
    · obtain ⟨t, ht, hmark⟩ := h
      have ht : t ∈ us := (List.mem_cons.1 ht).resolve_left fun heq => hu (heq ▸ hmark)
      obtain ⟨behind, hrows⟩ := ih ⟨t, ht, hmark⟩
      exact ⟨behind, .cons trivial hu hrows⟩

/-- The second cursor can be told from the first only behind an end mark. -/
structure Cursor.Tracks (H : Horizon) (c c' : Cursor) : Prop where
  rows : SameToMark H c.rest c'.rest
  last_mem : H.seen c.last
  last : c'.last = c.last
  nextId : c'.nextId = c.nextId

/-- The second result is that of the first, unless the first has used up its bound. -/
inductive Follows (H : Horizon) {α : Type} :
    Except Failure (α × Cursor) → Except Failure (α × Cursor) → Prop
  | outOfFuel {r' : Except Failure (α × Cursor)} : Follows H (.error .outOfFuel) r'
  | rejected {e : ParseError} : H.seen e.token → Follows H (.error (.rejected e)) (.error (.rejected e))
  | tree {a : α} {c c' : Cursor} : c.Tracks H c' → Follows H (.ok (a, c)) (.ok (a, c'))

/-- From cursors of which the second tracks the first, the second production follows the first. -/
def Echoes (H : Horizon) {α : Type} (x x' : Parse α) : Prop :=
  ∀ c c' : Cursor, c.Tracks H c' → Follows H (x c) (x' c')

/-! ### What is in view -/

section

variable {H : Horizon} {ts ts' : List Token}

namespace SameToMark

theorem dropWhile (h : SameToMark H ts ts') : SameToMark H
    (ts.dropWhile (·.kind == .newline)) (ts'.dropWhile (·.kind == .newline)) := by
  induction h with
  | mark ht hmark =>
    rw [List.dropWhile_cons_of_neg (by simp [hmark]), List.dropWhile_cons_of_neg (by simp [hmark])]
    exact .mark ht hmark
  | @cons t ts ts' ht hmark h ih =>
    rw [List.dropWhile_cons, List.dropWhile_cons]
    split
    · exact ih
    · exact .cons ht hmark h

theorem startsEntry_eq (h : SameToMark H ts ts') : startsEntry ts' = startsEntry ts := by
  unfold startsEntry
  have hdrop := h.dropWhile
  generalize ts.dropWhile _ = us, ts'.dropWhile _ = us' at hdrop
  cases hdrop with
  | @mark t _ hmark =>
    -- an end mark is no key, whatever comes behind it
    have hkey : (t.kind == .name) = false := by rw [hmark]; rfl
    cases H.behind <;> cases H.behind' <;> simp only [hkey, Bool.false_and]
  | cons _ _ h => cases h <;> rfl

theorem closesAtOnce_eq (h : SameToMark H ts ts') : closesAtOnce ts' = closesAtOnce ts := by
  unfold closesAtOnce
  have hdrop := h.dropWhile
  generalize ts.dropWhile _ = us, ts'.dropWhile _ = us' at hdrop
  cases hdrop <;> rfl

theorem head_kind (h : SameToMark H ts ts') (kind : Token.Kind) :
    (match ts'.head? with | some t => t.kind == kind | none => false) =
      match ts.head? with | some t => t.kind == kind | none => false := by
  cases h <;> rfl

theorem assignsAfterBracket_eq (h : SameToMark H ts ts') (depth : Nat) :
    assignsAfterBracket depth ts' = assignsAfterBracket depth ts := by
  induction h generalizing depth with
  | mark _ hmark => simp only [assignsAfterBracket, hmark]
  | cons _ _ h ih =>
    simp only [assignsAfterBracket, ih]
    split
    · rfl
    · split
      · cases h <;> rfl
      · rfl
    · rfl
    · rfl
    · rfl
    · rfl

end SameToMark

namespace Cursor.Tracks

variable {c c' : Cursor}

theorem peek (h : c.Tracks H c') : c'.peek = c.peek := by
  obtain ⟨last, rest, nextId⟩ := c
  obtain ⟨last', rest', nextId'⟩ := c'
  obtain ⟨hrows, -, rfl, -⟩ := h
  cases hrows <;> rfl

theorem peek_mem (h : c.Tracks H c') : H.seen c.peek := by
  obtain ⟨last, rest, nextId⟩ := c
  obtain ⟨last', rest', nextId'⟩ := c'
  obtain ⟨hrows, -, -, -⟩ := h
  cases hrows with
  | mark ht _ => exact ht
  | cons ht _ _ => exact ht

theorem atEnd (h : c.Tracks H c') : c'.atEnd = c.atEnd := by
  unfold Cursor.atEnd
  rw [h.peek]

theorem check (h : c.Tracks H c') (kind : Token.Kind) : c'.check kind = c.check kind := by
  unfold Cursor.check
  rw [h.atEnd, h.peek]

theorem anyCheck (h : c.Tracks H c') (kinds : List Token.Kind) :
    kinds.any c'.check = kinds.any c.check := by
  rw [funext h.check]

/-- Away from the end mark there is a token to take. -/
theorem rest_eq (h : c.Tracks H c') (hend : c.atEnd = false) :
    ∃ t ts ts', c.rest = t :: ts ∧ c'.rest = t :: ts' ∧ H.seen t ∧ t.kind ≠ .endMark ∧
      SameToMark H ts ts' := by
  obtain ⟨last, rest, nextId⟩ := c
  obtain ⟨last', rest', nextId'⟩ := c'
  obtain ⟨hrows, -, -, -⟩ := h
  cases hrows with
  | mark _ hmark => simp [Cursor.atEnd, Cursor.peek, hmark] at hend
  | cons ht hne h => exact ⟨_, _, _, rfl, rfl, ht, hne, h⟩

theorem tail (h : c.Tracks H c') (hend : c.atEnd = false) :
    SameToMark H c.rest.tail c'.rest.tail := by
  obtain ⟨t, ts, ts', hr, hr', -, -, htail⟩ := h.rest_eq hend
  rwa [hr, hr']

theorem checkNext (h : c.Tracks H c') (hend : c.atEnd = false) (kind : Token.Kind) :
    c'.checkNext kind = c.checkNext kind :=
  (h.tail hend).head_kind kind

theorem atIndexAssignment (h : c.Tracks H c') : c'.atIndexAssignment = c.atIndexAssignment := by
  unfold Cursor.atIndexAssignment
  rw [h.check]
  cases hname : c.check .name with
  | false => rfl
  | true =>
    have hend := Reads.atEnd_of_check hname
    rw [h.checkNext hend, (h.tail hend).assignsAfterBracket_eq]

theorem atObject (h : c.Tracks H c') (hend : c.atEnd = false) : c'.atObject = c.atObject := by
  unfold Cursor.atObject
  rw [(h.tail hend).startsEntry_eq, (h.tail hend).closesAtOnce_eq]

end Cursor.Tracks

end

/-! ### Small productions -/

namespace Echoes

section

variable {H : Horizon} {α β : Type} {x x' : Parse α} {k k' : α → Parse β}

theorem pure (a : α) : Echoes H (Pure.pure a : Parse α) (Pure.pure a) := fun _ _ h => .tree h

theorem bind (hx : Echoes H x x') (hk : ∀ a, Echoes H (k a) (k' a)) :
    Echoes H (x >>= k) (x' >>= k') := by
  intro c c' h
  change Follows H (x c >>= fun p => k p.1 p.2) (x' c' >>= fun p => k' p.1 p.2)
  have hx := hx c c' h
  generalize x c = r, x' c' = r' at hx
  cases hx with
  | outOfFuel => exact .outOfFuel
  | rejected he => exact .rejected he
  | tree h₁ => exact hk _ _ _ h₁

/-- A production with something made of its tree. -/
theorem map (hx : Echoes H x x') (f : α → β) :
    Echoes H (do let a ← x; return f a) (do let a ← x'; return f a) :=
  hx.bind fun _ => .pure _

/-- A production that has used up its bound. -/
theorem outOfFuel (hx : x = throw .outOfFuel) : Echoes H x x' := by
  subst hx
  exact fun _ _ _ => .outOfFuel

theorem failAt {token : Token} (h : H.seen token) (fault : Fault) :
    Echoes H (Grammar.failAt token fault : Parse α) (Grammar.failAt token fault) :=
  fun _ _ _ => .rejected h

theorem failExpecting (what : Expectation) :
    Echoes H (Grammar.failExpecting what : Parse α) (Grammar.failExpecting what) := by
  intro c c' h
  change Follows H (.error (.rejected ⟨_, c.peek⟩)) (.error (.rejected ⟨_, c'.peek⟩))
  rw [h.peek]
  exact .rejected h.peek_mem

/-- Looking at the cursor. -/
theorem get {k k' : Cursor → Parse β}
    (h : ∀ c c', c.Tracks H c' → Follows H (k c c) (k' c' c')) :
    Echoes H (MonadState.get >>= k) (MonadState.get >>= k') := h

/-- Looking at the token in view. -/
theorem peek {k k' : Token → Parse β} (h : ∀ t, H.seen t → Echoes H (k t) (k' t)) :
    Echoes H (Grammar.peek >>= k) (Grammar.peek >>= k') := by
  intro c c' hc
  change Follows H (k c.peek c) (k' c'.peek c')
  rw [hc.peek]
  exact h _ hc.peek_mem _ _ hc

/-- Deciding by the kind of token in view. -/
theorem ifCheck (kind : Token.Kind) {y y' z z' : Parse β} (hy : Echoes H y y')
    (hz : Echoes H z z') :
    Echoes H (do if (← MonadState.get).check kind then y else z)
      (do if (← MonadState.get).check kind then y' else z') := by
  intro c c' hc
  change Follows H ((if c.check kind then y else z) c) ((if c'.check kind then y' else z') c')
  rw [hc.check]
  split
  · exact hy _ _ hc
  · exact hz _ _ hc

/-- A row that ends at a bracket or at the end mark. -/
theorem row (kind : Token.Kind) {y y' z z' : Parse β} (hy : Echoes H y y') (hz : Echoes H z z') :
    Echoes H (do let c ← MonadState.get; if c.check kind || c.atEnd then y else z)
      (do let c ← MonadState.get; if c.check kind || c.atEnd then y' else z') := by
  intro c c' hc
  change Follows H ((if c.check kind || c.atEnd then y else z) c)
    ((if c'.check kind || c'.atEnd then y' else z') c')
  rw [hc.check, hc.atEnd]
  split
  · exact hy _ _ hc
  · exact hz _ _ hc

theorem freshId : Echoes H Grammar.freshId Grammar.freshId := by
  rintro ⟨last, rest, nextId⟩ ⟨last', rest', nextId'⟩ ⟨hrows, hmem, hlast, rfl⟩
  exact .tree ⟨hrows, hmem, hlast, rfl⟩

/-- Taking the token in view, from given cursors. -/
theorem advance_from {c c' : Cursor} (h : c.Tracks H c') {k k' : Token → Parse β}
    (hk : ∀ t, H.seen t → Echoes H (k t) (k' t)) :
    Follows H ((Grammar.advance >>= k) c) ((Grammar.advance >>= k') c') := by
  obtain ⟨last, rest, nextId⟩ := c
  obtain ⟨last', rest', nextId'⟩ := c'
  obtain ⟨hrows, hmem, rfl, rfl⟩ := h
  dsimp only at hrows hmem ⊢
  cases hrows with
  | @mark t ht hmark =>
    have hstays : ∀ ts, Grammar.advance ⟨last', t :: ts, nextId'⟩ =
        .ok (last', ⟨last', t :: ts, nextId'⟩) := by
      intro ts
      change (if t.kind = .endMark then _ else _ : Parse Token) _ = _
      rw [if_pos hmark]
      rfl
    rw [Reads.bind_ok (hstays H.behind), Reads.bind_ok (hstays H.behind')]
    exact hk _ hmem _ _ ⟨.mark ht hmark, hmem, rfl, rfl⟩
  | cons ht hne hrows =>
    rw [Reads.bind_ok (Reads.advance_cons hne), Reads.bind_ok (Reads.advance_cons hne)]
    exact hk _ ht _ _ ⟨hrows, ht, rfl, rfl⟩

theorem advance {k k' : Token → Parse β} (hk : ∀ t, H.seen t → Echoes H (k t) (k' t)) :
    Echoes H (Grammar.advance >>= k) (Grammar.advance >>= k') := fun _ _ h => advance_from h hk

theorem expect (kind : Token.Kind) (what : Expectation) {k k' : Token → Parse β}
    (hk : ∀ t, H.seen t → Echoes H (k t) (k' t)) :
    Echoes H (Grammar.expect kind what >>= k) (Grammar.expect kind what >>= k') := by
  intro c c' h
  have hexpect : ∀ (k : Token → Parse β) (c : Cursor), (Grammar.expect kind what >>= k) c =
      if c.check kind then (Grammar.advance >>= k) c else (Grammar.failExpecting what : Parse β) c := by
    intro k c
    change ((if c.check kind then _ else _ : Parse Token) >>= k) c = _
    split <;> rfl
  rw [hexpect, hexpect, h.check]
  split
  · exact advance_from h hk
  · exact failExpecting what _ _ h

theorem accept (kind : Token.Kind) {k k' : Bool → Parse β} (hyes : Echoes H (k true) (k' true))
    (hno : Echoes H (k false) (k' false)) :
    Echoes H (Grammar.accept kind >>= k) (Grammar.accept kind >>= k') := by
  intro c c' h
  have haccept : ∀ (k : Bool → Parse β) (c : Cursor), (Grammar.accept kind >>= k) c =
      if c.check kind then (Grammar.advance >>= fun _ => k true) c else k false c := by
    intro k c
    change ((if c.check kind then _ else _ : Parse Bool) >>= k) c = _
    split
    · change ((Grammar.advance >>= fun _ => Pure.pure true) >>= k) c = _
      rw [bind_assoc]
      rfl
    · rfl
  rw [haccept, haccept, h.check]
  split
  · exact advance_from h fun _ _ => hyes
  · exact hno _ _ h

theorem acceptAny (kinds : List Token.Kind) {k k' : Option Token → Parse β}
    (hyes : ∀ t, H.seen t → Echoes H (k (some t)) (k' (some t)))
    (hno : Echoes H (k none) (k' none)) :
    Echoes H (Grammar.acceptAny kinds >>= k) (Grammar.acceptAny kinds >>= k') := by
  intro c c' h
  have haccept : ∀ (k : Option Token → Parse β) (c : Cursor), (Grammar.acceptAny kinds >>= k) c =
      if kinds.any c.check then (Grammar.advance >>= fun t => k (some t)) c else k none c := by
    intro k c
    change ((if kinds.any c.check then _ else _ : Parse (Option Token)) >>= k) c = _
    split
    · change ((Grammar.advance >>= fun t => Pure.pure (some t)) >>= k) c = _
      rw [bind_assoc]
      rfl
    · rfl
  rw [haccept, haccept, h.anyCheck]
  split
  · exact advance_from h hyes
  · exact hno _ _ h

/-- Line feeds in rows that agree. -/
theorem dropNewlines {last : Token} {ts ts' : List Token} (h : SameToMark H ts ts')
    (hlast : H.seen last) : ∃ last₁ ts₁ ts₁', Grammar.dropNewlines last ts = .ok (last₁, ts₁) ∧
      Grammar.dropNewlines last ts' = .ok (last₁, ts₁') ∧ SameToMark H ts₁ ts₁' ∧ H.seen last₁ := by
  induction h generalizing last with
  | @mark t ht hmark =>
    have hne : t.kind ≠ .newline := by simp [hmark]
    rw [Grammar.dropNewlines, Grammar.dropNewlines, if_neg hne, if_neg hne]
    exact ⟨_, _, _, rfl, rfl, .mark ht hmark, hlast⟩
  | @cons t ts ts' ht hmark h ih =>
    rw [Grammar.dropNewlines, Grammar.dropNewlines]
    split
    · exact ih ht
    · exact ⟨_, _, _, rfl, rfl, .cons ht hmark h, hlast⟩

theorem skipNewlines : Echoes H Grammar.skipNewlines Grammar.skipNewlines := by
  rintro ⟨last, rest, nextId⟩ ⟨last', rest', nextId'⟩ ⟨hrows, hmem, rfl, rfl⟩
  obtain ⟨last₁, ts, ts', heq, heq', hrows₁, hmem₁⟩ := dropNewlines hrows hmem
  rw [Reads.skipNewlines_eq, Reads.skipNewlines_eq]
  dsimp only at heq heq' ⊢
  rw [heq, heq']
  exact .tree ⟨hrows₁, hmem₁, rfl, rfl⟩

theorem statementEnd : Echoes H Grammar.statementEnd Grammar.statementEnd := by
  refine .acceptAny _ (fun _ _ => .pure _) (.get fun c c' h => ?_)
  rw [h.atEnd, h.check]
  split
  · exact .tree h
  · exact failExpecting _ _ _ h

end

end Echoes

/-! ### Annotations -/

section

variable {H : Horizon} {n n' : Nat}

theorem arrayRest_echoes (hn : n ≤ n') (ty : Ty) : Echoes H (arrayRest n ty) (arrayRest n' ty) := by
  induction n generalizing n' ty with
  | zero => exact .outOfFuel rfl
  | succ n ih =>
    obtain ⟨n', rfl⟩ := Nat.exists_eq_add_one_of_ne_zero (by omega : n' ≠ 0)
    simp only [arrayRest]
    refine .get fun c c' h => ?_
    have hbrackets : (c'.check .leftBracket && c'.checkNext .rightBracket) =
        (c.check .leftBracket && c.checkNext .rightBracket) := by
      rw [h.check]
      cases hcheck : c.check .leftBracket with
      | false => rfl
      | true => rw [h.checkNext (Reads.atEnd_of_check hcheck)]
    rw [hbrackets]
    split
    · exact Echoes.advance_from h fun _ _ => .advance fun _ _ => ih (by omega) _
    · exact .tree h

/-- The productions for annotations with a bound of `n'` echo those with a bound of `n`. -/
structure AnnotationsEcho (H : Horizon) (n n' : Nat) : Prop where
  announced : Echoes H (annotated n) (annotated n')
  unionType : Echoes H (unionType n) (unionType n')
  unionRest : Echoes H (unionRest n) (unionRest n')
  intersectionType : Echoes H (intersectionType n) (intersectionType n')
  intersectionRest : Echoes H (intersectionRest n) (intersectionRest n')
  arrayType : Echoes H (arrayType n) (arrayType n')
  primaryType : Echoes H (primaryType n) (primaryType n')
  typeArguments : Echoes H (typeArguments n) (typeArguments n')
  tupleElements : Echoes H (tupleElements n) (tupleElements n')
  typeEntries : Echoes H (typeEntries n) (typeEntries n')
  parameters : Echoes H (parameters n) (parameters n')
  parameterRow : ∀ count, Echoes H (parameterRow n count) (parameterRow n' count)

theorem primaryType_echoes (h : AnnotationsEcho H n n') :
    Echoes H (primaryType (n + 1)) (primaryType (n' + 1)) := by
  simp only [primaryType]
  refine .acceptAny _ (fun _ _ => .pure _) (.acceptAny _ (fun _ _ => ?_) ?_)
  · refine .accept _ ?_ (.pure _)
    exact h.typeArguments.bind fun _ => .expect _ _ fun _ _ => .pure _
  refine .accept _ ?_ ?_
  · exact h.parameters.bind fun _ => .expect _ _ fun _ _ => h.unionType.map _
  refine .accept _ ?_ ?_
  · exact h.tupleElements.bind fun _ => .expect _ _ fun _ _ => .pure _
  refine .accept _ (.pure _) (.accept _ ?_ (.failExpecting _))
  refine Echoes.skipNewlines.bind fun _ => h.typeEntries.bind fun _ => ?_
  exact .expect _ _ fun _ _ => .pure _

theorem annotationsEcho_succ (hn : n ≤ n') (h : AnnotationsEcho H n n') :
    AnnotationsEcho H (n + 1) (n' + 1) where
  announced := by
    simp only [annotated]
    exact .accept _ (h.unionType.map _) (.pure _)
  unionType := by
    simp only [Grammar.unionType]
    exact h.intersectionType.bind fun _ => h.unionRest.map _
  unionRest := by
    simp only [Grammar.unionRest]
    exact .accept _ (h.intersectionType.bind fun _ => h.unionRest.map _) (.pure _)
  intersectionType := by
    simp only [Grammar.intersectionType]
    exact h.arrayType.bind fun _ => h.intersectionRest.map _
  intersectionRest := by
    simp only [Grammar.intersectionRest]
    exact .accept _ (h.arrayType.bind fun _ => h.intersectionRest.map _) (.pure _)
  arrayType := by
    simp only [Grammar.arrayType]
    exact h.primaryType.bind fun _ => arrayRest_echoes hn _
  primaryType := primaryType_echoes h
  typeArguments := by
    simp only [Grammar.typeArguments]
    exact h.unionType.bind fun _ => .accept _ (h.typeArguments.map _) (.pure _)
  tupleElements := by
    simp only [Grammar.tupleElements]
    refine .row _ (.pure _) (h.unionType.bind fun _ => ?_)
    exact .accept _ (h.tupleElements.map _) (.pure _)
  typeEntries := by
    simp only [Grammar.typeEntries]
    refine .row _ (.pure _) (.expect _ _ fun _ _ => .expect _ _ fun _ _ => ?_)
    refine h.unionType.bind fun _ => .acceptAny _ (fun _ _ => ?_) ?_
    · exact Echoes.skipNewlines.bind fun _ => h.typeEntries.map _
    · exact Echoes.skipNewlines.bind fun _ => h.typeEntries.map _
  parameters := by
    simp only [Grammar.parameters]
    refine Echoes.skipNewlines.bind fun _ => .ifCheck _ ?_ ?_
    · exact (Echoes.pure _).bind fun _ => .expect _ _ fun _ _ => .pure _
    · exact (h.parameterRow 0).bind fun _ => .expect _ _ fun _ _ => .pure _
  parameterRow count := by
    simp only [Grammar.parameterRow]
    refine Echoes.skipNewlines.bind fun _ => ?_
    split
    · exact .peek fun _ ht => .failAt ht _
    · refine .expect _ _ fun _ _ => h.announced.bind fun _ => .get fun c c' hc => ?_
      rw [hc.last]
      refine (Echoes.skipNewlines.bind fun _ => ?_) c c' hc
      exact .accept _ ((h.parameterRow (count + 1)).map _) (.pure _)

theorem annotationsEcho (hn : n ≤ n') : AnnotationsEcho H n n' := by
  induction n generalizing n' with
  | zero => constructor <;> intros <;> exact .outOfFuel rfl
  | succ n ih =>
    obtain ⟨n', rfl⟩ := Nat.exists_eq_add_one_of_ne_zero (by omega : n' ≠ 0)
    exact annotationsEcho_succ (by omega) (ih (by omega))

/-! ### Expressions and statements -/

/-- The productions for expressions and statements with a bound of `n'` echo those with a bound
of `n`. -/
structure ProductionsEcho (H : Horizon) (n n' : Nat) : Prop where
  expression : Echoes H (expression n) (expression n')
  binary : ∀ levels, Echoes H (binary n levels) (binary n' levels)
  binaryRest : ∀ operators tighter left,
    Echoes H (binaryRest n operators tighter left) (binaryRest n' operators tighter left)
  unary : Echoes H (unary n) (unary n')
  postfixRest : ∀ head, Echoes H (postfixRest n head) (postfixRest n' head)
  argumentRow : ∀ count, Echoes H (argumentRow n count) (argumentRow n' count)
  primary : Echoes H (primary n) (primary n')
  elementRow : Echoes H (elementRow n) (elementRow n')
  entryRow : ∀ entries, Echoes H (entryRow n entries) (entryRow n' entries)
  functionRest : ∀ name, Echoes H (functionRest n name) (functionRest n' name)
  block : Echoes H (block n) (block n')
  blockRow : Echoes H (blockRow n) (blockRow n')
  statement : Echoes H (statement n) (statement n')
  expressionStatement : Echoes H (expressionStatement n) (expressionStatement n')
  classDeclaration : Echoes H (classDeclaration n) (classDeclaration n')
  memberRow : Echoes H (memberRow n) (memberRow n')
  ifStatement : ∀ keyword, Echoes H (ifStatement n keyword) (ifStatement n' keyword)
  whileStatement : ∀ keyword, Echoes H (whileStatement n keyword) (whileStatement n' keyword)
  forStatement : ∀ keyword, Echoes H (forStatement n keyword) (forStatement n' keyword)
  forInit : Echoes H (forInit n) (forInit n')
  variableDeclaration : ∀ keyword,
    Echoes H (variableDeclaration n keyword) (variableDeclaration n' keyword)
  returnStatement : ∀ keyword, Echoes H (returnStatement n keyword) (returnStatement n' keyword)
  indexAssignment : Echoes H (indexAssignment n) (indexAssignment n')

theorem assignment_echoes (target : Expr) {equals : Token} (h : H.seen equals) (value : Expr) :
    Echoes H (assignment target equals value) (assignment target equals value) := by
  unfold assignment
  split
  · exact Echoes.freshId.map _
  · exact .pure _
  · exact .failAt h _

theorem compoundAssignment_echoes (target : Expr) {operator : Token} (h : H.seen operator)
    (value : Expr) : Echoes H (compoundAssignment target operator value)
      (compoundAssignment target operator value) := by
  unfold compoundAssignment
  split
  · exact Echoes.freshId.map _
  · exact .pure _
  · exact .failAt h _

theorem numberLiteral_echoes {token : Token} (h : H.seen token) :
    Echoes H (numberLiteral token) (numberLiteral token) := by
  unfold numberLiteral
  split
  · exact .pure _
  · exact .failAt h _

theorem emptyObjectStatement_echoes :
    Echoes H emptyObjectStatement emptyObjectStatement := Echoes.statementEnd.map _

theorem expression_echoes (h : ProductionsEcho H n n') :
    Echoes H (expression (n + 1)) (expression (n' + 1)) := by
  simp only [expression]
  refine (h.binary _).bind fun target => .acceptAny _ (fun _ ht => ?_) ?_
  · exact h.expression.bind fun _ => assignment_echoes _ ht _
  refine .acceptAny _ (fun _ ht => ?_) ?_
  · exact h.expression.bind fun _ => compoundAssignment_echoes _ ht _
  · exact .acceptAny _ (fun _ ht => compoundAssignment_echoes _ ht _) (.pure _)

theorem binary_echoes (h : ProductionsEcho H n n') (levels : List (List Token.Kind)) :
    Echoes H (binary (n + 1) levels) (binary (n' + 1) levels) := by
  cases levels with
  | nil =>
    simp only [binary]
    exact h.unary
  | cons operators tighter =>
    simp only [binary]
    exact (h.binary tighter).bind fun left => h.binaryRest operators tighter left

theorem primary_echoes (h : ProductionsEcho H n n') :
    Echoes H (primary (n + 1)) (primary (n' + 1)) := by
  simp only [primary]
  refine .get fun c c' hc => ?_
  have hobject : c.peek.kind = .leftBrace → c'.atObject = c.atObject := fun hkind =>
    hc.atObject (by simp [Cursor.atEnd, hkind])
  rw [hc.peek]
  generalize c.peek.kind = kind at hobject
  split
  case h_1 | h_2 => exact Echoes.advance_from hc fun _ ht => numberLiteral_echoes ht
  case h_3 | h_4 | h_5 | h_6 | h_7 | h_8 => exact Echoes.advance_from hc fun _ _ => .pure _
  case h_9 =>
    exact Echoes.advance_from hc fun token _ => .expect _ _ fun _ _ => (h.functionRest token).map _
  case h_10 => exact Echoes.advance_from hc fun _ _ => Echoes.freshId.map _
  case h_11 | h_12 =>
    refine Echoes.advance_from hc fun _ _ => Echoes.freshId.bind fun _ => .accept _ ?_ (.pure _)
    exact h.expression.bind fun _ => .expect _ _ fun _ _ => .pure _
  case h_13 =>
    refine Echoes.advance_from hc fun _ _ => Echoes.skipNewlines.bind fun _ => ?_
    refine h.expression.bind fun _ => Echoes.skipNewlines.bind fun _ => ?_
    exact .expect _ _ fun _ _ => .pure _
  case h_14 =>
    refine Echoes.advance_from hc fun _ _ => Echoes.skipNewlines.bind fun _ => ?_
    exact h.elementRow.bind fun _ => .expect _ _ fun _ _ => .pure _
  case h_15 =>
    rw [hobject rfl]
    split
    · refine Echoes.advance_from hc fun _ _ => Echoes.skipNewlines.bind fun _ => ?_
      exact (h.entryRow []).bind fun _ => .expect _ _ fun _ _ => .pure _
    · exact Echoes.failExpecting _ _ _ hc
  case h_16 => exact Echoes.failExpecting _ _ _ hc

theorem statement_echoes (h : ProductionsEcho H n n') :
    Echoes H (statement (n + 1)) (statement (n' + 1)) := by
  simp only [statement]
  refine Echoes.skipNewlines.bind fun _ => .get fun c c' hc => ?_
  have hend : c.peek.kind ≠ .endMark → c.atEnd = false := by simp [Cursor.atEnd]
  rw [hc.peek]
  generalize c.peek.kind = kind at hend
  split
  case h_1 => exact Echoes.advance_from hc fun _ _ => h.classDeclaration
  case h_2 => exact Echoes.advance_from hc fun keyword _ => h.forStatement keyword
  case h_3 => exact Echoes.advance_from hc fun keyword _ => h.whileStatement keyword
  case h_4 => exact Echoes.advance_from hc fun keyword _ => h.ifStatement keyword
  case h_5 | h_6 | h_7 =>
    exact Echoes.advance_from hc fun keyword _ => h.variableDeclaration keyword
  case h_8 =>
    rw [hc.checkNext (hend (by decide))]
    split
    · refine Echoes.advance_from hc fun _ _ => .expect _ _ fun name _ => ?_
      exact .expect _ _ fun _ _ => (h.functionRest name).map _
    · exact h.expressionStatement _ _ hc
  case h_9 => exact Echoes.advance_from hc fun keyword _ => h.returnStatement keyword
  case h_10 =>
    have hend := hend (by decide)
    rw [hc.checkNext hend, (hc.tail hend).startsEntry_eq]
    split
    · exact Echoes.advance_from hc fun _ _ => .advance fun _ _ => emptyObjectStatement_echoes
    · split
      · exact h.expressionStatement _ _ hc
      · exact h.block.map _ _ _ hc
  case h_11 => exact Echoes.advance_from hc fun _ _ => emptyObjectStatement_echoes
  case h_12 => exact .tree hc
  case h_13 =>
    rw [hc.atIndexAssignment]
    split
    · exact h.indexAssignment _ _ hc
    · exact h.expressionStatement _ _ hc

theorem ifStatement_echoes (h : ProductionsEcho H n n') (keyword : Token) :
    Echoes H (ifStatement (n + 1) keyword) (ifStatement (n' + 1) keyword) := by
  simp only [ifStatement]
  refine .expect _ _ fun _ _ => h.expression.bind fun _ => .expect _ _ fun _ _ => ?_
  refine h.block.bind fun _ => .get fun c c' hc => ?_
  refine (Echoes.skipNewlines.bind fun _ => .accept _ ?_ ?_) c c' hc
  · refine .acceptAny _ (fun inner _ => (h.ifStatement inner).map _) ?_
    exact h.block.map _
  -- without `else` the cursors go back before the line feeds
  · exact fun _ _ _ => .tree hc

theorem forStatement_echoes (h : ProductionsEcho H n n') (keyword : Token) :
    Echoes H (forStatement (n + 1) keyword) (forStatement (n' + 1) keyword) := by
  simp only [forStatement]
  refine .expect _ _ fun _ _ => h.forInit.bind fun init => ?_
  have hbody := fun (condition : Expr) (increment : Option Expr) =>
    Echoes.expect (H := H) .rightParen .forClose fun _ _ => h.statement.map fun body =>
      forLoop keyword init condition increment body
  have hincrement := fun condition : Expr =>
    Echoes.expect (H := H) .semicolon .loopSemicolon fun _ _ => .ifCheck .rightParen
      ((Echoes.pure none).bind fun increment => hbody condition increment)
      ((h.expression.map some).bind fun increment => hbody condition increment)
  exact .ifCheck _ ((Echoes.pure _).bind hincrement) (h.expression.bind hincrement)

theorem variableDeclaration_echoes (h : ProductionsEcho H n n') (hn : n ≤ n') (keyword : Token) :
    Echoes H (variableDeclaration (n + 1) keyword) (variableDeclaration (n' + 1) keyword) := by
  simp only [variableDeclaration]
  refine .expect _ _ fun _ _ => (annotationsEcho hn).announced.bind fun _ => .peek fun t _ => ?_
  split
  · exact Echoes.statementEnd.map _
  · refine .expect _ _ fun _ _ => .get fun c c' hc => ?_
    rw [hc.check, hc.atEnd]
    split
    · exact Echoes.failExpecting _ _ _ hc
    · exact (h.expression.bind fun _ => Echoes.statementEnd.map _) _ _ hc

theorem productionsEcho_succ (hn : n ≤ n') (h : ProductionsEcho H n n') :
    ProductionsEcho H (n + 1) (n' + 1) where
  expression := expression_echoes h
  binary := binary_echoes h
  binaryRest operators tighter left := by
    simp only [Grammar.binaryRest]
    refine .acceptAny _ (fun operator _ => ?_) (.pure _)
    exact (h.binary tighter).bind fun right => h.binaryRest _ _ _
  unary := by
    simp only [Grammar.unary]
    refine .acceptAny _ (fun _ _ => h.unary.map _) ?_
    exact h.primary.bind fun head => h.postfixRest head
  postfixRest head := by
    simp only [Grammar.postfixRest]
    refine .accept _ ?_ (.accept _ ?_ (.pure _))
    · refine Echoes.skipNewlines.bind fun _ => .ifCheck _ ?_ ?_
      · exact (Echoes.pure _).bind fun _ => .expect _ _ fun _ _ => h.postfixRest _
      · exact (h.argumentRow 0).bind fun _ => .expect _ _ fun _ _ => h.postfixRest _
    · exact .expect _ _ fun _ _ => h.postfixRest _
  argumentRow count := by
    simp only [Grammar.argumentRow]
    refine Echoes.skipNewlines.bind fun _ => ?_
    split
    · exact .peek fun _ ht => .failAt ht _
    · refine h.expression.bind fun _ => Echoes.skipNewlines.bind fun _ => ?_
      exact .accept _ ((h.argumentRow (count + 1)).map _) (.pure _)
  primary := primary_echoes h
  elementRow := by
    simp only [Grammar.elementRow]
    refine .row _ (.pure _) (h.expression.bind fun _ => Echoes.skipNewlines.bind fun _ => ?_)
    exact .accept _ (Echoes.skipNewlines.bind fun _ => h.elementRow.map _) (.pure _)
  entryRow entries := by
    simp only [Grammar.entryRow]
    refine .row _ (.pure _) (.expect _ _ fun _ _ => .expect _ _ fun _ _ => ?_)
    refine Echoes.skipNewlines.bind fun _ => h.expression.bind fun _ => ?_
    refine Echoes.skipNewlines.bind fun _ => .accept _ ?_ (.pure _)
    exact Echoes.skipNewlines.bind fun _ => h.entryRow _
  functionRest name := by
    simp only [Grammar.functionRest]
    refine (annotationsEcho hn).parameters.bind fun _ => ?_
    exact (annotationsEcho hn).announced.bind fun _ => h.block.map _
  block := by
    simp only [Grammar.block]
    refine Echoes.skipNewlines.bind fun _ => .accept _ (.pure _) (.expect _ _ fun _ _ => ?_)
    refine Echoes.skipNewlines.bind fun _ => h.blockRow.bind fun _ => ?_
    exact .expect _ _ fun _ _ => .pure _
  blockRow := by
    simp only [Grammar.blockRow]
    refine .row _ (.pure _) (h.statement.bind fun _ => ?_)
    exact Echoes.skipNewlines.bind fun _ => h.blockRow.map _
  statement := statement_echoes h
  expressionStatement := by
    simp only [Grammar.expressionStatement]
    exact .peek fun _ _ => h.expression.bind fun _ => Echoes.statementEnd.map _
  classDeclaration := by
    simp only [Grammar.classDeclaration]
    refine .expect _ _ fun _ _ => Echoes.skipNewlines.bind fun _ => .accept _ (.pure _) ?_
    refine .expect _ _ fun _ _ => Echoes.skipNewlines.bind fun _ => ?_
    exact h.memberRow.bind fun _ => .expect _ _ fun _ _ => .pure _
  memberRow := by
    simp only [Grammar.memberRow]
    refine .row _ (.pure _) (.expect _ _ fun name _ => .accept _ ?_ ?_)
    · refine (h.functionRest name).bind fun _ => Echoes.skipNewlines.bind fun _ => ?_
      exact h.memberRow.map _
    · refine (annotationsEcho hn).announced.bind fun _ => .expect _ _ fun _ _ => ?_
      refine h.expression.bind fun _ => Echoes.statementEnd.bind fun _ => ?_
      exact Echoes.skipNewlines.bind fun _ => h.memberRow.map _
  ifStatement := ifStatement_echoes h
  whileStatement keyword := by
    simp only [Grammar.whileStatement]
    refine .expect _ _ fun _ _ => h.expression.bind fun _ => .expect _ _ fun _ _ => ?_
    exact h.statement.map _
  forStatement := forStatement_echoes h
  forInit := by
    simp only [Grammar.forInit]
    refine .accept _ (.pure _) (.acceptAny _ (fun keyword _ => ?_) ?_)
    · exact (h.variableDeclaration keyword).map _
    · exact h.expressionStatement.map _
  variableDeclaration := variableDeclaration_echoes h hn
  returnStatement keyword := by
    simp only [Grammar.returnStatement]
    refine .peek fun t _ => ?_
    split
    · exact (Echoes.pure _).bind fun _ => Echoes.statementEnd.map _
    · exact h.expression.bind fun _ => Echoes.statementEnd.map _
  indexAssignment := by
    simp only [Grammar.indexAssignment]
    refine .advance fun _ _ => Echoes.freshId.bind fun _ => .expect _ _ fun _ _ => ?_
    refine h.expression.bind fun _ => .expect _ _ fun _ _ => .expect _ _ fun _ _ => ?_
    exact h.expression.bind fun _ => Echoes.statementEnd.map _

theorem productionsEcho (hn : n ≤ n') : ProductionsEcho H n n' := by
  induction n generalizing n' with
  | zero => constructor <;> intros <;> exact .outOfFuel rfl
  | succ n ih =>
    obtain ⟨n', rfl⟩ := Nat.exists_eq_add_one_of_ne_zero (by omega : n' ≠ 0)
    exact productionsEcho_succ (by omega) (ih (by omega))

/-! ### Programs -/

theorem topStatement_echoes (hn : n ≤ n') : Echoes H (topStatement n) (topStatement n') :=
  (productionsEcho hn).statement.bind fun _ => Echoes.skipNewlines.map _

theorem SameToMark.length {ts ts' : List Token} (h : SameToMark H ts ts') :
    ts'.length + H.behind.length = ts.length + H.behind'.length := by
  induction h with
  | mark _ _ =>
    simp only [List.length_cons]
    omega
  | cons _ _ _ ih =>
    simp only [List.length_cons]
    omega

theorem programRow_echoes (hn : n ≤ n') : Echoes H (programRow n) (programRow n') := by
  intro c c' hc
  induction hlen : c.rest.length using Nat.strongRecOn generalizing c c' with
  | ind len ih =>
    subst hlen
    cases hend : c.atEnd with
    | true =>
      rw [programRow_atEnd hend, programRow_atEnd (hc.atEnd.trans hend)]
      exact .tree hc
    | false =>
      have hend' := hc.atEnd.trans hend
      have htop := topStatement_echoes hn c c' hc
      generalize hr : topStatement n c = r, hr' : topStatement n' c' = r' at htop
      cases htop with
      | outOfFuel =>
        rw [programRow_error hend hr]
        exact .outOfFuel
      | rejected he =>
        rw [programRow_error hend hr, programRow_error hend' hr']
        exact .rejected he
      | @tree s c₁ c₁' hc₁ =>
        have hlen := hc.rows.length
        have hlen₁ := hc₁.rows.length
        by_cases hlt : c₁.rest.length < c.rest.length
        · rw [programRow_cons hend hr hlt, programRow_cons hend' hr' (by omega)]
          have hrow := ih _ hlt _ _ hc₁ rfl
          generalize programRow n c₁ = r₁, programRow n' c₁' = r₁' at hrow
          cases hrow with
          | outOfFuel => exact .outOfFuel
          | rejected he => exact .rejected he
          | tree hd => exact .tree hd
        · rw [programRow_stuck hend hr hlt]
          exact .outOfFuel

end

/-- What a row comes to whose bound is not used up, as a row that agrees with it up to the first end
mark. -/
theorem parseFrom_echoes {H : Horizon} {ts ts' : List Token} (h : SameToMark H ts ts')
    (hlen : ts.length ≤ ts'.length) (i : NodeId) (hover : parseFrom i ts ≠ .error .outOfFuel) :
    parseFrom i ts' = parseFrom i ts ∧
      ∀ e, parseFrom i ts = .error (.rejected e) → H.seen e.token := by
  have hstart : ∀ {t : Token} {us us' : List Token}, H.seen t → SameToMark H (t :: us) (t :: us') →
      us.length ≤ us'.length → parseFrom i (t :: us) ≠ .error .outOfFuel →
      parseFrom i (t :: us') = parseFrom i (t :: us) ∧
        ∀ e, parseFrom i (t :: us) = .error (.rejected e) → H.seen e.token := by
    intro t us us' ht hrows hle hover
    have hbound : depthBound (us.length + 1) ≤ depthBound (us'.length + 1) := by
      unfold depthBound
      omega
    have hread := (Echoes.skipNewlines (H := H).bind fun _ => programRow_echoes hbound)
      ⟨t, t :: us, i⟩ ⟨t, t :: us', i⟩ ⟨hrows, ht, rfl, rfl⟩
    simp only [parseFrom, StateT.run] at hover ⊢
    generalize (do skipNewlines; programRow _ : Parse Program) ⟨t, t :: us, i⟩ = r,
      (do skipNewlines; programRow _ : Parse Program) ⟨t, t :: us', i⟩ = r' at hread hover ⊢
    cases hread with
    | outOfFuel => exact absurd rfl hover
    | rejected he =>
      refine ⟨rfl, fun e hr => ?_⟩
      obtain rfl := Failure.rejected.inj (Except.error.inj hr)
      exact he
    | tree hc =>
      refine ⟨?_, fun e hr => by cases hr⟩
      change Except.ok (_, _) = Except.ok (_, _)
      rw [hc.nextId]
  cases h with
  | mark ht hmark =>
    exact hstart ht (.mark ht hmark) (by simpa using hlen) hover
  | cons ht hne hrows =>
    exact hstart ht (.cons ht hne hrows) (by simpa using hlen) hover

end Grammar

open Grammar

/-- The tokens up to and with the first end mark. -/
def upToMark : List Token → List Token
  | [] => []
  | t :: ts => if t.kind = .endMark then [t] else t :: upToMark ts

theorem upToMark_subset {ts : List Token} {t : Token} (h : t ∈ upToMark ts) : t ∈ ts := by
  induction ts with
  | nil => exact h
  | cons u us ih =>
    rw [upToMark] at h
    split at h
    · exact List.mem_cons.2 (.inl (List.mem_singleton.1 h))
    · rcases List.mem_cons.1 h with rfl | h
      · exact List.mem_cons_self
      · exact List.mem_cons_of_mem u (ih h)

theorem mark_mem_upToMark {ts : List Token} (h : ∃ t ∈ ts, t.kind = .endMark) :
    ∃ t ∈ upToMark ts, t.kind = .endMark := by
  induction ts with
  | nil =>
    obtain ⟨t, ht, -⟩ := h
    cases ht
  | cons u us ih =>
    rw [upToMark]
    split
    · next hmark => exact ⟨u, List.mem_cons_self, hmark⟩
    · next hne =>
      obtain ⟨t, ht, hmark⟩ := h
      rcases List.mem_cons.1 ht with rfl | ht
      · exact absurd hmark hne
      · obtain ⟨v, hv, hvmark⟩ := ih ⟨t, ht, hmark⟩
        exact ⟨v, List.mem_cons_of_mem u hv, hvmark⟩

theorem upToMark_length (ts : List Token) : (upToMark ts).length ≤ ts.length := by
  induction ts with
  | nil => exact Nat.le_refl 0
  | cons u us ih =>
    rw [upToMark]
    split
    · simp
    · simpa using ih

/-- A row agrees with its tokens up to the first end mark. -/
theorem sameToMark_upToMark {ts : List Token} (h : ∃ t ∈ ts, t.kind = .endMark)
    {seen : Token → Prop} (hseen : ∀ t ∈ upToMark ts, seen t) :
    ∃ behind, SameToMark ⟨seen, [], behind⟩ (upToMark ts) ts := by
  induction ts with
  | nil =>
    obtain ⟨t, ht, -⟩ := h
    cases ht
  | cons u us ih =>
    rw [upToMark] at hseen ⊢
    split at hseen
    · next hmark =>
      rw [if_pos hmark]
      exact ⟨us, .mark (hseen u List.mem_cons_self) hmark⟩
    · next hne =>
      rw [if_neg hne]
      obtain ⟨hu, hus⟩ := List.forall_mem_cons.1 hseen
      have hmark : ∃ t ∈ us, t.kind = .endMark := by
        obtain ⟨t, ht, hmark⟩ := h
        rcases List.mem_cons.1 ht with rfl | ht
        · exact absurd hmark hne
        · exact ⟨t, ht, hmark⟩
      obtain ⟨behind, hrows⟩ := ih hmark hus
      exact ⟨behind, .cons hu hne hrows⟩

/-- Only the tokens up to the first end mark are read, and only with them is fault found. -/
theorem parseFrom_upToMark (i : NodeId) {ts : List Token} (h : ∃ t ∈ ts, t.kind = .endMark) :
    parseFrom i ts = parseFrom i (upToMark ts) ∧
      ∀ e, parseFrom i ts = .error (.rejected e) → e.token ∈ upToMark ts := by
  have hseen : ∀ t ∈ upToMark ts, (· ∈ upToMark ts) t := fun _ ht => ht
  obtain ⟨behind, hrows⟩ := sameToMark_upToMark h hseen
  obtain ⟨hsame, herror⟩ := parseFrom_echoes hrows (upToMark_length ts) i
    (parseFrom_ne_outOfFuel i (mark_mem_upToMark h))
  exact ⟨hsame, fun e he => herror e (hsame.symm.trans he)⟩

/-! ### Counting brackets -/

namespace Grammar

/-- `assignsAfterBracket` with a counter of open brackets that cannot fall below zero: there is no
answer where it would. -/
def countBrackets : Nat → List Token → Option Bool
  | _, [] => some false
  | depth, t :: rest =>
    match t.kind with
    | .leftBracket => countBrackets (depth + 1) rest
    | .rightBracket =>
      match depth with
      | 0 => none
      | 1 => some (rest.head?.any fun next => next.kind == .assign)
      | depth + 2 => countBrackets (depth + 1) rest
    | .newline | .semicolon | .endMark => some false
    | _ => countBrackets depth rest

/-- `Cursor.atIndexAssignment` with such a counter, which looks at the tokens from the one behind the
token in view on: there is no answer where that one would be outside the row. -/
def Cursor.countsToAssignment (c : Cursor) : Option Bool :=
  if c.check .name && c.checkNext .leftBracket then
    match c.rest with
    | [] => none
    | _ :: rest => countBrackets 0 rest
  else some false

theorem countBrackets_succ (depth : Nat) (ts : List Token) :
    countBrackets (depth + 1) ts = some (assignsAfterBracket (depth + 1) ts) := by
  induction ts generalizing depth with
  | nil => rfl
  | cons t rest ih =>
    simp only [countBrackets, assignsAfterBracket]
    generalize t.kind = kind
    cases kind with
    | leftBracket => exact ih (depth + 1)
    | rightBracket =>
      cases depth with
      | zero => cases rest <;> rfl
      | succ depth => simpa using ih depth
    | newline | semicolon | endMark => rfl
    | _ => exact ih depth

/-- The search starts at an opening bracket, so it never closes more brackets than have been
opened. -/
theorem countsToAssignment_eq (c : Cursor) :
    c.countsToAssignment = some c.atIndexAssignment := by
  unfold Cursor.countsToAssignment Cursor.atIndexAssignment
  split
  · next hstart =>
    obtain ⟨-, hnext⟩ := Bool.and_eq_true_iff.1 hstart
    obtain ⟨last, rest, nextId⟩ := c
    match rest with
    | [] => simp [Cursor.checkNext] at hnext
    | [_] => simp [Cursor.checkNext] at hnext
    | t :: u :: rest =>
      have hu : u.kind = .leftBracket := by simpa [Cursor.checkNext] using hnext
      simp only [hstart, Bool.true_and, List.tail_cons, countBrackets, assignsAfterBracket, hu]
      exact countBrackets_succ 0 rest
  · next hstart =>
    rw [Bool.not_eq_true] at hstart
    rw [hstart, Bool.false_and]

end Grammar

/-- A row of tokens with an end mark is a program or has a fault, at one of its tokens: the parser
comes to an end, and takes no token where none is left.  It is read up to the first end mark only.
No search for an assignment to an index looks outside its row or counts below zero. -/
theorem parseFrom_total_local (i : NodeId) {ts : List Token} (h : ∃ t ∈ ts, t.kind = .endMark) :
    ((∃ p j, parseFrom i ts = .ok (p, j)) ∨
      ∃ e, parseFrom i ts = .error (.rejected e) ∧ e.token ∈ ts) ∧
    (∀ ts', upToMark ts' = upToMark ts → parseFrom i ts' = parseFrom i ts) ∧
    ∀ c : Cursor, c.countsToAssignment = some c.atIndexAssignment := by
  obtain ⟨hread, htoken⟩ := parseFrom_upToMark i h
  refine ⟨?_, fun ts' hsame => ?_, countsToAssignment_eq⟩
  · cases hparse : parseFrom i ts with
    | ok r => exact .inl ⟨r.1, r.2, rfl⟩
    | error failure =>
      cases failure with
      | rejected e => exact .inr ⟨e, rfl, upToMark_subset (htoken e hparse)⟩
      | outOfRange | outOfFuel =>
        obtain ⟨e, he⟩ := parseFrom_decides h hparse
        cases he
  · obtain ⟨t, ht, hmark⟩ := mark_mem_upToMark h
    have h' : ∃ t ∈ ts', t.kind = .endMark := ⟨t, upToMark_subset (hsame ▸ ht), hmark⟩
    rw [hread, (parseFrom_upToMark i h').1, hsame]

/-- A name and an opening bracket before the end mark: the fault is at the end mark, whatever comes
behind it. -/
theorem parseFrom_local_open_bracket :
    ∃ e, e.token = Token.make .endMark "" 1 3 2 none ∧
      ∀ behind, parseFrom 0 (.make .name "x" 1 1 0 none :: .make .leftBracket "[" 1 2 1 none ::
        .make .endMark "" 1 3 2 none :: behind) = .error (.rejected e) := by
  have hparse : parseFrom 0 [.make .name "x" 1 1 0 none, .make .leftBracket "[" 1 2 1 none,
      .make .endMark "" 1 3 2 none] = .error (.rejected ⟨.expected .expression,
        .make .endMark "" 1 3 2 none⟩) := by cbv
  refine ⟨⟨.expected .expression, .make .endMark "" 1 3 2 none⟩, rfl, fun behind => ?_⟩
  have hends : ∃ t ∈ [Token.make .name "x" 1 1 0 none, .make .leftBracket "[" 1 2 1 none,
      .make .endMark "" 1 3 2 none], t.kind = .endMark := ⟨.make .endMark "" 1 3 2 none, by simp, rfl⟩
  rw [← hparse]
  exact (parseFrom_total_local 0 hends).2.1 _ rfl

end ScopedScript
