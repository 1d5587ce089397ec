import ScopedScript.Grammar.Annotation
import ScopedScript.Proofs.Parsing.Rules

/-! # Annotations and parameters, read side by side

The productions for annotations use up no numbers of variable nodes and keep cursors in step.  Those
that read a row of parts up to a bracket may escape: at the end mark they yield the parts so far,
and it is their user that misses the bracket. -/

namespace ScopedScript.Grammar

open Reading

/-- Productions that keep cursors in step, use up no numbers, and read the same. -/
def Keeps (G : Reading) {α : Type} (esc : Cursor → α → Prop) (x x' : Parse α) : Prop :=
  ∀ ⦃c c' : Cursor⦄, G.Step c c' → Reads G esc G.Step
    (fun j a a' => j = c.nextId ∧ Kept G.token a a') (x c) (x' c')

/-- What is known of the productions for annotations with bounds `n` and `n'`. -/
structure AnnotationsKeep (G : Reading) (n n' : Nat) : Prop where
  arrayRest : ∀ {ty ty'}, Kept G.token ty ty' → Keeps G never (arrayRest n ty) (arrayRest n' ty')
  optional : Keeps G never (annotated n) (annotated n')
  unionType : Keeps G never (unionType n) (unionType n')
  unionRest : Keeps G never (unionRest n) (unionRest n')
  intersectionType : Keeps G never (intersectionType n) (intersectionType n')
  intersectionRest : Keeps G never (intersectionRest n) (intersectionRest n')
  arrayType : Keeps G never (arrayType n) (arrayType n')
  primaryType : Keeps G never (primaryType n) (primaryType n')
  typeArguments : Keeps G never (typeArguments n) (typeArguments n')
  tupleElements : Keeps G (outside G) (tupleElements n) (tupleElements n')
  typeEntries : Keeps G (outside G) (typeEntries n) (typeEntries n')
  parameters : ∀ {c c'}, G.Step c c' → Reads G never G.Step
    (fun j ps ps' => j = c.nextId ∧
      List.Forall₂ (Parameter.Made G.token G.shift) ps ps')
    (parameters n c) (parameters n' c')
  parameterRow : ∀ (count : Nat) {c c'}, G.Step c c' →
    Reads G (outside G) G.Step
      (fun j ps ps' => j = c.nextId ∧
        List.Forall₂ (Parameter.Made G.token G.shift) ps ps')
      (parameterRow n count c) (parameterRow n' count c')

section

variable {G : Reading} {n n' : Nat} {c c' : Cursor}

theorem arrayRest_keeps (h : AnnotationsKeep G n n') {ty ty' : Ty} (hty : Kept G.token ty ty') :
    Keeps G never (arrayRest (n + 1) ty) (arrayRest (n' + 1) ty') := by
  intro c c' hc
  change Reads G never G.Step _
    ((if c.check .leftBracket && c.checkNext .rightBracket then _ else _ : Parse Ty) c)
    ((if c'.check .leftBracket && c'.checkNext .rightBracket then _ else _ : Parse Ty) c')
  have hcheck : (c'.check .leftBracket && c'.checkNext .rightBracket) =
      (c.check .leftBracket && c.checkNext .rightBracket) := by
    rw [hc.check (by decide)]
    cases hb : c.check .leftBracket with
    | false => rfl
    | true => rw [hc.checkNext (Reads.atEnd_of_check hb) (by decide) (by decide)]
  rw [hcheck]
  split
  · next hb =>
    obtain ⟨hb, hnext⟩ := Bool.and_eq_true_iff.1 hb
    refine Reads.advanceTwice hc (Reads.atEnd_of_check hb) hnext (by decide) ?_
    intro c₁ c₁' hc₁ hj
    exact hj ▸ h.arrayRest (hty.map Ty.array) hc₁
  · exact .pure hc ⟨rfl, hty⟩

theorem annotation_keeps (h : AnnotationsKeep G n n') :
    Keeps G never (annotated (n + 1)) (annotated (n' + 1)) := by
  intro c c' hc
  simp only [annotated]
  refine (Reads.accept hc (by decide)).bind ?_
  rintro _ b c₁ c₁' hc₁ ⟨hj₁, rfl⟩
  cases b with
  | false => exact .pure hc₁ ⟨hj₁, .rfl⟩
  | true =>
    refine (h.unionType hc₁).bind ?_
    rintro ty ty' c₂ c₂' hc₂ ⟨hj₂, hty⟩
    exact .pure hc₂ ⟨hj₂.trans hj₁, hty.map some⟩

/-- A row of members after the first one. -/
theorem members_kept {ty ty' : Ty} (hty : Kept G.token ty ty') {more more' : List Ty}
    (hmore : Kept G.token more more') (f : List Ty → Ty) :
    Kept G.token (if more.isEmpty then ty else f (ty :: more))
      (if more'.isEmpty then ty' else f (ty' :: more')) :=
  hty.map₂ hmore fun ty more => if more.isEmpty then ty else f (ty :: more)

theorem unionType_keeps (h : AnnotationsKeep G n n') :
    Keeps G never (unionType (n + 1)) (unionType (n' + 1)) := by
  intro c c' hc
  simp only [unionType]
  refine (h.intersectionType hc).bind ?_
  rintro ty ty' c₁ c₁' hc₁ ⟨hj₁, hty⟩
  refine (h.unionRest hc₁).bind ?_
  rintro more more' c₂ c₂' hc₂ ⟨hj₂, hmore⟩
  exact .pure hc₂ ⟨hj₂.trans hj₁, members_kept hty hmore .union⟩

theorem unionRest_keeps (h : AnnotationsKeep G n n') :
    Keeps G never (unionRest (n + 1)) (unionRest (n' + 1)) := by
  intro c c' hc
  simp only [unionRest]
  refine (Reads.accept hc (by decide)).bind ?_
  rintro _ b c₁ c₁' hc₁ ⟨hj₁, rfl⟩
  cases b with
  | false => exact .pure hc₁ ⟨hj₁, .rfl⟩
  | true =>
    refine (h.intersectionType hc₁).bind ?_
    rintro ty ty' c₂ c₂' hc₂ ⟨hj₂, hty⟩
    refine (h.unionRest hc₂).bind ?_
    rintro more more' c₃ c₃' hc₃ ⟨hj₃, hmore⟩
    exact .pure hc₃ ⟨hj₃.trans (hj₂.trans hj₁), hty.map₂ hmore List.cons⟩

theorem intersectionType_keeps (h : AnnotationsKeep G n n') :
    Keeps G never (intersectionType (n + 1)) (intersectionType (n' + 1)) := by
  intro c c' hc
  simp only [intersectionType]
  refine (h.arrayType hc).bind ?_
  rintro ty ty' c₁ c₁' hc₁ ⟨hj₁, hty⟩
  refine (h.intersectionRest hc₁).bind ?_
  rintro more more' c₂ c₂' hc₂ ⟨hj₂, hmore⟩
  exact .pure hc₂ ⟨hj₂.trans hj₁, members_kept hty hmore .intersection⟩

theorem intersectionRest_keeps (h : AnnotationsKeep G n n') :
    Keeps G never (intersectionRest (n + 1)) (intersectionRest (n' + 1)) := by
  intro c c' hc
  simp only [intersectionRest]
  refine (Reads.accept hc (by decide)).bind ?_
  rintro _ b c₁ c₁' hc₁ ⟨hj₁, rfl⟩
  cases b with
  | false => exact .pure hc₁ ⟨hj₁, .rfl⟩
  | true =>
    refine (h.arrayType hc₁).bind ?_
    rintro ty ty' c₂ c₂' hc₂ ⟨hj₂, hty⟩
    refine (h.intersectionRest hc₂).bind ?_
    rintro more more' c₃ c₃' hc₃ ⟨hj₃, hmore⟩
    exact .pure hc₃ ⟨hj₃.trans (hj₂.trans hj₁), hty.map₂ hmore List.cons⟩

theorem arrayType_keeps (h : AnnotationsKeep G n n') :
    Keeps G never (arrayType (n + 1)) (arrayType (n' + 1)) := by
  intro c c' hc
  simp only [arrayType]
  refine (h.primaryType hc).bind ?_
  rintro ty ty' c₁ c₁' hc₁ ⟨hj₁, hty⟩
  exact hj₁ ▸ h.arrayRest hty hc₁

theorem typeArguments_keeps (h : AnnotationsKeep G n n') :
    Keeps G never (typeArguments (n + 1)) (typeArguments (n' + 1)) := by
  intro c c' hc
  simp only [typeArguments]
  refine (h.unionType hc).bind ?_
  rintro ty ty' c₁ c₁' hc₁ ⟨hj₁, hty⟩
  refine (Reads.accept hc₁ (by decide)).bind ?_
  rintro _ b c₂ c₂' hc₂ ⟨hj₂, rfl⟩
  cases b with
  | false => exact .pure hc₂ ⟨hj₂.trans hj₁, hty.map ([·])⟩
  | true =>
    refine (h.typeArguments hc₂).bind ?_
    rintro more more' c₃ c₃' hc₃ ⟨hj₃, hmore⟩
    exact .pure hc₃ ⟨hj₃.trans (hj₂.trans hj₁), hty.map₂ hmore List.cons⟩

theorem tupleElements_keeps (h : AnnotationsKeep G n n') :
    Keeps G (outside G) (tupleElements (n + 1)) (tupleElements (n' + 1)) := by
  intro c c' hc
  simp only [tupleElements]
  refine Reads.row hc ⟨rfl, .rfl⟩ ?_
  refine (h.unionType hc).bind ?_
  rintro ty ty' c₁ c₁' hc₁ ⟨hj₁, hty⟩
  refine (Reads.accept hc₁ (by decide)).bind ?_
  rintro _ b c₂ c₂' hc₂ ⟨hj₂, rfl⟩
  cases b with
  | false => exact .pure hc₂ ⟨hj₂.trans hj₁, hty.map ([·])⟩
  | true =>
    refine (h.tupleElements hc₂).bindEscaping (fun _ _ hlost _ => .escaped hlost) ?_
    rintro more more' c₃ c₃' hc₃ ⟨hj₃, hmore⟩
    exact .pure hc₃ ⟨hj₃.trans (hj₂.trans hj₁), hty.map₂ hmore List.cons⟩

theorem typeEntries_idles (hc : G.Lost c) : Idles (typeEntries n) c := by
  cases n with
  | zero => exact .inl ⟨_, rfl⟩
  | succ n =>
    rw [typeEntries]
    exact .inr ⟨_, Reads.row_lost hc _ _ _⟩

theorem typeEntries_keeps (h : AnnotationsKeep G n n') :
    Keeps G (outside G) (typeEntries (n + 1)) (typeEntries (n' + 1)) := by
  intro c c' hc
  simp only [typeEntries]
  refine Reads.row hc ⟨rfl, .rfl⟩ ?_
  refine (Reads.expect hc _).bind ?_
  rintro name name' c₁ c₁' hc₁ ⟨hj₁, hname⟩
  refine (Reads.expect hc₁ _).bind ?_
  rintro _ _ c₂ c₂' hc₂ ⟨hj₂, _⟩
  refine (h.unionType hc₂).bind ?_
  rintro ty ty' c₃ c₃' hc₃ ⟨hj₃, hty⟩
  rcases hc₃.sameView with ⟨_, hcheck⟩ | hlost
  · refine (Reads.acceptAny_same hc₃ (by simp only [List.any, hcheck])).bind ?_
    rintro _ _ c₄ c₄' hc₄ ⟨hj₄, _⟩
    refine (Reads.skipNewlines hc₄).bind ?_
    rintro _ _ c₅ c₅' (hc₅ | hpast) hj₅
    · refine (h.typeEntries hc₅).bindEscaping (fun _ _ hlost _ => .escaped hlost) ?_
      rintro more more' c₆ c₆' hc₆ ⟨hj₆, hmore⟩
      rw [lexeme_eq hname]
      exact .pure hc₆ ⟨by rw [hj₆, hj₅, hj₄, hj₃, hj₂, hj₁],
        hty.map₂ hmore fun ty more => .mk name.lexeme ty :: more⟩
    · exact Reads.row_rest hpast.lost (typeEntries_idles hpast.lost) _
  · rw [Reads.bind_ok (Reads.acceptAny_lost hlost _),
      Reads.bind_ok (Reads.skipNewlines_lost hlost)]
    exact Reads.row_rest hlost (typeEntries_idles hlost) _

/-- The entries of an object type and its closing brace. -/
theorem objectType_keeps (h : AnnotationsKeep G n n') :
    Keeps G never
      (do skipNewlines
          let entries ← typeEntries n
          let _ ← expect .rightBrace .objectTypeClose
          return Ty.object entries)
      (do skipNewlines
          let entries ← typeEntries n'
          let _ ← expect .rightBrace .objectTypeClose
          return Ty.object entries) := by
  intro c c' hc
  refine (Reads.skipNewlines hc).bind ?_
  rintro _ _ c₁ c₁' (hc₁ | hpast) hj₁
  · refine (h.typeEntries hc₁).bindEscaping
      (fun _ _ hlost _ => .lost hlost (Reads.bind_error (Reads.expect_lost hlost _ _))) ?_
    rintro entries entries' c₂ c₂' hc₂ ⟨hj₂, hentries⟩
    refine (Reads.expect hc₂ _).bind ?_
    rintro _ _ c₃ c₃' hc₃ ⟨hj₃, _⟩
    exact .pure hc₃ ⟨hj₃.trans (hj₂.trans hj₁), hentries.map Ty.object⟩
  · exact .lost hpast.lost (Reads.row_expect hpast.lost (typeEntries_idles hpast.lost) _ _ _)

theorem primaryType_keeps (h : AnnotationsKeep G n n') :
    Keeps G never (primaryType (n + 1)) (primaryType (n' + 1)) := by
  intro c c' hc
  simp only [primaryType]
  refine (Reads.acceptAny hc (by decide)).bind ?_
  rintro _ _ c₁ c₁' hc₁ ⟨hj₁, hab⟩
  cases hab with
  | some ht =>
    dsimp only
    rw [lexeme_eq ht, kind_eq ht]
    exact .pure hc₁ ⟨hj₁, .rfl⟩
  | none =>
    refine (Reads.acceptAny hc₁ (by decide)).bind ?_
    rintro _ _ c₂ c₂' hc₂ ⟨hj₂, hab⟩
    rw [← hj₁, ← hj₂]
    cases hab with
    | some ht =>
      dsimp only
      rw [lexeme_eq ht]
      refine (Reads.accept hc₂ (by decide)).bind ?_
      rintro _ b c₃ c₃' hc₃ ⟨hj₃, rfl⟩
      rw [← hj₃]
      cases b with
      | false => exact .pure hc₃ ⟨rfl, .rfl⟩
      | true =>
        refine (h.typeArguments hc₃).bind ?_
        rintro args args' c₄ c₄' hc₄ ⟨hj₄, hargs⟩
        refine (Reads.expect hc₄ _).bind ?_
        rintro _ _ c₅ c₅' hc₅ ⟨hj₅, _⟩
        exact .pure hc₅ ⟨hj₅.trans hj₄, hargs.map (Ty.generic _)⟩
    | none =>
      refine (Reads.accept hc₂ (by decide)).bind ?_
      rintro _ b c₃ c₃' hc₃ ⟨hj₃, rfl⟩
      rw [← hj₃]
      cases b with
      | true =>
        refine (h.parameters hc₃).bind ?_
        rintro ps ps' c₄ c₄' hc₄ ⟨hj₄, hps⟩
        refine (Reads.expect hc₄ _).bind ?_
        rintro _ _ c₅ c₅' hc₅ ⟨hj₅, _⟩
        refine (h.unionType hc₅).bind ?_
        rintro ty ty' c₆ c₆' hc₆ ⟨hj₆, hty⟩
        exact .pure hc₆ ⟨hj₆.trans (hj₅.trans hj₄), (params_kept hps).map₂ hty Ty.function⟩
      | false =>
        refine (Reads.accept hc₃ (by decide)).bind ?_
        rintro _ b c₄ c₄' hc₄ ⟨hj₄, rfl⟩
        rw [← hj₄]
        cases b with
        | true =>
          refine (h.tupleElements hc₄).bindEscaping
            (fun _ _ hlost _ => .lost hlost (Reads.bind_error (Reads.expect_lost hlost _ _))) ?_
          rintro elements elements' c₅ c₅' hc₅ ⟨hj₅, helements⟩
          refine (Reads.expect hc₅ _).bind ?_
          rintro _ _ c₆ c₆' hc₆ ⟨hj₆, _⟩
          exact .pure hc₆ ⟨hj₆.trans hj₅, helements.map Ty.tuple⟩
        | false =>
          refine (Reads.accept hc₄ (by decide)).bind ?_
          rintro _ b c₅ c₅' hc₅ ⟨hj₅, rfl⟩
          rw [← hj₅]
          cases b with
          | true => exact .pure hc₅ ⟨rfl, .rfl⟩
          | false =>
            refine (Reads.accept hc₅ (by decide)).bind ?_
            rintro _ b c₆ c₆' hc₆ ⟨hj₆, rfl⟩
            rw [← hj₆]
            cases b with
            | false => exact .failExpecting hc₆ _
            | true => exact objectType_keeps h hc₆

theorem parameterRow_lost (hc : G.Lost c) (count : Nat) :
    ∃ e, parameterRow n count c = .error e := by
  cases n with
  | zero => exact ⟨_, rfl⟩
  | succ n =>
    rw [parameterRow, Reads.bind_ok (Reads.skipNewlines_lost hc)]
    dsimp only
    split
    · exact ⟨_, rfl⟩
    · exact Reads.bind_error (Reads.expect_lost hc _ _)

theorem parameterRow_keeps (hG : G.taken) (h : AnnotationsKeep G n n') (count : Nat) (hc : G.Step c c') :
    Reads G (outside G) G.Step
      (fun j ps ps' => j = c.nextId ∧
        List.Forall₂ (Parameter.Made G.token G.shift) ps ps')
      (parameterRow (n + 1) count c) (parameterRow (n' + 1) count c') := by
  simp only [parameterRow]
  refine (Reads.skipNewlines hc).bind ?_
  rintro _ _ c₁ c₁' (hc₁ | hpast) hj₁
  · split
    · refine (Reads.peek hc₁).bind ?_
      rintro t t' _ _ ⟨rfl, rfl⟩ ht
      exact .bind (P := fun _ _ _ => False) (S := G.Step) (.failAt ht _) fun _ _ _ _ _ h => h.elim
    · refine (Reads.expectKind hc₁ _).bind ?_
      rintro left left' c₂ c₂' ⟨hc₂, -⟩ ⟨hj₂, ht, hkind⟩
      refine (h.optional hc₂).bind ?_
      rintro ty ty' c₃ c₃' hc₃ ⟨hj₃, hty⟩
      refine Reads.get ?_
      have hj : c₃.nextId = c.nextId := hj₃.trans (hj₂.trans hj₁)
      have hparam : Parameter.Made G.token G.shift
          (.mk left.lexeme ty left (ty.map fun _ => c₃.last))
          (.mk left'.lexeme ty' left' (ty'.map fun _ => c₃'.last)) :=
        ⟨⟨fun _ => rfl, fun _ => rfl, ht,
          fun heq => by rw [hty heq, heq _ _ (hc₃.last (.inr hG))]; rfl⟩, hkind⟩
      refine (Reads.skipNewlines hc₃).bind ?_
      rintro _ _ c₄ c₄' (hc₄ | hpast) hj₄
      · refine (Reads.accept hc₄ (by decide)).bind ?_
        rintro _ b c₅ c₅' hc₅ ⟨hj₅, rfl⟩
        have hj' : c₅.nextId = c.nextId := hj₅.trans (hj₄.trans hj)
        cases b with
        | false => exact .pure hc₅ ⟨hj', .cons hparam .nil⟩
        | true =>
          refine (h.parameterRow (count + 1) hc₅).bindEscaping (fun _ _ hlost _ => .escaped hlost) ?_
          rintro ps ps' c₆ c₆' hc₆ ⟨hj₆, hps⟩
          exact .pure hc₆ ⟨hj₆.trans hj', .cons hparam hps⟩
      · rw [Reads.bind_ok (Reads.accept_lost hpast.lost _)]
        exact .escaped hpast.lost
  · split
    · exact .lost hpast.lost ⟨_, rfl⟩
    · exact .lost hpast.lost (Reads.bind_error (Reads.expect_lost hpast.lost _ _))

theorem parameters_keeps (h : AnnotationsKeep G n n') (hc : G.Step c c') :
    Reads G never G.Step
      (fun j ps ps' => j = c.nextId ∧
        List.Forall₂ (Parameter.Made G.token G.shift) ps ps')
      (parameters (n + 1) c) (parameters (n' + 1) c') := by
  simp only [parameters]
  refine (Reads.skipNewlines hc).bind ?_
  rintro _ _ c₁ c₁' (hc₁ | hpast) hj₁
  · refine Reads.get ?_
    rw [hc₁.check (by decide)]
    have hclose {ps ps' : List Parameter} {c₂ c₂' : Cursor} (hc₂ : G.Step c₂ c₂')
        (hj₂ : c₂.nextId = c₁.nextId)
        (hps : List.Forall₂ (Parameter.Made G.token G.shift) ps ps') :
        Reads G never G.Step (fun j ps ps' => j = c.nextId ∧
            List.Forall₂ (Parameter.Made G.token G.shift) ps ps')
          ((do let _ ← expect .rightParen .parametersClose; return ps) c₂)
          ((do let _ ← expect .rightParen .parametersClose; return ps') c₂') := by
      refine (Reads.expect hc₂ _).bind ?_
      rintro _ _ c₃ c₃' hc₃ ⟨hj₃, _⟩
      exact .pure hc₃ ⟨hj₃.trans (hj₂.trans hj₁), hps⟩
    split
    · exact hclose hc₁ rfl .nil
    · refine (h.parameterRow 0 hc₁).bindEscaping
        (fun _ _ hlost _ => .lost hlost (Reads.bind_error (Reads.expect_lost hlost _ _))) ?_
      rintro ps ps' c₂ c₂' hc₂ ⟨hj₂, hps⟩
      exact hclose hc₂ hj₂ hps
  · have hlost := hpast.lost
    refine .lost hlost ?_
    change ∃ e, (if c₁.check .rightParen then _ else _ : Parse (List Parameter)) c₁ = .error e
    rw [hlost.check, if_neg Bool.false_ne_true]
    exact Reads.bind_error (parameterRow_lost hlost 0)

/-- The productions for annotations keep cursors in step, once a token has been taken. -/
theorem annotationsKeep (hG : G.taken) {n n' : Nat} (hb : G.Bounds n n') :
    AnnotationsKeep G n n' := by
  induction n generalizing n' with
  | zero =>
    exact {
      arrayRest := fun {_ ty'} _ _ _ _ => .outOfFuel (x := fun n => arrayRest n ty') hb rfl
      optional := fun _ _ _ => .outOfFuel (x := annotated) hb rfl
      unionType := fun _ _ _ => .outOfFuel (x := unionType) hb rfl
      unionRest := fun _ _ _ => .outOfFuel (x := unionRest) hb rfl
      intersectionType := fun _ _ _ => .outOfFuel (x := intersectionType) hb rfl
      intersectionRest := fun _ _ _ => .outOfFuel (x := intersectionRest) hb rfl
      arrayType := fun _ _ _ => .outOfFuel (x := arrayType) hb rfl
      primaryType := fun _ _ _ => .outOfFuel (x := primaryType) hb rfl
      typeArguments := fun _ _ _ => .outOfFuel (x := typeArguments) hb rfl
      tupleElements := fun _ _ _ => .outOfFuel (x := tupleElements) hb rfl
      typeEntries := fun _ _ _ => .outOfFuel (x := typeEntries) hb rfl
      parameters := fun _ => .outOfFuel (x := parameters) hb rfl
      parameterRow := fun count _ _ _ => .outOfFuel (x := fun n => parameterRow n count) hb rfl }
  | succ n ih =>
    obtain ⟨k, rfl, hk⟩ := hb.succ
    have h := ih hk
    exact {
      arrayRest := arrayRest_keeps h
      optional := annotation_keeps h
      unionType := unionType_keeps h
      unionRest := unionRest_keeps h
      intersectionType := intersectionType_keeps h
      intersectionRest := intersectionRest_keeps h
      arrayType := arrayType_keeps h
      primaryType := primaryType_keeps h
      typeArguments := typeArguments_keeps h
      tupleElements := tupleElements_keeps h
      typeEntries := typeEntries_keeps h
      parameters := parameters_keeps h
      parameterRow := fun count _ _ hc => parameterRow_keeps hG h count hc }

/-- An annotation after a token. -/
theorem annotation_read {n n' : Nat} (hb : G.Bounds n n') (hc : G.Step c c')
    (hlast : G.token c.last c'.last) :
    Reads G never G.Step (fun j ty ty' => j = c.nextId ∧ Kept G.token ty ty') (annotated n c)
      (annotated n' c') :=
  ((annotationsKeep (G := G.further) trivial hb).optional (hc.further hlast)).ofFurther

/-- Parameters and the annotation of a result, after a token. -/
theorem signature_read {n n' : Nat} (hb : G.Bounds n n') (hc : G.Step c c')
    (hlast : G.token c.last c'.last) :
    Reads G never G.Step (fun j s s' => j = c.nextId ∧
        List.Forall₂ (Parameter.Made G.token G.shift) s.1 s'.1 ∧
        Kept G.token s.2 s'.2)
      ((do let params ← parameters n
           let result ← annotated n
           return (params, result)) c)
      ((do let params ← parameters n'
           let result ← annotated n'
           return (params, result)) c') := by
  have h := annotationsKeep (G := G.further) trivial hb
  refine Reads.ofFurther ((h.parameters (hc.further hlast)).bind ?_)
  rintro ps ps' c₁ c₁' hc₁ ⟨hj₁, hps⟩
  refine (h.optional hc₁).bind ?_
  rintro ty ty' c₂ c₂' hc₂ ⟨hj₂, hty⟩
  exact .pure hc₂ ⟨hj₂.trans hj₁, hps, hty⟩

end

end ScopedScript.Grammar
