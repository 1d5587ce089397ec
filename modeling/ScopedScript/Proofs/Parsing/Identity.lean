import ScopedScript.Proofs.Parsing.Programs

/-! # Trees that are the same

Trees correspond up to a likeness of their tokens, annotations and node numbers.  Where the
likeness relates each of these only to itself (`TreeLikeness.Identifies`), corresponding trees are
equal; so trees made side by side from the same tokens, with the same numbers, are the same
(`stmtsMade_eq`). -/

namespace ScopedScript

/-- Only the same tokens, annotations and node numbers correspond. -/
structure TreeLikeness.Identifies (L : TreeLikeness) : Prop where
  token : ∀ {t t'}, L.token t t' → t' = t
  name : ∀ {t t'}, L.name t t' → t' = t
  annotation : ∀ {a a'}, L.annotation a a' → a' = a
  node : ∀ {ctx n n' id id' t t'}, L.node ctx n n' → n.reference? = some (id, t) →
    n'.reference? = some (id', t') → id' = id
  spelled : L.spelled := by exact trivial

section

variable {L : TreeLikeness}

theorem Parameter.Alike.eq (h : L.Identifies) {p p' : Parameter} (hp : p.Alike L p') : p' = p := by
  obtain ⟨name, ty, left, right⟩ := p
  obtain ⟨name', ty', left', right'⟩ := p'
  obtain ⟨hname, hname', hleft, hty⟩ := hp
  obtain rfl : left' = left := h.name hleft
  obtain ⟨rfl, rfl⟩ := Prod.mk.inj (h.annotation hty)
  obtain rfl : name = left'.lexeme := hname h.spelled
  obtain rfl : name' = left'.lexeme := hname' h.spelled
  rfl

theorem paramsAlike_eq (h : L.Identifies) {ps ps' : List Parameter}
    (hps : List.Forall₂ (Parameter.Alike L) ps ps') :
    ps' = ps := by
  induction hps with
  | nil => rfl
  | cons hp _ ih => rw [hp.eq h, ih]

mutual

theorem Expr.Alike.eq (h : L.Identifies) {ctx : Surroundings} :
    (e : Expr) → {e' : Expr} → e.Alike L ctx e' → e' = e
  | .grouping inner, _, ⟨_, inner', he, hi⟩ => by
    rw [he, Expr.Alike.eq h inner hi]
  | .binary left operator right, _, ⟨_, left', operator', right', he, ht, hl, hr⟩ => by
    rw [he, h.token ht, Expr.Alike.eq h left hl, Expr.Alike.eq h right hr]
  | .unary operator operand, _, ⟨_, operator', operand', he, ht, ho⟩ => by
    rw [he, h.token ht, Expr.Alike.eq h operand ho]
  | .literal kind value, _, ⟨_, value', he, hv⟩ => by
    rw [he, LiteralValue.Alike.eq h value hv]
  | .name id token, _, ⟨hn, id', token', he, ht⟩ => by
    subst he
    rw [h.node hn rfl rfl, h.name ht]
  | .this id keyword, _, ⟨hn, id', keyword', he, ht⟩ => by
    subst he
    rw [h.node hn rfl rfl, h.name ht]
  | .function token declaration, _, ⟨_, token', declaration', he, ht, hd⟩ => by
    rw [he, h.token ht, FunctionDecl.Alike.eq h declaration hd]
  | .call callee paren args, _, ⟨_, callee', paren', args', he, ht, hc, ha⟩ => by
    rw [he, h.token ht, Expr.Alike.eq h callee hc, exprsAlike_eq h args ha]
  | .index id name index, _, ⟨hn, id', name', index', he, ht, hi⟩ => by
    subst he
    rw [h.node hn rfl rfl, h.name ht, Expr.Alike.eq h index hi]
  | .get object name, _, ⟨_, object', name', he, ht, ho⟩ => by
    rw [he, h.token ht, Expr.Alike.eq h object ho]
  | .set object name value, _, ⟨_, object', name', value', he, ht, ho, hv⟩ => by
    rw [he, h.token ht, Expr.Alike.eq h object ho, Expr.Alike.eq h value hv]
  | .object brace entries, _, ⟨_, brace', entries', he, ht, hes⟩ => by
    rw [he, h.token ht, entriesAlike_eq h entries hes]
  | .assign id name value, _, ⟨hn, id', name', value', he, ht, hv⟩ => by
    subst he
    rw [h.node hn rfl rfl, h.name ht, Expr.Alike.eq h value hv]
termination_by structural x => x

theorem exprsAlike_eq (h : L.Identifies) {ctx : Surroundings} :
    (es : List Expr) → {es' : List Expr} → exprsAlike L ctx es es' → es' = es
  | [], _, hes => hes
  | e :: es, _, ⟨d, ds, he, hd, hds⟩ => by rw [he, Expr.Alike.eq h e hd, exprsAlike_eq h es hds]
termination_by structural x => x

theorem LiteralValue.Alike.eq (h : L.Identifies) {ctx : Surroundings} :
    (v : LiteralValue) → {v' : LiteralValue} → v.Alike L ctx v' → v' = v
  | .list elements, _, ⟨elements', he, hes⟩ => by rw [he, exprsAlike_eq h elements hes]
  | .num _, _, he | .str _, _, he | .bool _, _, he | .null, _, he | .undefined, _, he
  | .emptyObject, _, he => he
termination_by structural x => x

theorem entriesAlike_eq (h : L.Identifies) {ctx : Surroundings} :
    (es : List Entry) → {es' : List Entry} → entriesAlike L ctx es es' → es' = es
  | [], _, hes => hes
  | .mk key value :: es, _, ⟨key', value', ds, he, ht, hv, hds⟩ => by
    rw [he, h.token ht, Expr.Alike.eq h value hv, entriesAlike_eq h es hds]
termination_by structural x => x

theorem Stmt.Alike.eq (h : L.Identifies) {sure : Bool} {ctx : Surroundings} :
    (s : Stmt) → {s' : Stmt} → s.Alike L sure ctx s' → s' = s
  | .empty, _, ⟨_, he⟩ => he
  | .block statements, _, ⟨_, statements', he, hss⟩ => by
    rw [he, stmtsAlike_eq h statements hss]
  | .expression e token, _, ⟨_, e', token', he, ht, hx⟩ => by
    rw [he, h.token ht, Expr.Alike.eq h e hx]
  | .variable name kind ty init, _, ⟨_, name', ty', init', he, ht, hty, ho⟩ => by
    rw [he, h.name ht, (Prod.mk.inj (h.annotation hty)).1, optionAlike_eq h init ho]
  | .indexAssign id name index value, _, ⟨hn, id', name', index', value', he, ht, hi, hv⟩ => by
    subst he
    rw [h.node hn rfl rfl, h.name ht, Expr.Alike.eq h index hi, Expr.Alike.eq h value hv]
  | .functionDecl declaration, _, ⟨_, declaration', he, hd⟩ => by
    rw [he, FunctionDecl.Alike.eq h declaration hd]
  | .cond keyword condition thenBranch elseBranch, _,
      ⟨_, keyword', condition', thenBranch', elseBranch', he, ht, hc, hb, ho⟩ => by
    rw [he, h.token ht, Expr.Alike.eq h condition hc, Stmt.Alike.eq h thenBranch hb,
      optionAlike_eq h elseBranch ho]
  | .loop condition body token, _, ⟨_, condition', body', token', he, ht, hc, hb⟩ => by
    rw [he, h.token ht, Expr.Alike.eq h condition hc, Stmt.Alike.eq h body hb]
  | .returns keyword value, _, ⟨_, keyword', value', he, ht, hv⟩ => by
    rw [he, h.token ht, Stmt.Alike.eq h value hv]
  | .object properties, _, ⟨_, properties', he, hps⟩ => by
    rw [he, propertiesAlike_eq h properties hps]
  | .classDecl declaration, _, ⟨_, declaration', he, hd⟩ => by
    rw [he, ClassDecl.Alike.eq h declaration hd]
termination_by structural x => x

theorem optionAlike_eq (h : L.Identifies) {sure : Bool} {ctx : Surroundings} :
    (o : Option Stmt) → {o' : Option Stmt} → optionAlike L sure ctx o o' → o' = o
  | none, _, ho => ho
  | some s, _, ⟨s', he, hs⟩ => by rw [he, Stmt.Alike.eq h s hs]
termination_by structural x => x

theorem stmtsAlike_eq (h : L.Identifies) {sure : Bool} {ctx : Surroundings} :
    (ss : List Stmt) → {ss' : List Stmt} → stmtsAlike L sure ctx ss ss' → ss' = ss
  | [], _, hss => hss
  | s :: ss, _, ⟨t, ts, he, ht, hts⟩ => by rw [he, Stmt.Alike.eq h s ht, stmtsAlike_eq h ss hts]
termination_by structural x => x

theorem propertiesAlike_eq (h : L.Identifies) {sure : Bool} {ctx : Surroundings} :
    (ps : List StmtEntry) → {ps' : List StmtEntry} → propertiesAlike L sure ctx ps ps' → ps' = ps
  | [], _, hps => hps
  | .mk key s :: ps, _, ⟨key', t, ts, he, hkey, ht, hts⟩ => by
    rw [he, h.token hkey, Stmt.Alike.eq h s ht, propertiesAlike_eq h ps hts]
termination_by structural x => x

theorem FunctionDecl.Alike.eq (h : L.Identifies) {ctx : Surroundings} :
    (f : FunctionDecl) → {f' : FunctionDecl} → f.Alike L ctx f' → f' = f
  | .mk name params body result, _,
      ⟨name', params', body', result', he, ht, hps, hty, _, hb⟩ => by
    rw [he, h.token ht, paramsAlike_eq h hps, (Prod.mk.inj (h.annotation hty)).1,
      stmtsAlike_eq h body hb]
termination_by structural x => x

theorem ClassDecl.Alike.eq (h : L.Identifies) {ctx : Surroundings} :
    (c : ClassDecl) → {c' : ClassDecl} → c.Alike L ctx c' → c' = c
  | .mk name methods fields, _, ⟨name', methods', fields', he, ht, hfs, hms⟩ => by
    rw [he, h.token ht, fieldsAlike_eq h fields hfs, methodsAlike_eq h methods hms]
termination_by structural x => x

theorem fieldsAlike_eq (h : L.Identifies) {ctx : Surroundings} :
    (fs : List FieldDecl) → {fs' : List FieldDecl} → fieldsAlike L ctx fs fs' → fs' = fs
  | [], _, hfs => hfs
  | .mk name ty init :: fs, _, ⟨name', ty', init', gs, he, ht, hty, hi, hgs⟩ => by
    rw [he, h.token ht, (Prod.mk.inj (h.annotation hty)).1, Expr.Alike.eq h init hi,
      fieldsAlike_eq h fs hgs]
termination_by structural x => x

theorem methodsAlike_eq (h : L.Identifies) {ctx : Surroundings} :
    (ms : List FunctionDecl) → {ms' : List FunctionDecl} → methodsAlike L ctx ms ms' → ms' = ms
  | [], _, hms => hms
  | m :: ms, _, ⟨n, ns, he, hn, hns⟩ => by
    rw [he, FunctionDecl.Alike.eq h m hn, methodsAlike_eq h ms hns]
termination_by structural x => x

end

end

/-- Trees made side by side from the same tokens, with the same numbers, are the same. -/
theorem shifting_identifies {token : Token → Token → Prop} (h : ∀ {t t'}, token t t' → t' = t) :
    (shifting token 0).Identifies where
  token := h
  name := h
  annotation ha := ha fun _ _ => h
  node hn hr hr' := by
    obtain ⟨-, t₁, ht₁, -⟩ := hn.1 _ _ hr
    exact (Prod.mk.inj (Option.some.inj (hr'.symm.trans ht₁))).1

theorem stmtsMade_same {token : Token → Token → Prop} (htoken : ∀ {t t'}, token t t' → t' = t)
    {i j : Nat} {ss ss' : List Stmt} (h : stmtsMade token 0 i j ss ss') : ss' = ss :=
  stmtsAlike_eq (shifting_identifies htoken) ss (h true .top).1

theorem stmtsMade_eq {i j : Nat} {ss ss' : List Stmt} (h : stmtsMade Eq 0 i j ss ss') : ss' = ss :=
  stmtsMade_same Eq.symm h

end ScopedScript
