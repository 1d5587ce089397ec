import ScopedScript.Proofs.Alike
import ScopedScript.Proofs.Scope.Distances

/-! # Walks side by side

The scope analysis of two trees that are alike.  A `Walking` fixes which trees are alike, what is
known of the distances that the two walks have found, and what more the second walk knows: its
outermost layer may have names that the first one does not have.

If the second walk succeeds, so does the first, and the distances stay related; if nothing more is
known to the second walk, errors can be compared as well (`Walking.exact`).  Besides comparing two
programs this serves to compare the analysis of a program by itself with its analysis after another
one, and, with a program alike to itself, to bound what an analysis changes. -/

namespace ScopedScript

namespace Scope

/-- Layers of which the outermost has the names `extra` besides. -/
def Wider (extra : Layer) (ls ls' : List Layer) : Prop :=
  ls' = ls ∨ ∃ inner outermost, ls = inner ++ [outermost] ∧ ls' = inner ++ [outermost ++ extra]

/-- The distances with one added for a node, if there is one. -/
def put (D : Distances) (id : NodeId) : Option Nat → Distances
  | some d => D.insert id d
  | none => D

/-- What corresponds in two walks. -/
structure Walking extends TreeLikeness where
  /-- What the outermost layer of the second walk has besides. -/
  extra : Layer
  /-- How the distances are related. -/
  distances : Distances → Distances → Prop
  /-- Are errors compared? -/
  exact : Prop
  named : ∀ {t t' : Token}, name t t' → token t t'
  lexeme : ∀ {t t' : Token}, token t t' → t'.lexeme = t.lexeme
  whole : exact → extra = []
  found : ∀ {ctx : Surroundings} {n n' : Node} {id id' : NodeId} {t t' : Token}
    {D D' : Distances} {d d' : Option Nat}, node ctx n n' → n.reference? = some (id, t) →
      n'.reference? = some (id', t') → distances D D' → (extra = [] → d' = d) →
      distances (put D id d) (put D' id' d')

/-- A second walk that has nothing besides. -/
theorem Walking.nothing_besides (_ : True) : ([] : Layer) = [] := rfl

namespace Wider

variable {extra : Layer} {ls ls' : List Layer}

theorem eq (h : Wider extra ls ls') (hextra : extra = []) : ls' = ls := by
  rcases h with rfl | ⟨inner, outermost, rfl, rfl⟩
  · rfl
  · rw [hextra, List.append_nil]

theorem push (h : Wider extra ls ls') (layer : Layer) :
    Wider extra (layer :: ls) (layer :: ls') := by
  rcases h with rfl | ⟨inner, outermost, rfl, rfl⟩
  · exact .inl rfl
  · exact .inr ⟨layer :: inner, outermost, rfl, rfl⟩

theorem pop (h : Wider extra ls ls') : Wider extra ls.tail ls'.tail := by
  rcases h with rfl | ⟨inner, outermost, rfl, rfl⟩
  · exact .inl rfl
  · cases inner with
    | nil => exact .inl rfl
    | cons layer inner => exact .inr ⟨inner, outermost, rfl, rfl⟩

theorem add (h : Wider extra ls ls') (name : String) (ready : Bool) :
    Wider extra (addEntry name ready ls) (addEntry name ready ls') := by
  rcases h with rfl | ⟨inner, outermost, rfl, rfl⟩
  · exact .inl rfl
  · cases inner with
    | nil => exact .inr ⟨[], (name, ready) :: outermost, rfl, rfl⟩
    | cons layer inner => exact .inr ⟨((name, ready) :: layer) :: inner, outermost, rfl, rfl⟩

/-- The innermost layers: none, or the second one has what the first one has. -/
theorem innermost (h : Wider extra ls ls') :
    ls = [] ∧ ls' = [] ∨ ∃ layer outer layer' outer' more, ls = layer :: outer ∧
      ls' = layer' :: outer' ∧ layer' = layer ++ more ∧ (extra = [] → more = []) := by
  rcases h with rfl | ⟨inner, outermost, rfl, rfl⟩
  · cases ls' with
    | nil => exact .inl ⟨rfl, rfl⟩
    | cons layer outer =>
      exact .inr ⟨layer, outer, layer, outer, [], rfl, rfl, (List.append_nil _).symm, fun _ => rfl⟩
  · cases inner with
    | nil => exact .inr ⟨outermost, [], _, [], extra, rfl, rfl, rfl, id⟩
    | cons layer inner =>
      exact .inr ⟨layer, _, layer, _, [], rfl, rfl, (List.append_nil _).symm, fun _ => rfl⟩

theorem unready (h : Wider extra ls ls') {name : String} (hn : Scope.unready ls name = true) :
    Scope.unready ls' name = true := by
  obtain ⟨rfl, rfl⟩ | ⟨layer, outer, layer', outer', more, rfl, rfl, rfl, _⟩ := h.innermost
  · exact hn
  · have hl : layer.lookup name = some false := beq_iff_eq.1 hn
    simp [Scope.unready, List.lookup_append, hl]

end Wider

/-! ### Results -/

namespace Walking

variable (W : Walking)

/-- States of the two walks. -/
structure States (s s' : State) : Prop where
  layers : Wider W.extra s.layers s'.layers
  found : W.distances s.distances s'.distances

/-- What the two walks come to. -/
inductive Results : EStateM.Result ScopeError State Unit → EStateM.Result ScopeError State Unit → Prop
  | ok {s s' : State} : W.States s s' → Results (.ok () s) (.ok () s')
  | failed {r : EStateM.Result ScopeError State Unit} {e' : ScopeError} {s' : State} :
      (W.exact → ∃ e s, r = .error e s ∧ e'.fault = e.fault ∧ W.token e.token e'.token ∧
        W.distances s.distances s'.distances) → Results r (.error e' s')

/-- Two walks side by side. -/
structure Along (x x' : Walk Unit) : Prop where
  results : ∀ {s s'}, W.States s s' → W.Results (x s) (x' s')

namespace Along

variable {W} {x x' y y' : Walk Unit} {t t' : Token}

theorem nothing : W.Along (pure ()) (pure ()) := ⟨fun h => .ok h⟩

theorem seq (hx : W.Along x x') (hy : W.Along y y') : W.Along (do x; y) (do x'; y') := by
  refine ⟨fun {s s'} h => ?_⟩
  change W.Results (EStateM.bind x (fun _ => y) s) (EStateM.bind x' (fun _ => y') s')
  unfold EStateM.bind
  have hr := hx.results h
  generalize x s = r, x' s' = r' at hr
  cases hr with
  | ok h₁ => exact hy.results h₁
  | failed he =>
    refine .failed fun hexact => ?_
    obtain ⟨e, s, rfl, hee⟩ := he hexact
    exact ⟨e, s, rfl, hee⟩

theorem fail (ht : W.token t t') (fault : ScopeFault) :
    W.Along (Scope.fail t fault) (Scope.fail t' fault) :=
  ⟨fun h => .failed fun _ => ⟨_, _, rfl, rfl, ht, h.found⟩⟩

theorem define (ht : W.token t t') : W.Along (define t) (define t') := by
  refine ⟨fun {s s'} h => ?_⟩
  change W.Results (.ok () { s with layers := addEntry t.lexeme true s.layers })
    (.ok () { s' with layers := addEntry t'.lexeme true s'.layers })
  rw [W.lexeme ht]
  exact .ok ⟨h.layers.add _ _, h.found⟩

theorem declare (ht : W.token t t') : W.Along (declare t) (declare t') := by
  refine ⟨fun {s s'} h => ?_⟩
  obtain ⟨layers, D⟩ := s
  obtain ⟨layers', D'⟩ := s'
  have hadd := h.layers.add t.lexeme false
  obtain ⟨hn, hn'⟩ | ⟨layer, outer, layer', outer', more, hl, hl', hmore, hnone⟩ :=
    h.layers.innermost
  · obtain rfl : layers = [] := hn
    obtain rfl : layers' = [] := hn'
    exact .ok h
  · obtain rfl : layers = _ := hl
    obtain rfl : layers' = _ := hl'
    subst hmore
    change W.Results
      ((if layer.declares t.lexeme then
        (do Scope.fail t (.alreadyDeclared t.lexeme)
            set (⟨addEntry t.lexeme false (layer :: outer), D⟩ : State))
        else set (⟨addEntry t.lexeme false (layer :: outer), D⟩ : State) : Walk Unit) _)
      ((if Layer.declares (layer ++ more) t'.lexeme then
        (do Scope.fail t' (.alreadyDeclared t'.lexeme)
            set (⟨addEntry t'.lexeme false ((layer ++ more) :: outer'), D'⟩ : State))
        else set (⟨addEntry t'.lexeme false ((layer ++ more) :: outer'), D'⟩ : State) : Walk Unit) _)
    rw [W.lexeme ht]
    have hor : Layer.declares (layer ++ more) t.lexeme =
        (layer.declares t.lexeme || Layer.declares more t.lexeme) := List.any_append
    rw [hor]
    cases hd : layer.declares t.lexeme with
    | true =>
      rw [Bool.true_or, if_pos rfl, if_pos rfl]
      exact .failed fun _ => ⟨_, _, rfl, rfl, ht, h.found⟩
    | false =>
      rw [Bool.false_or, if_neg Bool.false_ne_true]
      split
      · next hd' =>
        refine .failed fun hexact => ?_
        rw [hnone (W.whole hexact)] at hd'
        cases hd'
      · exact .ok ⟨hadd, h.found⟩

section

variable {ctx : Surroundings} {n n' : Node} {id id' : NodeId}

theorem record_eq (id : NodeId) (t : Token) (s : State) : Scope.record id t s =
    .ok () ⟨s.layers, put s.distances id (distance? s.layers t.lexeme)⟩ := by
  change EStateM.Result.ok () (match distance? s.layers t.lexeme with
    | some d => { s with distances := s.distances.insert id d }
    | none => s) = _
  cases distance? s.layers t.lexeme <;> rfl

theorem record (hn : W.node ctx n n') (hr : n.reference? = some (id, t))
    (hr' : n'.reference? = some (id', t')) (ht : W.token t t') :
    W.Along (record id t) (record id' t') := by
  refine ⟨fun {s s'} h => ?_⟩
  rw [record_eq, record_eq, W.lexeme ht]
  refine .ok ⟨h.layers, W.found hn hr hr' h.found fun hextra => ?_⟩
  rw [h.layers.eq hextra]

theorem read (hn : W.node ctx n n') (hr : n.reference? = some (id, t))
    (hr' : n'.reference? = some (id', t')) (ht : W.token t t') :
    W.Along (read id t) (read id' t') := by
  refine ⟨fun {s s'} h => ?_⟩
  change W.Results ((if unready s.layers t.lexeme then _ else _ : Walk Unit) s)
    ((if unready s'.layers t'.lexeme then _ else _ : Walk Unit) s')
  rw [W.lexeme ht]
  by_cases hu : unready s.layers t.lexeme = true
  · rw [if_pos hu, if_pos (h.layers.unready hu)]
    exact .failed fun _ => ⟨_, _, rfl, rfl, ht, h.found⟩
  · rw [if_neg hu]
    split
    · next hu' =>
      refine .failed fun hexact => ?_
      rw [h.layers.eq (W.whole hexact)] at hu'
      exact absurd hu' hu
    · exact (record hn hr hr' ht).results h

end

theorem within (layer : Layer) (hx : W.Along x x') :
    W.Along (within layer x) (within layer x') := by
  refine ⟨fun {s s'} h => ?_⟩
  change W.Results
    (EStateM.bind x (fun _ => modify fun s => { s with layers := s.layers.tail })
      { s with layers := layer :: s.layers })
    (EStateM.bind x' (fun _ => modify fun s => { s with layers := s.layers.tail })
      { s' with layers := layer :: s'.layers })
  unfold EStateM.bind
  have hin : W.States { s with layers := layer :: s.layers }
      { s' with layers := layer :: s'.layers } := ⟨h.layers.push layer, h.found⟩
  have hr := hx.results hin
  generalize x { s with layers := layer :: s.layers } = r,
    x' { s' with layers := layer :: s'.layers } = r' at hr
  cases hr with
  | ok h₁ => exact .ok ⟨h₁.layers.pop, h₁.found⟩
  | failed he =>
    refine .failed fun hexact => ?_
    obtain ⟨e, s, rfl, hee⟩ := he hexact
    exact ⟨e, s, rfl, hee⟩

theorem params {ps ps' : List Parameter}
    (h : List.Forall₂ (Parameter.Alike W.toTreeLikeness) ps ps') :
    W.Along (declareParams ps) (declareParams ps') := by
  induction h with
  | nil => exact nothing
  | cons hp _ ih => exact (declare (W.named hp.left)).seq ((define (W.named hp.left)).seq ih)

end Along

/-! ### Trees -/

section

variable (W : Walking)

theorem methodBody_eq {ctx : Surroundings} {m m' : FunctionDecl}
    (h : m.Alike W.toTreeLikeness ctx m') : methodBody m' = methodBody m := by
  obtain ⟨name, params, body, result⟩ := m
  obtain ⟨name', params', body', result', rfl, ht, _⟩ := h
  change (if name'.lexeme = ClassDecl.constructorName then _ else _) = methodBody _
  rw [W.lexeme ht]
  rfl

mutual

theorem walkExpr_along {ctx : Surroundings} (k : Context) : (e : Expr) → {e' : Expr} →
    e.Alike W.toTreeLikeness ctx e' → W.Along (walkExpr k e) (walkExpr k e')
  | .grouping inner, _, h => by
    obtain ⟨_, inner', rfl, hi⟩ := h
    simp only [walkExpr]
    exact walkExpr_along k inner hi
  | .binary left _ right, _, h => by
    obtain ⟨_, left', operator', right', rfl, _, hl, hr⟩ := h
    simp only [walkExpr]
    exact (walkExpr_along k left hl).seq (walkExpr_along k right hr)
  | .unary _ operand, _, h => by
    obtain ⟨_, operator', operand', rfl, _, ho⟩ := h
    simp only [walkExpr]
    exact walkExpr_along k operand ho
  | .literal _ value, _, h => by
    obtain ⟨_, value', rfl, hv⟩ := h
    simp only [walkExpr]
    exact walkLiteral_along k value hv
  | .name id token, _, h => by
    obtain ⟨hn, id', token', rfl, ht⟩ := h
    simp only [walkExpr]
    exact .read hn rfl rfl (W.named ht)
  | .this id keyword, _, h => by
    obtain ⟨hn, id', keyword', rfl, ht⟩ := h
    simp only [walkExpr]
    cases k.inClass with
    | true => exact .record hn rfl rfl (W.named ht)
    | false => exact .seq (.fail (W.named ht) _) (.record hn rfl rfl (W.named ht))
  | .function _ declaration, _, h => by
    obtain ⟨_, token', declaration', rfl, _, hd⟩ := h
    simp only [walkExpr]
    exact walkFunction_along _ declaration hd
  | .call callee _ args, _, h => by
    obtain ⟨_, callee', paren', args', rfl, _, hc, ha⟩ := h
    simp only [walkExpr]
    exact (walkExpr_along k callee hc).seq (walkExprs_along k args ha)
  | .index id name index, _, h => by
    obtain ⟨hn, id', name', index', rfl, ht, hi⟩ := h
    simp only [walkExpr]
    exact .seq (.read hn rfl rfl (W.named ht)) (walkExpr_along k index hi)
  | .get object _, _, h => by
    obtain ⟨_, object', name', rfl, _, ho⟩ := h
    simp only [walkExpr]
    exact walkExpr_along k object ho
  | .set object _ value, _, h => by
    obtain ⟨_, object', name', value', rfl, _, ho, hv⟩ := h
    simp only [walkExpr]
    exact (walkExpr_along k value hv).seq (walkExpr_along k object ho)
  | .object _ entries, _, h => by
    obtain ⟨_, brace', entries', rfl, _, he⟩ := h
    simp only [walkExpr]
    exact walkEntries_along k entries he
  | .assign id name value, _, h => by
    obtain ⟨hn, id', name', value', rfl, ht, hv⟩ := h
    simp only [walkExpr]
    exact (walkExpr_along k value hv).seq (.record hn rfl rfl (W.named ht))
termination_by structural x => x

theorem walkExprs_along {ctx : Surroundings} (k : Context) : (es : List Expr) →
    {es' : List Expr} → exprsAlike W.toTreeLikeness ctx es es' →
    W.Along (walkExprs k es) (walkExprs k es')
  | [], _, h => by
    obtain rfl := h
    simp only [walkExprs]
    exact .nothing
  | e :: es, _, h => by
    obtain ⟨d, ds, rfl, hd, hds⟩ := h
    simp only [walkExprs]
    exact (walkExpr_along k e hd).seq (walkExprs_along k es hds)
termination_by structural x => x

theorem walkLiteral_along {ctx : Surroundings} (k : Context) : (v : LiteralValue) →
    {v' : LiteralValue} → v.Alike W.toTreeLikeness ctx v' →
    W.Along (walkLiteral k v) (walkLiteral k v')
  | .list elements, _, h => by
    obtain ⟨elements', rfl, hes⟩ := h
    simp only [walkLiteral]
    exact walkExprs_along k elements hes
  | .num _, _, h | .str _, _, h | .bool _, _, h | .null, _, h | .undefined, _, h
  | .emptyObject, _, h => by
    obtain rfl := h
    simp only [walkLiteral]
    exact .nothing
termination_by structural x => x

theorem walkEntries_along {ctx : Surroundings} (k : Context) : (es : List Entry) →
    {es' : List Entry} → entriesAlike W.toTreeLikeness ctx es es' →
    W.Along (walkEntries k es) (walkEntries k es')
  | [], _, h => by
    obtain rfl := h
    simp only [walkEntries]
    exact .nothing
  | .mk _ value :: es, _, h => by
    obtain ⟨key', value', ds, rfl, _, hv, hds⟩ := h
    simp only [walkEntries]
    exact (walkExpr_along k value hv).seq (walkEntries_along k es hds)
termination_by structural x => x

theorem walkStmt_along {ctx : Surroundings} {sure : Bool} (k : Context) : (s : Stmt) →
    {s' : Stmt} → s.Alike W.toTreeLikeness sure ctx s' → W.Along (walkStmt k s) (walkStmt k s')
  | .empty, _, h => by
    obtain ⟨_, rfl⟩ := h
    simp only [walkStmt]
    exact .nothing
  | .block statements, _, h => by
    obtain ⟨_, statements', rfl, hss⟩ := h
    simp only [walkStmt]
    exact (walkStmts_along k statements hss).within []
  | .expression e _, _, h => by
    obtain ⟨_, e', token', rfl, _, he⟩ := h
    simp only [walkStmt]
    exact walkExpr_along k e he
  | .variable name _ _ init, _, h => by
    obtain ⟨_, name', ty', init', rfl, ht, _, hi⟩ := h
    simp only [walkStmt]
    exact .seq (.declare (W.named ht))
      ((walkOption_along k init hi).seq (.define (W.named ht)))
  | .indexAssign id name index value, _, h => by
    obtain ⟨hn, id', name', index', value', rfl, ht, hi, hv⟩ := h
    simp only [walkStmt]
    exact (walkExpr_along k index hi).seq
      ((walkExpr_along k value hv).seq (.record hn rfl rfl (W.named ht)))
  | .functionDecl (.mk name params body result), _, h => by
    obtain ⟨_, declaration', rfl, hd⟩ := h
    simp only [walkStmt]
    have hwalk := walkFunction_along { k with body := .function } (.mk name params body result) hd
    obtain ⟨name', params', body', result', rfl, ht, _⟩ := hd
    exact .seq (.declare ht) (.seq (.define ht) hwalk)
  | .cond _ condition thenBranch elseBranch, _, h => by
    obtain ⟨_, keyword', condition', thenBranch', elseBranch', rfl, _, hc, ht, he⟩ := h
    simp only [walkStmt]
    exact (walkExpr_along k condition hc).seq
      ((walkStmt_along k thenBranch ht).seq (walkOption_along k elseBranch he))
  | .loop condition body _, _, h => by
    obtain ⟨_, condition', body', token', rfl, _, hc, hb⟩ := h
    simp only [walkStmt]
    exact (walkExpr_along k condition hc).seq (walkStmt_along k body hb)
  | .returns keyword value, _, h => by
    obtain ⟨_, keyword', value', rfl, ht, hv⟩ := h
    simp only [walkStmt]
    cases k.body with
    | program | constructor => exact .fail ht _
    | function | method => exact walkStmt_along k value hv
  | .object properties, _, h => by
    obtain ⟨_, properties', rfl, hps⟩ := h
    simp only [walkStmt]
    exact walkProperties_along k properties hps
  | .classDecl declaration, _, h => by
    obtain ⟨_, declaration', rfl, hd⟩ := h
    simp only [walkStmt]
    exact walkClass_along k declaration hd
termination_by structural x => x

theorem walkOption_along {ctx : Surroundings} {sure : Bool} (k : Context) : (o : Option Stmt) →
    {o' : Option Stmt} → optionAlike W.toTreeLikeness sure ctx o o' →
    W.Along (walkOption k o) (walkOption k o')
  | none, _, h => by
    obtain rfl := h
    simp only [walkOption]
    exact .nothing
  | some s, _, h => by
    obtain ⟨s', rfl, hs⟩ := h
    simp only [walkOption]
    exact walkStmt_along k s hs
termination_by structural x => x

theorem walkStmts_along {ctx : Surroundings} {sure : Bool} (k : Context) : (ss : List Stmt) →
    {ss' : List Stmt} → stmtsAlike W.toTreeLikeness sure ctx ss ss' →
    W.Along (walkStmts k ss) (walkStmts k ss')
  | [], _, h => by
    obtain rfl := h
    simp only [walkStmts]
    exact .nothing
  | s :: ss, _, h => by
    obtain ⟨t, ts, rfl, ht, hts⟩ := h
    simp only [walkStmts]
    exact (walkStmt_along k s ht).seq (walkStmts_along k ss hts)
termination_by structural x => x

theorem walkProperties_along {ctx : Surroundings} {sure : Bool} (k : Context) :
    (ps : List StmtEntry) → {ps' : List StmtEntry} →
    propertiesAlike W.toTreeLikeness sure ctx ps ps' →
    W.Along (walkProperties k ps) (walkProperties k ps')
  | [], _, h => by
    obtain rfl := h
    simp only [walkProperties]
    exact .nothing
  | .mk _ s :: ps, _, h => by
    obtain ⟨key', t, ts, rfl, _, ht, hts⟩ := h
    simp only [walkProperties]
    exact (walkStmt_along k s ht).seq (walkProperties_along k ps hts)
termination_by structural x => x

theorem walkFunction_along {ctx : Surroundings} (k : Context) : (f : FunctionDecl) →
    {f' : FunctionDecl} → f.Alike W.toTreeLikeness ctx f' →
    W.Along (walkFunction k f) (walkFunction k f')
  | .mk _ params body _, _, h => by
    obtain ⟨name', params', body', result', rfl, _, hps, _, _, hb⟩ := h
    simp only [walkFunction]
    exact .within [] (.seq (.params hps) (walkStmts_along k body hb))
termination_by structural x => x

theorem walkClass_along {ctx : Surroundings} (k : Context) : (c : ClassDecl) →
    {c' : ClassDecl} → c.Alike W.toTreeLikeness ctx c' → W.Along (walkClass k c) (walkClass k c')
  | .mk _ methods fields, _, h => by
    obtain ⟨name', methods', fields', rfl, ht, hfs, hms⟩ := h
    simp only [walkClass]
    exact .seq (.declare ht) (.seq (.define ht)
      (.within _ ((walkFields_along _ fields hfs).seq (walkMethods_along _ methods hms))))
termination_by structural x => x

theorem walkFields_along {ctx : Surroundings} (k : Context) : (fs : List FieldDecl) →
    {fs' : List FieldDecl} → fieldsAlike W.toTreeLikeness ctx fs fs' →
    W.Along (walkFields k fs) (walkFields k fs')
  | [], _, h => by
    obtain rfl := h
    simp only [walkFields]
    exact .nothing
  | .mk _ _ init :: fs, _, h => by
    obtain ⟨name', ty', init', gs, rfl, _, _, hi, hgs⟩ := h
    simp only [walkFields]
    exact (walkExpr_along k init hi).seq (walkFields_along k fs hgs)
termination_by structural x => x

theorem walkMethods_along {ctx : Surroundings} (k : Context) : (ms : List FunctionDecl) →
    {ms' : List FunctionDecl} → methodsAlike W.toTreeLikeness ctx ms ms' →
    W.Along (walkMethods k ms) (walkMethods k ms')
  | [], _, h => by
    obtain rfl := h
    simp only [walkMethods]
    exact .nothing
  | m :: ms, _, h => by
    obtain ⟨n, ns, rfl, hm, hms⟩ := h
    simp only [walkMethods]
    rw [methodBody_eq W hm]
    exact (walkFunction_along _ m hm).seq (walkMethods_along k ms hms)
termination_by structural x => x

end

/-! ### Programs -/

/-- What two analyses come to. -/
inductive Analyses :
    Except ScopeError Unit × Distances → Except ScopeError Unit × Distances → Prop
  | ok {E E' : Distances} : W.distances E E' → Analyses (.ok (), E) (.ok (), E')
  | failed {r : Except ScopeError Unit × Distances} {e' : ScopeError} {E' : Distances} :
      (W.exact → ∃ e E, r = (.error e, E) ∧ e'.fault = e.fault ∧ W.token e.token e'.token ∧
        W.distances E E') → Analyses r (.error e', E')

theorem resolve_along {ctx : Surroundings} {sure : Bool} {p p' : Program} {D D' : Distances}
    (h : stmtsAlike W.toTreeLikeness sure ctx p p') (hD : W.distances D D') :
    W.Analyses (resolve D p) (resolve D' p') := by
  have hstart : W.States ⟨[], D⟩ ⟨[], D'⟩ := ⟨.inl rfl, hD⟩
  have hr := ((walkStmts_along W ⟨.program, false⟩ p h).within []).results hstart
  unfold resolve
  generalize Scope.within [] (walkStmts ⟨.program, false⟩ p) ⟨[], D⟩ = r,
    Scope.within [] (walkStmts ⟨.program, false⟩ p') ⟨[], D'⟩ = r' at hr
  cases hr with
  | ok h => exact .ok h.found
  | failed he =>
    refine .failed fun hexact => ?_
    obtain ⟨e, s, rfl, hfault, ht, hfound⟩ := he hexact
    exact ⟨e, s.distances, rfl, hfault, ht, hfound⟩

end

end Walking

end Scope

end ScopedScript
