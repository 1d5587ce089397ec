import ScopedScript.Proofs.Paraphrases.Trees
import ScopedScript.Proofs.Scope.SideBySide

/-! # The scope analysis of paraphrases

Programs that say the same are both accepted by the scope analysis, or both refused for the same
fault at the same word (`resolve_paraphrase`): the walk passes through groupings, and goes by the
words of tokens.  The distances that it finds are compared elsewhere, by the places of nodes. -/

namespace ScopedScript

namespace Scope

/-- Walks of which only the errors are compared, by the words at which they are. -/
def Walking.byWords : Walking where
  token := Token.SameWord
  name := Token.SameWord
  annotation _ _ := True
  function _ _ := True
  node _ _ _ := True
  extra := []
  distances _ _ := True
  exact := True
  named h := h
  lexeme h := h.lexeme
  whole := Walking.nothing_besides
  found _ _ _ _ _ := trivial

/-- The walk passes through groupings. -/
theorem walkExpr_bare (k : Context) (e : Expr) : walkExpr k e.bare = walkExpr k e := by
  cases e with
  | grouping inner =>
    simp only [walkExpr]
    exact walkExpr_bare k inner
  | _ => rfl
termination_by structural e

namespace Walking

variable {link : NodeId → NodeId → Prop}

theorem methodBody_paraphrase {m m' : FunctionDecl} (h : m.Paraphrases link m') :
    methodBody m' = methodBody m := by
  unfold methodBody
  rw [h.name.lexeme]

section

variable {t t' : Token}

theorem record_byWords (id id' : NodeId) (ht : t.SameWord t') :
    byWords.Along (record id t) (record id' t') :=
  have hnode : byWords.node .top (.expr (.name id t)) (.expr (.name id' t')) := trivial
  .record hnode rfl rfl ht

theorem read_byWords (id id' : NodeId) (ht : t.SameWord t') :
    byWords.Along (read id t) (read id' t') :=
  have hnode : byWords.node .top (.expr (.name id t)) (.expr (.name id' t')) := trivial
  .read hnode rfl rfl ht

theorem params_byWords {ps ps' : List Parameter} (h : List.Forall₂ Parameter.Paraphrases ps ps') :
    byWords.Along (declareParams ps) (declareParams ps') := by
  induction h with
  | nil => exact .nothing
  | cons hp _ ih => exact .seq (.declare hp.left) (.seq (.define hp.left) ih)

end

mutual

theorem walkExpr_byWords (k : Context) : (e : Expr) → {e' : Expr} → e.Paraphrases link e' →
    byWords.Along (walkExpr k e) (walkExpr k e')
  | .grouping inner, _, h => by
    simp only [walkExpr]
    exact walkExpr_byWords k inner h
  | .binary left _ right, e', ⟨_, _, _, he, _, hl, hr⟩ => by
    rw [← walkExpr_bare k e', he]
    simp only [walkExpr]
    exact (walkExpr_byWords k left hl).seq (walkExpr_byWords k right hr)
  | .unary _ operand, e', ⟨_, _, he, _, ho⟩ => by
    rw [← walkExpr_bare k e', he]
    simp only [walkExpr]
    exact walkExpr_byWords k operand ho
  | .literal _ value, e', ⟨_, he, hv⟩ => by
    rw [← walkExpr_bare k e', he]
    simp only [walkExpr]
    exact walkLiteral_byWords k value hv
  | .name id _, e', ⟨id', _, he, _, ht⟩ => by
    rw [← walkExpr_bare k e', he]
    simp only [walkExpr]
    exact read_byWords id id' ht
  | .this id keyword, e', ⟨id', _, he, _, ht⟩ => by
    rw [← walkExpr_bare k e', he]
    simp only [walkExpr]
    cases k.inClass with
    | true => exact record_byWords id id' ht
    | false => exact .seq (.fail ht _) (record_byWords id id' ht)
  | .function _ declaration, e', ⟨_, _, he, _, hd⟩ => by
    rw [← walkExpr_bare k e', he]
    simp only [walkExpr]
    exact walkFunction_byWords _ declaration hd
  | .call callee _ args, e', ⟨_, _, _, he, _, hc, ha⟩ => by
    rw [← walkExpr_bare k e', he]
    simp only [walkExpr]
    exact (walkExpr_byWords k callee hc).seq (walkExprs_byWords k args ha)
  | .index id _ index, e', ⟨id', _, _, he, _, ht, hi⟩ => by
    rw [← walkExpr_bare k e', he]
    simp only [walkExpr]
    exact (read_byWords id id' ht).seq (walkExpr_byWords k index hi)
  | .get object _, e', ⟨_, _, he, _, ho⟩ => by
    rw [← walkExpr_bare k e', he]
    simp only [walkExpr]
    exact walkExpr_byWords k object ho
  | .set object _ value, e', ⟨_, _, _, he, _, ho, hv⟩ => by
    rw [← walkExpr_bare k e', he]
    simp only [walkExpr]
    exact (walkExpr_byWords k value hv).seq (walkExpr_byWords k object ho)
  | .object _ entries, e', ⟨_, _, he, _, hes⟩ => by
    rw [← walkExpr_bare k e', he]
    simp only [walkExpr]
    exact walkEntries_byWords k entries hes
  | .assign id _ value, e', ⟨id', _, _, he, _, ht, hv⟩ => by
    rw [← walkExpr_bare k e', he]
    simp only [walkExpr]
    exact (walkExpr_byWords k value hv).seq (record_byWords id id' ht)
termination_by structural x => x

theorem walkExprs_byWords (k : Context) : (es : List Expr) → {es' : List Expr} →
    exprsParaphrase link es es' → byWords.Along (walkExprs k es) (walkExprs k es')
  | [], _, he => by
    rw [he]
    simp only [walkExprs]
    exact .nothing
  | e :: es, _, ⟨d, ds, he, hd, hds⟩ => by
    rw [he]
    simp only [walkExprs]
    exact (walkExpr_byWords k e hd).seq (walkExprs_byWords k es hds)
termination_by structural x => x

theorem walkLiteral_byWords (k : Context) : (v : LiteralValue) → {v' : LiteralValue} →
    v.Paraphrases link v' → byWords.Along (walkLiteral k v) (walkLiteral k v')
  | .list elements, _, ⟨_, he, hes⟩ => by
    rw [he]
    simp only [walkLiteral]
    exact walkExprs_byWords k elements hes
  | .num _, _, he | .str _, _, he | .bool _, _, he | .null, _, he | .undefined, _, he
  | .emptyObject, _, he => by
    rw [he]
    simp only [walkLiteral]
    exact .nothing
termination_by structural x => x

theorem walkEntries_byWords (k : Context) : (es : List Entry) → {es' : List Entry} →
    entriesParaphrase link es es' → byWords.Along (walkEntries k es) (walkEntries k es')
  | [], _, he => by
    rw [he]
    simp only [walkEntries]
    exact .nothing
  | .mk _ value :: es, _, ⟨_, _, _, he, _, hv, hds⟩ => by
    rw [he]
    simp only [walkEntries]
    exact (walkExpr_byWords k value hv).seq (walkEntries_byWords k es hds)
termination_by structural x => x

theorem walkStmt_byWords (k : Context) : (s : Stmt) → {s' : Stmt} → s.Paraphrases link s' →
    byWords.Along (walkStmt k s) (walkStmt k s')
  | .empty, _, he => by
    rw [he]
    simp only [walkStmt]
    exact .nothing
  | .block statements, _, ⟨_, he, hss⟩ => by
    rw [he]
    simp only [walkStmt]
    exact (walkStmts_byWords k statements hss).within []
  | .expression e _, _, ⟨_, _, heq, _, he⟩ => by
    rw [heq]
    simp only [walkStmt]
    exact walkExpr_byWords k e he
  | .variable name _ _ init, _, ⟨_, _, _, he, ht, hi⟩ => by
    rw [he]
    simp only [walkStmt]
    exact .seq (.declare ht) ((walkOption_byWords k init hi).seq (.define ht))
  | .indexAssign id name index value, _, ⟨id', _, _, _, he, _, ht, hi, hv⟩ => by
    rw [he]
    simp only [walkStmt]
    exact (walkExpr_byWords k index hi).seq
      ((walkExpr_byWords k value hv).seq (record_byWords id id' ht))
  | .functionDecl declaration, _, ⟨_, he, hd⟩ => by
    rw [he]
    simp only [walkStmt]
    exact .seq (.declare hd.name) (.seq (.define hd.name) (walkFunction_byWords _ declaration hd))
  | .cond _ condition thenBranch elseBranch, _, ⟨_, _, _, _, he, _, hc, hb, ho⟩ => by
    rw [he]
    simp only [walkStmt]
    exact (walkExpr_byWords k condition hc).seq
      ((walkStmt_byWords k thenBranch hb).seq (walkOption_byWords k elseBranch ho))
  | .loop condition body _, _, ⟨_, _, _, he, _, hc, hb⟩ => by
    rw [he]
    simp only [walkStmt]
    exact (walkExpr_byWords k condition hc).seq (walkStmt_byWords k body hb)
  | .returns keyword value, _, ⟨_, _, he, ht, hv⟩ => by
    rw [he]
    simp only [walkStmt]
    cases k.body with
    | program | constructor => exact .fail ht _
    | function | method => exact walkStmt_byWords k value hv
  | .object properties, _, ⟨_, he, hps⟩ => by
    rw [he]
    simp only [walkStmt]
    exact walkProperties_byWords k properties hps
  | .classDecl declaration, _, ⟨_, he, hd⟩ => by
    rw [he]
    simp only [walkStmt]
    exact walkClass_byWords k declaration hd
termination_by structural x => x

theorem walkOption_byWords (k : Context) : (o : Option Stmt) → {o' : Option Stmt} →
    optionParaphrase link o o' → byWords.Along (walkOption k o) (walkOption k o')
  | none, _, he => by
    rw [he]
    simp only [walkOption]
    exact .nothing
  | some s, _, ⟨_, he, hs⟩ => by
    rw [he]
    simp only [walkOption]
    exact walkStmt_byWords k s hs
termination_by structural x => x

theorem walkStmts_byWords (k : Context) : (ss : List Stmt) → {ss' : List Stmt} →
    stmtsParaphrase link ss ss' → byWords.Along (walkStmts k ss) (walkStmts k ss')
  | [], _, he => by
    rw [he]
    simp only [walkStmts]
    exact .nothing
  | s :: ss, _, ⟨t, ts, he, ht, hts⟩ => by
    rw [he]
    simp only [walkStmts]
    exact (walkStmt_byWords k s ht).seq (walkStmts_byWords k ss hts)
termination_by structural x => x

theorem walkProperties_byWords (k : Context) : (ps : List StmtEntry) → {ps' : List StmtEntry} →
    propertiesParaphrase link ps ps' → byWords.Along (walkProperties k ps) (walkProperties k ps')
  | [], _, he => by
    rw [he]
    simp only [walkProperties]
    exact .nothing
  | .mk _ s :: ps, _, ⟨_, _, _, he, _, ht, hts⟩ => by
    rw [he]
    simp only [walkProperties]
    exact (walkStmt_byWords k s ht).seq (walkProperties_byWords k ps hts)
termination_by structural x => x

theorem walkFunction_byWords (k : Context) : (f : FunctionDecl) → {f' : FunctionDecl} →
    f.Paraphrases link f' → byWords.Along (walkFunction k f) (walkFunction k f')
  | .mk _ _ body _, _, ⟨_, _, _, _, he, _, hps, hb⟩ => by
    rw [he]
    simp only [walkFunction]
    exact .within [] (.seq (params_byWords hps) (walkStmts_byWords k body hb))
termination_by structural x => x

theorem walkClass_byWords (k : Context) : (c : ClassDecl) → {c' : ClassDecl} →
    c.Paraphrases link c' → byWords.Along (walkClass k c) (walkClass k c')
  | .mk _ methods fields, _, ⟨_, _, _, he, ht, hfs, hms⟩ => by
    rw [he]
    simp only [walkClass]
    exact .seq (.declare ht) (.seq (.define ht)
      (.within _ ((walkFields_byWords _ fields hfs).seq (walkMethods_byWords _ methods hms))))
termination_by structural x => x

theorem walkFields_byWords (k : Context) : (fs : List FieldDecl) → {fs' : List FieldDecl} →
    fieldsParaphrase link fs fs' → byWords.Along (walkFields k fs) (walkFields k fs')
  | [], _, he => by
    rw [he]
    simp only [walkFields]
    exact .nothing
  | .mk _ _ init :: fs, _, ⟨_, _, _, _, he, _, hi, hgs⟩ => by
    rw [he]
    simp only [walkFields]
    exact (walkExpr_byWords k init hi).seq (walkFields_byWords k fs hgs)
termination_by structural x => x

theorem walkMethods_byWords (k : Context) : (ms : List FunctionDecl) → {ms' : List FunctionDecl} →
    methodsParaphrase link ms ms' → byWords.Along (walkMethods k ms) (walkMethods k ms')
  | [], _, he => by
    rw [he]
    simp only [walkMethods]
    exact .nothing
  | m :: ms, _, ⟨n, ns, he, hn, hns⟩ => by
    rw [he]
    simp only [walkMethods]
    rw [methodBody_paraphrase hn]
    exact (walkFunction_byWords _ m hn).seq (walkMethods_byWords k ms hns)
termination_by structural x => x

end

end Walking

end Scope

/-- What the analyses of two programs come to: both programs are accepted, or both are refused for
the same fault at the same word. -/
inductive SameVerdict : Except ScopeError Unit → Except ScopeError Unit → Prop
  | accepted : SameVerdict (.ok ()) (.ok ())
  | refused (fault : ScopeFault) {t t' : Token} : t.SameWord t' →
      SameVerdict (.error ⟨fault, t⟩) (.error ⟨fault, t'⟩)

/-- Programs that say the same have the same verdict. -/
theorem resolve_paraphrase {link : NodeId → NodeId → Prop} {p p' : Program}
    (h : stmtsParaphrase link p p') (D D' : Distances) :
    SameVerdict (resolve D p).1 (resolve D' p').1 := by
  have hstart : Scope.Walking.byWords.States ⟨[], D⟩ ⟨[], D'⟩ := ⟨.inl rfl, trivial⟩
  have hr := ((Scope.Walking.walkStmts_byWords ⟨.program, false⟩ p h).within []).results hstart
  unfold resolve
  generalize Scope.within [] (Scope.walkStmts ⟨.program, false⟩ p) ⟨[], D⟩ = r,
    Scope.within [] (Scope.walkStmts ⟨.program, false⟩ p') ⟨[], D'⟩ = r' at hr
  cases hr with
  | ok => exact .accepted
  | @failed _ e' _ he =>
    obtain ⟨⟨fault, t⟩, s, rfl, hfault, ht, _⟩ := he trivial
    obtain ⟨fault', t'⟩ := e'
    obtain rfl : fault' = fault := hfault
    exact .refused _ ht

end ScopedScript
