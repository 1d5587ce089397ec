import Mathlib
import ScopedScript.Proofs.Scope.Renaming
import ScopedScript.Proofs.Sessions.Reports

/-! # Runs of a renamed program

Giving a local variable another name does not change what a program does.

* The run of a program goes in lockstep with the run of the renamed program by the likeness
  `Likeness.renaming`: in frames of the region that is hit the variables have their other names, and
  the nodes that find their variables in such a frame are the renamed ones.
* To start with, the machine has to be alike to itself by this likeness: what is on it has to come
  from programs in which the site does not occur (`Session.Untouched`).  The site is on a line of
  the source that is run now, and earlier programs have earlier lines (`Session.Untouched.after`).
* The result is `Session.renaming_invisible`. -/

namespace ScopedScript

/-! ### Alike runs -/

namespace Renaming

/-- The token stays, or it is one of the variable and gets the new name. -/
def Names (ρ : Renaming) (t t' : Token) : Prop :=
  t' = t ∨ t.lexeme = ρ.old ∧ t' = { t with lexeme := ρ.new }

variable {ρ : Renaming} {ctx : Surroundings} {region : Region} {t : Token}

theorem names_token (region : Region) (hnew : t.lexeme ≠ ρ.new) :
    ρ.Names t (ρ.token region t) := by
  unfold token
  rcases rename_or region hnew with h | ⟨hold, h⟩
  · exact .inl (by rw [h])
  · exact .inr ⟨hold, by rw [h]⟩

theorem names_declaration (ctx : Surroundings) (hnew : t.lexeme ≠ ρ.new) :
    ρ.Names t (ρ.declaration ctx t) := by
  cases ctx with
  | nil => exact .inl rfl
  | cons s ctx => exact names_token s.region hnew

theorem token_of_not_hit (h : ρ.hits region = false) (t : Token) : ρ.token region t = t := by
  rw [token, rename_of_not_hit h]

end Renaming

theorem Aligned.globalFrame {fr : Array Frame} {f : FrameId} {ctx : Surroundings}
    (h : Aligned fr f ctx) : ∃ vars, fr[Machine.globalFrame]? = some ⟨.globals, none, vars⟩ := by
  induction h with
  | globals hf _ => exact ⟨_, hf⟩
  | inside _ _ _ ih => exact ih

namespace Renaming

variable (ρ : Renaming) {ctx : Surroundings} {t : Token} {fr : Array Frame} {f g : FrameId}
  {frame : Frame}

/-- A reference is renamed as the region of the frame it leads to wants it. -/
theorem reference_homeFrom {D : Distances} {id : NodeId} (hD : D[id]? = ctx.distance? t.lexeme)
    (hat : Aligned fr f ctx) (hg : homeFrom D fr f id = some g) (hframe : fr[g]? = some frame) :
    (ρ.reference ctx t).lexeme = ρ.rename frame.region t.lexeme := by
  unfold homeFrom at hg
  rw [hD] at hg
  cases hd : ctx.distance? t.lexeme with
  | none =>
    rw [hd] at hg
    obtain rfl : Machine.globalFrame = g := Option.some.inj hg
    obtain ⟨vars, hvars⟩ := hat.globalFrame
    obtain rfl := Option.some.inj (hvars.symm.trans hframe)
    rw [Renaming.reference_of_undeclared hd]
    rfl
  | some d =>
    rw [hd] at hg
    obtain ⟨hlt, _⟩ := List.findIdx?_eq_some_iff_getElem.1 hd
    obtain ⟨g', frame', hg', hframe', hregion, -⟩ := hat.outward? (List.getElem?_eq_getElem hlt)
    obtain rfl := Option.some.inj (hg.symm.trans hg')
    obtain rfl := Option.some.inj (hframe.symm.trans hframe')
    rw [Renaming.reference_of_distance hd (List.getElem?_eq_getElem hlt), hregion]
    rfl

/-- A declaration is renamed as the region of the frame it writes to wants it. -/
theorem declaration_top (hat : Aligned fr f ctx) (hframe : fr[f]? = some frame) :
    (ρ.declaration ctx t).lexeme = ρ.rename frame.region t.lexeme := by
  cases hat with
  | globals hf _ | inside hf _ _ =>
    obtain rfl := Option.some.inj (hf.symm.trans hframe)
    rfl

end Renaming

theorem Token.agree_of_eq {t t' : Token} (h : t = t') :
    t'.kind = t.kind ∧ t'.lexeme = t.lexeme := h ▸ ⟨rfl, rfl⟩

/-- The run of a program goes with the run of the renamed program.  The numbers below `bound` are
in use. -/
def Likeness.renaming (ρ : Renaming) (bound : NodeId) (D : Distances) : Likeness where
  token := Eq
  name := ρ.Names
  annotation _ _ := True
  function d d' := List.Forall₂ (fun p p' => p'.name = ρ.rename (.function d) p.name)
    d.params d'.params
  node ctx n n' :=
    (∀ id t, n.reference? = some (id, t) → id < bound ∧
      n'.reference? = some (id, ρ.reference ctx t) ∧ D[id]? = ctx.distance? t.lexeme) ∧
    (∀ t, n.declares? = some t → n'.declares? = some (ρ.declaration ctx t)) ∧
    ∀ keyword value, n = .stmt (.returns keyword value) → ctx.InFunction
  reported := Eq
  tracked := True
  left := D
  right := D
  renamed := ρ.rename
  watched := False
  same := @Token.agree_of_eq
  unnamed h := .inl (Eq.symm h)
  home hn hr hr' _ := by
    obtain ⟨-, href, -⟩ := hn.1 _ _ hr
    obtain ⟨rfl, -⟩ := Prod.mk.inj (Option.some.inj (hr'.symm.trans href))
    rfl
  found hn hr _ hr' hat hg hframe := by
    obtain ⟨id', hr'⟩ := hr'
    obtain ⟨-, href, hD⟩ := hn.1 _ _ hr
    obtain ⟨-, rfl⟩ := Prod.mk.inj (Option.some.inj (hr'.symm.trans href))
    exact ρ.reference_homeFrom hD (hat trivial) hg hframe
  declared hn hs hs' _ hat hframe := by
    obtain rfl := Option.some.inj (hs'.symm.trans (hn.2.1 _ hs))
    exact ρ.declaration_top (hat trivial) hframe
  params h _ := h
  injective := ρ.rename_injective
  globals _ := rfl
  receiver _ := rfl
  returns hn _ := hn.2.2 _ _ rfl
  spares _ h := h.elim

section

variable {ρ : Renaming} {bound : NodeId} {D : Distances} {programs : List Program}

/-- The renamed node.  A statement is renamed as one that is executed surely or not. -/
def Node.rename (ρ : Renaming) (sure : Bool) (ctx : Surroundings) : Node → Node
  | .expr e => .expr (e.rename ρ ctx)
  | .stmt s => .stmt (s.rename ρ sure ctx)

theorem Node.reference?_rename (sure : Bool) (ctx : Surroundings) (n : Node) :
    (n.rename ρ sure ctx).reference? =
      n.reference?.map fun r => (r.1, ρ.reference ctx r.2) := by
  obtain e | s := n
  · cases e <;> rfl
  · cases s <;> rfl

theorem FunctionDecl.name_rename (ctx : Surroundings) (d : FunctionDecl) :
    (d.rename ρ ctx).name = d.name := by
  cases d
  rfl

theorem ClassDecl.name_rename (ctx : Surroundings) (c : ClassDecl) :
    (c.rename ρ ctx).name = c.name := by
  cases c
  rfl

theorem Node.declares?_rename {sure : Bool} {ctx : Surroundings} {n : Node}
    (havoids : Place.Avoids ρ.new ⟨ctx, n⟩) (hkeeps : ρ.Keeps ⟨ctx, n⟩) :
    (n.rename ρ sure ctx).declares? = n.declares?.map (ρ.declaration ctx) := by
  obtain e | s := n
  · rfl
  · have hstays : ∀ t, .callable t ∈ s.binders → t.lexeme ∈ (Node.stmt s).names →
        ρ.declaration ctx t = t := fun t ht hnames =>
      (hkeeps s rfl).declaration_eq ht (havoids.ne hnames)
    cases s with
    | functionDecl d =>
      change some (d.rename ρ _).name = some (ρ.declaration ctx d.name)
      rw [d.name_rename, hstays d.name (by simp [Stmt.binders]) (by simp [Node.names])]
    | classDecl c =>
      change some (c.rename ρ _).name = some (ρ.declaration ctx c.name)
      rw [c.name_rename, hstays c.name (by simp [Stmt.binders]) (by simp [Node.names])]
    | _ => rfl

theorem Node.reference_mem_names {n : Node} {id : NodeId} {t : Token}
    (h : n.reference? = some (id, t)) : t.lexeme ∈ n.names := by
  obtain e | s := n
  · cases e with
    | name | this | index | assign =>
      obtain ⟨-, rfl⟩ := Prod.mk.inj (Option.some.inj h)
      exact List.mem_cons_self
    | _ => cases h
  · cases s with
    | indexAssign =>
      obtain ⟨-, rfl⟩ := Prod.mk.inj (Option.some.inj h)
      exact List.mem_cons_self
    | _ => cases h

/-- What the renamed tree needs to know of a place. -/
structure Renaming.Suits (ρ : Renaming) (p : Place) : Prop where
  avoids : p.Avoids ρ.new
  keeps : ρ.Keeps p

theorem paramsRename_alike (ρ : Renaming) (bound : NodeId) (d : FunctionDecl)
    {ps ps' : List Parameter}
    (h : List.Forall₂ (Parameter.Alike (Likeness.ofPrograms programs D).toTreeLikeness) ps ps')
    (hnew : ρ.new ∉ ps.map (·.left.lexeme)) :
    List.Forall₂ (Parameter.Alike (Likeness.renaming ρ bound D).toTreeLikeness) ps
        (ps.map (ρ.param d)) ∧
      List.Forall₂ (fun p p' => p'.name = ρ.rename (.function d) p.name) ps
        (ps.map (ρ.param d)) := by
  induction h with
  | nil => exact ⟨.nil, .nil⟩
  | @cons p _ ps _ hp _ ih =>
    obtain ⟨hpnew, hpsnew⟩ := not_or.1 (mt List.mem_cons.2 hnew)
    obtain ⟨hps, hnames⟩ := ih hpsnew
    have hspelled : p.name = p.left.lexeme := hp.spelled trivial
    obtain ⟨name, ty, left, right⟩ := p
    obtain rfl : name = left.lexeme := hspelled
    exact ⟨.cons ⟨fun _ => rfl, fun _ => rfl, Renaming.names_token _ (Ne.symm hpnew), trivial⟩ hps,
      .cons rfl hnames⟩

/-- The numbers of the programs are in use. -/
def Program.NumbersBelow (programs : List Program) (bound : NodeId) : Prop :=
  ∀ p ∈ programs, ∀ q ∈ Program.places p, ∀ id, q.id? = some id → id < bound

theorem Likeness.renaming_node {ctx : Surroundings} {n n' : Node}
    (hbound : Program.NumbersBelow programs bound)
    (hn : (Likeness.ofPrograms programs D).node ctx n n') (hq : ρ.Suits ⟨ctx, n⟩) (sure : Bool) :
    (Likeness.renaming ρ bound D).node ctx n (n.rename ρ sure ctx) := by
  obtain ⟨⟨p, hp, hplace⟩, hpassed, -, hrefs⟩ := hn
  refine ⟨fun id t hr => ⟨hbound p hp _ hplace id ?_, ?_, (hrefs id t hr).2⟩, fun t ht => ?_,
    fun keyword value hreturn => hpassed.lawful.returns keyword value hreturn⟩
  · rw [Place.id?, hr]
    rfl
  · rw [Node.reference?_rename, hr]
    rfl
  · rw [Node.declares?_rename hq.avoids hq.keeps, ht]
    rfl

mutual

/-- A program that has been analysed is alike to the renamed one. -/
theorem Expr.rename_alike (hbound : Program.NumbersBelow programs bound) {ctx : Surroundings} :
    (e : Expr) → {e' : Expr} → e.Alike (Likeness.ofPrograms programs D).toTreeLikeness ctx e' →
      (∀ q ∈ e.places ctx, ρ.Suits q) →
      e.Alike (Likeness.renaming ρ bound D).toTreeLikeness ctx (e.rename ρ ctx)
  | .grouping inner, _, ⟨hn, _, _, hinner⟩, hq => by
    simp only [Expr.places, List.forall_mem_cons] at hq
    exact ⟨Likeness.renaming_node hbound hn hq.1 true, _, rfl,
      Expr.rename_alike hbound inner hinner hq.2⟩
  | .binary left _ right, _, ⟨hn, _, _, _, _, _, hleft, hright⟩, hq => by
    simp only [Expr.places, List.forall_mem_cons, List.forall_mem_append] at hq
    exact ⟨Likeness.renaming_node hbound hn hq.1 true, _, _, _, rfl, rfl,
      Expr.rename_alike hbound left hleft hq.2.1, Expr.rename_alike hbound right hright hq.2.2⟩
  | .unary _ operand, _, ⟨hn, _, _, _, _, hoperand⟩, hq => by
    simp only [Expr.places, List.forall_mem_cons] at hq
    exact ⟨Likeness.renaming_node hbound hn hq.1 true, _, _, rfl, rfl,
      Expr.rename_alike hbound operand hoperand hq.2⟩
  | .literal _ value, _, ⟨hn, _, _, hvalue⟩, hq => by
    simp only [Expr.places, List.forall_mem_cons] at hq
    exact ⟨Likeness.renaming_node hbound hn hq.1 true, _, rfl,
      LiteralValue.rename_alike hbound value hvalue hq.2⟩
  | .name _ token, _, ⟨hn, _, _, _, _⟩, hq => by
    simp only [Expr.places, List.forall_mem_singleton] at hq
    exact ⟨Likeness.renaming_node hbound hn hq true, _, _, rfl,
      ρ.reference_or ctx (hq.avoids.ne List.mem_cons_self)⟩
  | .this _ keyword, _, ⟨hn, _, _, _, _⟩, hq => by
    simp only [Expr.places, List.forall_mem_singleton] at hq
    exact ⟨Likeness.renaming_node hbound hn hq true, _, _, rfl,
      ρ.reference_or ctx (hq.avoids.ne List.mem_cons_self)⟩
  | .function _ declaration, _, ⟨hn, _, _, _, _, hd⟩, hq => by
    simp only [Expr.places, List.forall_mem_cons] at hq
    exact ⟨Likeness.renaming_node hbound hn hq.1 true, _, _, rfl, rfl,
      FunctionDecl.rename_alike hbound declaration hd hq.1.avoids hq.2⟩
  | .call callee _ args, _, ⟨hn, _, _, _, _, _, hcallee, hargs⟩, hq => by
    simp only [Expr.places, List.forall_mem_cons, List.forall_mem_append] at hq
    exact ⟨Likeness.renaming_node hbound hn hq.1 true, _, _, _, rfl, rfl,
      Expr.rename_alike hbound callee hcallee hq.2.1, exprsRename_alike hbound args hargs hq.2.2⟩
  | .index _ name index, _, ⟨hn, _, _, _, _, _, hindex⟩, hq => by
    simp only [Expr.places, List.forall_mem_cons] at hq
    exact ⟨Likeness.renaming_node hbound hn hq.1 true, _, _, _, rfl,
      ρ.reference_or ctx (hq.1.avoids.ne List.mem_cons_self),
      Expr.rename_alike hbound index hindex hq.2⟩
  | .get object _, _, ⟨hn, _, _, _, _, hobject⟩, hq => by
    simp only [Expr.places, List.forall_mem_cons] at hq
    exact ⟨Likeness.renaming_node hbound hn hq.1 true, _, _, rfl, rfl,
      Expr.rename_alike hbound object hobject hq.2⟩
  | .set object _ value, _, ⟨hn, _, _, _, _, _, hobject, hvalue⟩, hq => by
    simp only [Expr.places, List.forall_mem_cons, List.forall_mem_append] at hq
    exact ⟨Likeness.renaming_node hbound hn hq.1 true, _, _, _, rfl, rfl,
      Expr.rename_alike hbound object hobject hq.2.2, Expr.rename_alike hbound value hvalue hq.2.1⟩
  | .object _ entries, _, ⟨hn, _, _, _, _, hentries⟩, hq => by
    simp only [Expr.places, List.forall_mem_cons] at hq
    exact ⟨Likeness.renaming_node hbound hn hq.1 true, _, _, rfl, rfl,
      entriesRename_alike hbound entries hentries hq.2⟩
  | .assign _ name value, _, ⟨hn, _, _, _, _, _, hvalue⟩, hq => by
    simp only [Expr.places, List.forall_mem_append, List.forall_mem_singleton] at hq
    exact ⟨Likeness.renaming_node hbound hn hq.2 true, _, _, _, rfl,
      ρ.reference_or ctx (hq.2.avoids.ne List.mem_cons_self),
      Expr.rename_alike hbound value hvalue hq.1⟩
termination_by structural x => x

theorem exprsRename_alike (hbound : Program.NumbersBelow programs bound) {ctx : Surroundings} :
    (es : List Expr) → {es' : List Expr} →
      exprsAlike (Likeness.ofPrograms programs D).toTreeLikeness ctx es es' →
      (∀ q ∈ exprsPlaces ctx es, ρ.Suits q) →
      exprsAlike (Likeness.renaming ρ bound D).toTreeLikeness ctx es (exprsRename ρ ctx es)
  | [], _, _, _ => rfl
  | e :: es, _, ⟨_, _, _, he, hes⟩, hq => by
    simp only [exprsPlaces, List.forall_mem_append] at hq
    exact ⟨_, _, rfl, Expr.rename_alike hbound e he hq.1, exprsRename_alike hbound es hes hq.2⟩
termination_by structural x => x

theorem LiteralValue.rename_alike (hbound : Program.NumbersBelow programs bound)
    {ctx : Surroundings} : (v : LiteralValue) → {v' : LiteralValue} →
      v.Alike (Likeness.ofPrograms programs D).toTreeLikeness ctx v' →
      (∀ q ∈ v.places ctx, ρ.Suits q) →
      v.Alike (Likeness.renaming ρ bound D).toTreeLikeness ctx (v.rename ρ ctx)
  | .list elements, _, ⟨_, _, helements⟩, hq => by
    simp only [LiteralValue.places] at hq
    exact ⟨_, rfl, exprsRename_alike hbound elements helements hq⟩
  | .num _, _, _, _ | .str _, _, _, _ | .bool _, _, _, _ | .null, _, _, _ | .undefined, _, _, _
  | .emptyObject, _, _, _ => rfl
termination_by structural x => x

theorem entriesRename_alike (hbound : Program.NumbersBelow programs bound) {ctx : Surroundings} :
    (es : List Entry) → {es' : List Entry} →
      entriesAlike (Likeness.ofPrograms programs D).toTreeLikeness ctx es es' →
      (∀ q ∈ entriesPlaces ctx es, ρ.Suits q) →
      entriesAlike (Likeness.renaming ρ bound D).toTreeLikeness ctx es (entriesRename ρ ctx es)
  | [], _, _, _ => rfl
  | .mk _ value :: es, _, ⟨_, _, _, _, _, hvalue, hes⟩, hq => by
    simp only [entriesPlaces, List.forall_mem_append] at hq
    exact ⟨_, _, _, rfl, rfl, Expr.rename_alike hbound value hvalue hq.1,
      entriesRename_alike hbound es hes hq.2⟩
termination_by structural x => x

theorem Stmt.rename_alike (hbound : Program.NumbersBelow programs bound) {sure : Bool}
    {ctx : Surroundings} : (s : Stmt) → {s' : Stmt} →
      s.Alike (Likeness.ofPrograms programs D).toTreeLikeness sure ctx s' →
      (∀ q ∈ s.places sure ctx, ρ.Suits q) →
      s.Alike (Likeness.renaming ρ bound D).toTreeLikeness sure ctx (s.rename ρ sure ctx)
  | .empty, _, ⟨hn, _⟩, hq => by
    simp only [Stmt.places, List.forall_mem_singleton] at hq
    exact ⟨Likeness.renaming_node hbound hn hq sure, rfl⟩
  | .block statements, _, ⟨hn, _, _, hss⟩, hq => by
    simp only [Stmt.places, List.forall_mem_cons] at hq
    exact ⟨Likeness.renaming_node hbound hn hq.1 sure, _, rfl,
      stmtsRename_alike hbound statements hss hq.2⟩
  | .expression e _, _, ⟨hn, _, _, _, _, he⟩, hq => by
    simp only [Stmt.places, List.forall_mem_cons] at hq
    exact ⟨Likeness.renaming_node hbound hn hq.1 sure, _, _, rfl, rfl,
      Expr.rename_alike hbound e he hq.2⟩
  | .variable name _ _ init, _, ⟨hn, _, _, _, _, _, _, hinit⟩, hq => by
    simp only [Stmt.places, List.forall_mem_cons] at hq
    exact ⟨Likeness.renaming_node hbound hn hq.1 sure, _, _, _, rfl,
      Renaming.names_declaration ctx (hq.1.avoids.ne List.mem_cons_self), trivial,
      optionRename_alike hbound init hinit hq.2⟩
  | .indexAssign _ name index value, _, ⟨hn, _, _, _, _, _, _, hindex, hvalue⟩, hq => by
    simp only [Stmt.places, List.forall_mem_append, List.forall_mem_singleton] at hq
    exact ⟨Likeness.renaming_node hbound hn hq.2 sure, _, _, _, _, rfl,
      ρ.reference_or ctx (hq.2.avoids.ne List.mem_cons_self),
      Expr.rename_alike hbound index hindex hq.1.1, Expr.rename_alike hbound value hvalue hq.1.2⟩
  | .functionDecl declaration, _, ⟨hn, _, _, hd⟩, hq => by
    simp only [Stmt.places, List.forall_mem_cons] at hq
    exact ⟨Likeness.renaming_node hbound hn hq.1 sure, _, rfl,
      FunctionDecl.rename_alike hbound declaration hd
        (fun hp => hq.1.avoids (List.mem_cons_of_mem _ hp)) hq.2⟩
  | .cond _ condition thenBranch elseBranch, _, ⟨hn, _, _, _, _, _, _, hc, hthen, helse⟩, hq => by
    simp only [Stmt.places, List.forall_mem_cons, List.forall_mem_append] at hq
    exact ⟨Likeness.renaming_node hbound hn hq.1 sure, _, _, _, _, rfl, rfl,
      Expr.rename_alike hbound condition hc hq.2.1.1,
      Stmt.rename_alike hbound thenBranch hthen hq.2.1.2,
      optionRename_alike hbound elseBranch helse hq.2.2⟩
  | .loop condition body _, _, ⟨hn, _, _, _, _, _, hc, hbody⟩, hq => by
    simp only [Stmt.places, List.forall_mem_cons, List.forall_mem_append] at hq
    exact ⟨Likeness.renaming_node hbound hn hq.1 sure, _, _, _, rfl, rfl,
      Expr.rename_alike hbound condition hc hq.2.1, Stmt.rename_alike hbound body hbody hq.2.2⟩
  | .returns _ value, _, ⟨hn, _, _, _, _, hvalue⟩, hq => by
    simp only [Stmt.places, List.forall_mem_cons] at hq
    exact ⟨Likeness.renaming_node hbound hn hq.1 sure, _, _, rfl, rfl,
      Stmt.rename_alike hbound value hvalue hq.2⟩
  | .object properties, _, ⟨hn, _, _, hps⟩, hq => by
    simp only [Stmt.places, List.forall_mem_cons] at hq
    exact ⟨Likeness.renaming_node hbound hn hq.1 sure, _, rfl,
      propertiesRename_alike hbound properties hps hq.2⟩
  | .classDecl declaration, _, ⟨hn, _, _, hd⟩, hq => by
    simp only [Stmt.places, List.forall_mem_cons] at hq
    exact ⟨Likeness.renaming_node hbound hn hq.1 sure, _, rfl,
      ClassDecl.rename_alike hbound declaration hd
        (fun hp => hq.1.avoids (List.mem_cons_of_mem _ (List.mem_cons_of_mem _ hp))) hq.2⟩
termination_by structural x => x

theorem optionRename_alike (hbound : Program.NumbersBelow programs bound) {sure : Bool}
    {ctx : Surroundings} : (o : Option Stmt) → {o' : Option Stmt} →
      optionAlike (Likeness.ofPrograms programs D).toTreeLikeness sure ctx o o' →
      (∀ q ∈ optionPlaces sure ctx o, ρ.Suits q) →
      optionAlike (Likeness.renaming ρ bound D).toTreeLikeness sure ctx o
        (optionRename ρ sure ctx o)
  | none, _, _, _ => rfl
  | some s, _, ⟨_, _, hs⟩, hq => by
    simp only [optionPlaces] at hq
    exact ⟨_, rfl, Stmt.rename_alike hbound s hs hq⟩
termination_by structural x => x

theorem stmtsRename_alike (hbound : Program.NumbersBelow programs bound) {sure : Bool}
    {ctx : Surroundings} : (ss : List Stmt) → {ss' : List Stmt} →
      stmtsAlike (Likeness.ofPrograms programs D).toTreeLikeness sure ctx ss ss' →
      (∀ q ∈ stmtsPlaces sure ctx ss, ρ.Suits q) →
      stmtsAlike (Likeness.renaming ρ bound D).toTreeLikeness sure ctx ss (stmtsRename ρ sure ctx ss)
  | [], _, _, _ => rfl
  | s :: ss, _, ⟨_, _, _, hs, hss⟩, hq => by
    simp only [stmtsPlaces, List.forall_mem_append] at hq
    exact ⟨_, _, rfl, Stmt.rename_alike hbound s hs hq.1, stmtsRename_alike hbound ss hss hq.2⟩
termination_by structural x => x

theorem propertiesRename_alike (hbound : Program.NumbersBelow programs bound) {sure : Bool}
    {ctx : Surroundings} : (ps : List StmtEntry) → {ps' : List StmtEntry} →
      propertiesAlike (Likeness.ofPrograms programs D).toTreeLikeness sure ctx ps ps' →
      (∀ q ∈ propertiesPlaces sure ctx ps, ρ.Suits q) →
      propertiesAlike (Likeness.renaming ρ bound D).toTreeLikeness sure ctx ps
        (propertiesRename ρ sure ctx ps)
  | [], _, _, _ => rfl
  | .mk _ s :: ps, _, ⟨_, _, _, _, _, hs, hps⟩, hq => by
    simp only [propertiesPlaces, List.forall_mem_append] at hq
    exact ⟨_, _, _, rfl, rfl, Stmt.rename_alike hbound s hs hq.1,
      propertiesRename_alike hbound ps hps hq.2⟩
termination_by structural x => x

theorem FunctionDecl.rename_alike (hbound : Program.NumbersBelow programs bound)
    {ctx : Surroundings} : (f : FunctionDecl) → {f' : FunctionDecl} →
      f.Alike (Likeness.ofPrograms programs D).toTreeLikeness ctx f' →
      ρ.new ∉ f.params.map (·.left.lexeme) → (∀ q ∈ f.places ctx, ρ.Suits q) →
      f.Alike (Likeness.renaming ρ bound D).toTreeLikeness ctx (f.rename ρ ctx)
  | .mk name params body result, _, ⟨_, _, _, _, _, _, hps, _, _, hbody⟩, hnew, hq => by
    simp only [FunctionDecl.places] at hq
    obtain ⟨halike, hnames⟩ :=
      paramsRename_alike ρ bound (.mk name params body result) hps hnew
    exact ⟨_, _, _, _, rfl, rfl, halike, trivial, hnames, stmtsRename_alike hbound body hbody hq⟩
termination_by structural x => x

theorem ClassDecl.rename_alike (hbound : Program.NumbersBelow programs bound)
    {ctx : Surroundings} : (c : ClassDecl) → {c' : ClassDecl} →
      c.Alike (Likeness.ofPrograms programs D).toTreeLikeness ctx c' →
      ρ.new ∉ c.methods.flatMap (fun m => m.params.map (·.left.lexeme)) →
      (∀ q ∈ c.places ctx, ρ.Suits q) →
      c.Alike (Likeness.renaming ρ bound D).toTreeLikeness ctx (c.rename ρ ctx)
  | .mk name methods fields, _, ⟨_, _, _, _, _, hfields, hmethods⟩, hnew, hq => by
    simp only [ClassDecl.places, List.forall_mem_append] at hq
    exact ⟨_, _, _, rfl, rfl, fieldsRename_alike hbound fields hfields hq.1,
      methodsRename_alike hbound methods hmethods hnew hq.2⟩
termination_by structural x => x

theorem fieldsRename_alike (hbound : Program.NumbersBelow programs bound) {ctx : Surroundings} :
    (fs : List FieldDecl) → {fs' : List FieldDecl} →
      fieldsAlike (Likeness.ofPrograms programs D).toTreeLikeness ctx fs fs' →
      (∀ q ∈ fieldsPlaces ctx fs, ρ.Suits q) →
      fieldsAlike (Likeness.renaming ρ bound D).toTreeLikeness ctx fs (fieldsRename ρ ctx fs)
  | [], _, _, _ => rfl
  | .mk _ _ init :: fs, _, ⟨_, _, _, _, _, _, _, hinit, hfs⟩, hq => by
    simp only [fieldsPlaces, List.forall_mem_append] at hq
    exact ⟨_, _, _, _, rfl, rfl, trivial, Expr.rename_alike hbound init hinit hq.1,
      fieldsRename_alike hbound fs hfs hq.2⟩
termination_by structural x => x

theorem methodsRename_alike (hbound : Program.NumbersBelow programs bound) {ctx : Surroundings} :
    (ms : List FunctionDecl) → {ms' : List FunctionDecl} →
      methodsAlike (Likeness.ofPrograms programs D).toTreeLikeness ctx ms ms' →
      ρ.new ∉ ms.flatMap (fun m => m.params.map (·.left.lexeme)) →
      (∀ q ∈ methodsPlaces ctx ms, ρ.Suits q) →
      methodsAlike (Likeness.renaming ρ bound D).toTreeLikeness ctx ms (methodsRename ρ ctx ms)
  | [], _, _, _, _ => rfl
  | m :: ms, _, ⟨_, _, _, hm, hms⟩, hnew, hq => by
    simp only [methodsPlaces, List.forall_mem_append] at hq
    rw [List.flatMap_cons, List.mem_append, not_or] at hnew
    exact ⟨_, _, rfl, FunctionDecl.rename_alike hbound m hm hnew.1 hq.1,
      methodsRename_alike hbound ms hms hnew.2 hq.2⟩
termination_by structural x => x

end

end

/-! ### What has run before -/

section

variable {ρ : Renaming} {Q : Token → Prop} {bound bound' : NodeId} {D D' : Distances}

/-- More numbers in use, and distances that are the same for those that were. -/
theorem carries_renaming (hle : bound ≤ bound')
    (hD : ∀ id : NodeId, id < bound → D'[id]? = D[id]?) (fr : Array Frame) :
    Carries (.renaming ρ bound D) (.renaming ρ bound' D') fr fr where
  trees :=
    { token := id
      name := id
      annotation := id
      function := fun _ ⟨_, hf⟩ => hf.function
      node := by
        rintro ctx _ n n' rfl - - ⟨hrefs, hrest⟩
        refine ⟨fun id t hr => ?_, hrest⟩
        obtain ⟨hid, hr', hd⟩ := hrefs id t hr
        exact ⟨Nat.lt_of_lt_of_le hid hle, hr', (hD id hid).trans hd⟩
      push := fun _ h => h ▸ rfl
      declare := fun _ _ h => h ▸ rfl }
  aligned := id
  held := fun _ h => h.elim

/-- A region whose variables are declared in front of the site is not hit. -/
theorem Renaming.not_hit {region : Region}
    (h : ∀ t, .variable t ∈ region.binders → t.line < ρ.site.line) : ρ.hits region = false := by
  rw [hits, List.any_eq_false]
  intro b hb hsite
  cases b with
  | callable t => cases hsite
  | «variable» t =>
    simp only [isSite, Bool.and_eq_true, beq_iff_eq] at hsite
    exact absurd (h t hb) (Nat.not_lt.2 (Nat.le_of_eq hsite.1.1.symm))

theorem TreeLikeness.Opens.not_hit {shift : Nat} {s : Surrounding}
    (h : (shifting (Diagonal Q) shift).Opens s) (hQ : ∀ t, Q t → t.line < ρ.site.line) :
    ρ.hits s.region = false := by
  refine Renaming.not_hit fun t ht => ?_
  obtain ⟨_, -, hq⟩ := h.binds ht
  exact hQ t hq

theorem Renaming.reference_of_not_hit {ctx : Surroundings}
    (h : ∀ region ∈ ctx.regions, ρ.hits region = false) (t : Token) : ρ.reference ctx t = t := by
  unfold reference
  split
  · next s hs => exact token_of_not_hit (h _ (List.mem_map_of_mem (List.mem_of_find?_eq_some hs))) t
  · rfl

theorem Renaming.declaration_of_not_hit {ctx : Surroundings}
    (h : ∀ region ∈ ctx.regions, ρ.hits region = false) (t : Token) : ρ.declaration ctx t = t := by
  cases ctx with
  | nil => rfl
  | cons s ctx => exact token_of_not_hit (h _ List.mem_cons_self) t

/-- A program that stands in front of the site is alike to itself. -/
theorem untouched_alike {p : Program} {i j : NodeId} (hmade : stmtsMade (Diagonal Q) 0 i j p p)
    (hQ : ∀ t, Q t → t.line < ρ.site.line) (hfresh : ∀ id : NodeId, i ≤ id → D[id]? = none)
    (hr : resolve D p = (.ok (), D')) :
    stmtsAlike (Likeness.renaming ρ j D').toTreeLikeness true .top p p := by
  obtain ⟨halike, hnum⟩ := hmade true .top
  have hsharp : Sharpens (shifting (Diagonal Q) 0) (Likeness.renaming ρ j D').toTreeLikeness
      (fun ctx ctx' => ctx' = ctx ∧ ∀ region ∈ ctx.regions, ρ.hits region = false)
      (· ∈ p.places) (fun _ => True) :=
    { token := fun ht => ht.1.symm
      name := fun ht => .inl ht.1
      annotation := fun _ => trivial
      function := by
        rintro f f' - ⟨ctx, hf⟩
        have hhit : ρ.hits (.function f) = false := TreeLikeness.Opens.not_hit (.function hf) hQ
        refine hf.params.imp fun q q' hq => ?_
        rw [Renaming.rename_of_not_hit hhit, hq.name_eq trivial (by rw [hq.left.1])]
      node := by
        rintro ctx _ n n' ⟨-, hctx⟩ hplace - ⟨hrefs, hdecls⟩
        refine ⟨fun id t href => ?_, fun t ht => ?_, fun keyword value hn => ?_⟩
        · obtain ⟨-, t', href', rfl, -⟩ := hrefs id t href
          have hid : Place.id? ⟨ctx, n⟩ = some id := by rw [Place.id?, href]; rfl
          refine ⟨(hnum.within _ hplace id hid).2, ?_, ?_⟩
          · rw [Renaming.reference_of_not_hit hctx]
            exact href'
          · rw [resolve_distance hnum hfresh hr hplace hid, Place.distance?, href]
            rfl
        · obtain ⟨-, t', ht', rfl, -⟩ := hdecls t ht
          rw [Renaming.declaration_of_not_hit hctx]
          exact ht'
        · exact ((resolve_records hr).2 _ hplace).lawful.returns keyword value hn
      push := by
        rintro ctx _ s hs ⟨rfl, hctx⟩
        exact ⟨rfl, List.forall_mem_cons.2 ⟨hs.not_hit hQ, hctx⟩⟩
      declare := by
        rintro ctx _ t standing - ⟨rfl, hctx⟩
        exact ⟨rfl, by rwa [Surroundings.regions_declare]⟩ }
  refine stmtsAlike_refine hsharp ⟨rfl, ?_⟩ p halike (fun _ hq => hq) fun _ _ => trivial
  exact List.forall_mem_singleton.2 rfl

end

namespace Session

section

variable {ρ : Renaming} {s : Session} {texts : List LaidText}

/-- Nothing on the machine of the session comes from the region that is hit. -/
def Untouched (ρ : Renaming) (s : Session) : Prop :=
  s.machine.Alike (.renaming ρ s.nextId s.machine.distances) s.machine

theorem Untouched.congr (h : s.Untouched ρ) {r : Session} (hm : r.machine = s.machine)
    (hid : r.nextId = s.nextId) : r.Untouched ρ := by
  unfold Untouched
  rw [hm, hid]
  exact h

/-- The analysis of a program changes nothing that is in use. -/
theorem Untouched.analysed (h : s.Untouched ρ) {tokens : List Token} {program : Program}
    {nextId : NodeId} {distances : Distances} {result : Except ScopeError Unit}
    (hp : parseFrom s.nextId tokens = .ok (program, nextId))
    (hr : resolve s.machine.distances program = (result, distances)) {s₁ : Session}
    (hm : s₁.machine = s.machine) : (s₁.analysed nextId distances).Untouched ρ := by
  obtain ⟨-, hnum⟩ := parseFrom_numbered hp true .top
  have hkept : ∀ id : NodeId, id < s.nextId → distances[id]? = s.machine.distances[id]? := by
    intro id hid
    have hsame := Sound.distances_eq hp hid
    rwa [hr] at hsame
  unfold Untouched Session.analysed
  rw [hm]
  exact h.carry (carries_renaming hnum.le hkept _) h.fits rfl fun h => h.elim

/-- Two programs that are alike are run in lockstep. -/
theorem Untouched.agree (h : s.Untouched ρ) (hframe : s.machine.frame = Machine.globalFrame)
    {p p' : Program}
    (hp : stmtsAlike (Likeness.renaming ρ s.nextId s.machine.distances).toTreeLikeness true .top
      p p') (fuel : Nat) :
    Agree (.renaming ρ s.nextId s.machine.distances) s.machine.frames s.machine.frame
      (fun fr v v' => v.Alike (.renaming ρ s.nextId s.machine.distances) fr v')
      (Evaluation.runProgram (Evaluation.run fuel) p .undefined s.machine)
      (Evaluation.runProgram (Evaluation.run fuel) p' .undefined s.machine) := by
  have hat : (Likeness.renaming ρ s.nextId s.machine.distances).At s.machine.frames
      s.machine.frame .top := by
    obtain ⟨vars, hvars⟩ := h.globals
    rw [hframe]
    exact fun _ => .top hvars
  have hsim := Evaluation.Sims.runProgram
    (Evaluation.sims_run (.renaming ρ s.nextId s.machine.distances) fuel)
    hat Surroundings.not_inFunction_top hp .undefined
  exact (hsim.weaken fun _ _ _ _ h => h.1) h (.refl _) rfl

theorem Untouched.execute (h : s.Untouched ρ) (hframe : s.machine.frame = Machine.globalFrame)
    {p : Program}
    (hp : stmtsAlike (Likeness.renaming ρ s.nextId s.machine.distances).toTreeLikeness true .top
      p p) (fuel : Nat) : (s.execute fuel p).2.Untouched ρ := by
  have hagree := h.agree hframe hp fuel
  have hend : ∀ m : Machine, m.Alike (.renaming ρ s.nextId s.machine.distances) m →
      Untouched ρ { s with machine := m } := by
    intro m hm
    have hleft : m.distances = s.machine.distances := hm.left
    unfold Untouched
    rwa [← hleft] at hm
  unfold Session.execute
  generalize Evaluation.runProgram (Evaluation.run fuel) p .undefined s.machine = r at hagree
  cases hagree with
  | ok hm _ _ _ => exact hend _ hm
  | @error stop _ m _ hm _ _ _ => cases stop <;> exact hend m hm

/-- One action, all of whose lines are in front of the site. -/
theorem Untouched.perform (h : s.Untouched ρ) (hg : s.Grounded texts) (a : Action)
    (hline : (s.perform a).sources.nextLine ≤ ρ.site.line) : (s.perform a).Untouched ρ := by
  cases a with
  | run fuel name source =>
    have hholds := (hg.perform (.run fuel name source)).sources
    have hlines : ∀ t, Stems (texts ++ s.lays (.run fuel name source)) t →
        t.line < ρ.site.line := by
      rintro t ⟨text, htext, ht⟩
      exact Nat.lt_of_lt_of_le ht.line.2 (Nat.le_trans (hholds.below text htext) hline)
    obtain ⟨programs, hsound⟩ := hg.sound
    obtain ⟨hmachine, hid, -⟩ := scanSource_machine s name source
    have hloaded := load_loaded s name source
    rw [Session.perform, Session.run]
    generalize s.load name source = r at hloaded
    cases hloaded with
    | scan hscan | parse hscan _ | unfinished hscan _ _ =>
      rw [hscan] at hmachine hid
      exact h.congr hmachine hid
    | scope hscan hparse hres =>
      rw [hscan] at hmachine
      exact h.analysed hparse hres hmachine
    | @accepted tokens s₁ program nextId distances hscan hparse hres =>
      rw [hscan] at hmachine
      have hmade := ((hg.parsed fuel hscan rfl).2 _ _ hparse).1
      have hs₁ : Untouched ρ { s₁.analysed nextId distances with preludePending := false } :=
        (h.analysed hparse hres hmachine).congr rfl rfl
      refine hs₁.execute ?_ (untouched_alike hmade hlines hsound.fresh hres) fuel
      change s₁.machine.frame = _
      exact (congrArg Machine.frame hmachine).trans hsound.frame
  | native name arity f held => exact Machine.Alike.defineHost h name arity f.respects_eq held
  | takeOutput => exact Machine.Alike.withSink h _

/-- Any number of actions. -/
theorem Untouched.after (h : s.Untouched ρ) (hg : s.Grounded texts) (history : List Action)
    (hline : (s.after history).sources.nextLine ≤ ρ.site.line) : (s.after history).Untouched ρ := by
  induction history generalizing s texts with
  | nil => exact h
  | cons a history ih =>
    refine ih (h.perform hg a ?_) (hg.perform a) hline
    exact Nat.le_trans (after_nextLine (hg.laid.perform a) history) hline

theorem untouched_start (prelude : Bool) (input : List UInt8) (limit : Option Nat) (clock : Clock) :
    (start prelude input limit clock).Untouched ρ :=
  Machine.initial_alike rfl rfl input limit clock

end

end Session

/-! ### The renamed program -/

/-- The node reads or writes the variable: its distance leads to the region that is hit. -/
def Renaming.Reached (ρ : Renaming) (D : Distances) (q : Place) : Prop :=
  ∃ id t d r, q.node.reference? = some (id, t) ∧ t.lexeme = ρ.old ∧ D[id]? = some d ∧
    q.surroundings[d]? = some r ∧ ρ.hits r.region = true

/-- What is renamed are the nodes whose distances lead to the region that is hit. -/
theorem Renaming.reference_iff_reached {ρ : Renaming} {D : Distances} {q : Place} {id : NodeId}
    {t : Token} (href : q.node.reference? = some (id, t)) (hnew : t.lexeme ≠ ρ.new)
    (hD : D[id]? = q.surroundings.distance? t.lexeme) :
    (ρ.Reached D q → ρ.reference q.surroundings t = { t with lexeme := ρ.new }) ∧
      (¬ρ.Reached D q → ρ.reference q.surroundings t = t) := by
  refine ⟨fun hreached => ?_, fun hreached => ?_⟩
  · obtain ⟨id', t', d, r, href', hold, hd, hr, hhit⟩ := hreached
    obtain ⟨rfl, rfl⟩ := Prod.mk.inj (Option.some.inj (href.symm.trans href'))
    rw [reference_of_distance (hD.symm.trans hd) hr, token, rename, if_pos hhit, hold,
      Equiv.swap_apply_left]
  · cases hd : q.surroundings.distance? t.lexeme with
    | none => exact reference_of_undeclared hd
    | some d =>
      obtain ⟨hlt, -⟩ := List.findIdx?_eq_some_iff_getElem.1 hd
      have hr := List.getElem?_eq_getElem hlt
      have hname : ρ.rename q.surroundings[d].region t.lexeme = t.lexeme :=
        rename_of_ne (fun hhit hold =>
          hreached ⟨id, t, d, _, href, hold, hD.trans hd, hr, hhit⟩) hnew
      rw [reference_of_distance hd hr, token, hname]

/-- The same error, apart from the name of the variable. -/
def RuntimeError.Renamed (ρ : Renaming) (e e' : RuntimeError) : Prop :=
  e' = e ∨ e.token.lexeme = ρ.old ∧
    e' = ⟨e.fault.about ρ.new, { e.token with lexeme := ρ.new }⟩

theorem RuntimeFault.about_about (fault : RuntimeFault) (x y : String) :
    (fault.about x).about y = fault.about y := by
  cases fault <;> rfl

theorem Stop.Alike.renamed {ρ : Renaming} {bound : NodeId} {D : Distances} {e e' : RuntimeError}
    (h : Stop.Alike (.renaming ρ bound D) (.raised e) (.raised e')) : e.Renamed ρ e' := by
  cases h with
  | raised fault ht | reported message ht =>
    obtain rfl : _ = _ := ht
    exact .inl rfl
  | @named fault t t' ht =>
    rcases ht with rfl | ⟨hold, rfl⟩
    · exact .inl rfl
    · refine .inr ⟨hold, ?_⟩
      rw [RuntimeFault.about_about]

/-- What the run of a program and that of the renamed one come to. -/
inductive Outcome.Renamed (ρ : Renaming) (s s' : Session) : Outcome → Outcome → Prop
  | value {v v' : Value} :
      v.Alike (.renaming ρ s.nextId s.machine.distances) s.machine.frames v' →
      v'.text s'.machine.heap = v.text s.machine.heap → Renamed ρ s s' (.value v) (.value v')
  | failed {e e' : RuntimeError} : e.Renamed ρ e' →
      Renamed ρ s s' (.failed (.runtime e)) (.failed (.runtime e'))
  | unfinished : Renamed ρ s s' .unfinished .unfinished

namespace Session

theorem Untouched.renamed {ρ : Renaming} {s : Session} (h : s.Untouched ρ)
    (hframe : s.machine.frame = Machine.globalFrame) {p p' : Program}
    (hp : stmtsAlike (Likeness.renaming ρ s.nextId s.machine.distances).toTreeLikeness true .top
      p p') (fuel : Nat) :
    (s.execute fuel p).2.machine.Alike (.renaming ρ s.nextId s.machine.distances)
        (s.execute fuel p').2.machine ∧
      (s.execute fuel p).1.Renamed ρ (s.execute fuel p).2 (s.execute fuel p').2
        (s.execute fuel p').1 := by
  have hagree := h.agree hframe hp fuel
  unfold Session.execute
  generalize Evaluation.runProgram (Evaluation.run fuel) p .undefined s.machine = r,
    Evaluation.runProgram (Evaluation.run fuel) p' .undefined s.machine = r' at hagree
  cases hagree with
  | ok hm _ _ hv =>
    have hleft := hm.left
    refine ⟨hm, .value ?_ (hv.text hm.heap)⟩
    dsimp only
    rwa [hleft]
  | @error stop stop' _ _ hm _ _ hstop =>
    cases stop with
    | raised e =>
      cases stop' with
      | raised e' => exact ⟨hm, .failed hstop.renamed⟩
      | outOfFuel => cases hstop
    | outOfFuel =>
      cases hstop
      exact ⟨hm, .unfinished⟩

/-- **Renaming a local variable cannot be seen.**  Let a source be accepted, in whatever session, and
let a variable be declared in it, at the site.  The declaration and the nodes whose distances lead to
the region that it belongs to get a name that the program does not mention.  Then the program is
still accepted, with the same distances, and run to any depth it prints the same and comes to the
same, a value or an error, apart from the name of the variable. -/
theorem renaming_invisible (prelude : Bool) (input : List UInt8) (limit : Option Nat)
    (clock : Clock) (history : List Action) {s : Session}
    (hs : s = (start prelude input limit clock).after history) {name source : String}
    {program : Program} {s₁ : Session} (hload : s.load name source = (.ok program, s₁))
    (ρ : Renaming) (hsite : s.nextSourceLine ≤ ρ.site.line) (hnew : ρ.new ∉ program.names) :
    resolve s.machine.distances (program.rename ρ) = (.ok (), s₁.machine.distances) ∧
    (∀ q ∈ program.places, ∀ id t, q.node.reference? = some (id, t) →
      (ρ.Reached s₁.machine.distances q →
        ρ.reference q.surroundings t = { t with lexeme := ρ.new }) ∧
      (¬ρ.Reached s₁.machine.distances q → ρ.reference q.surroundings t = t)) ∧
    ∀ fuel,
      (s₁.execute fuel (program.rename ρ)).2.machine.sink =
        (s₁.execute fuel program).2.machine.sink ∧
      (s₁.execute fuel program).1.Renamed ρ (s₁.execute fuel program).2
        (s₁.execute fuel (program.rename ρ)).2 (s₁.execute fuel (program.rename ρ)).1 := by
  have hground := (grounded_start prelude input limit clock).after history
  rw [← hs, List.nil_append] at hground
  obtain ⟨leading, s₂, hlead, -, hle, -⟩ := leadingTokens_ok hground.laid
  have hlines : s.sources.nextLine ≤ ρ.site.line := by
    rw [nextSourceLine, hlead] at hsite
    exact Nat.le_trans hle hsite
  have huntouched : s.Untouched ρ := by
    rw [hs] at hlines ⊢
    exact (untouched_start prelude input limit clock).after
      (grounded_start prelude input limit clock) history hlines
  obtain ⟨programs, hsound⟩ := hground.sound
  have halike := hsound.accepted_alike hload
  have hnumbered := (hload ▸ hsound.load name source).numbered
  obtain ⟨hmachine, -, -⟩ := scanSource_machine s name source
  have hloaded := load_loaded s name source
  rw [hload] at hloaded
  cases hloaded with
  | @accepted tokens s₁ _ nextId distances hscan hparse hres =>
    rw [hscan] at hmachine
    obtain ⟨hverdict, hsuits⟩ := resolve_rename hnew hres
    refine ⟨hverdict, fun q hq id t href => ?_, fun fuel => ?_⟩
    · have hnum := (parseFrom_numbered hparse true .top).2
      have hid : q.id? = some id := by
        rw [Place.id?, href]
        rfl
      have hD : distances[id]? = q.surroundings.distance? t.lexeme := by
        rw [resolve_distance hnum hsound.fresh hres hq hid, Place.distance?, href]
        rfl
      exact Renaming.reference_iff_reached href ((hsuits q hq).1.ne (Node.reference_mem_names href))
        hD
    · have hs₁ : Untouched ρ { s₁.analysed nextId distances with preludePending := false } :=
        (huntouched.analysed hparse hres hmachine).congr rfl rfl
      have hrenamed : stmtsAlike (Likeness.renaming ρ nextId distances).toTreeLikeness true .top
          program (stmtsRename ρ true .top program) :=
        stmtsRename_alike hnumbered program halike fun q hq => ⟨(hsuits q hq).1, (hsuits q hq).2⟩
      have hframe : s₁.machine.frame = Machine.globalFrame :=
        (congrArg Machine.frame hmachine).trans hsound.frame
      obtain ⟨hend, houtcome⟩ := hs₁.renamed hframe hrenamed fuel
      exact ⟨hend.sink, houtcome⟩

/-- The block `{let x=true;x}`, with any name for the variable. -/
def showTrue (name : String) : List Stmt :=
  [.variable (.make .name name 1 6 2 none) .let_ none
      (some (.expression (.literal .trueLit (.bool true)) (.make .assign "=" 1 7 3 none))),
    .expression (.name 0 (.make .name name 1 13 6 none)) (.make .name "x" 1 13 6 none)]

set_option maxRecDepth 100000 in
theorem showTrue_spelled : ∃ tokens, tokenizeFrom 1 "\x7blet x=true;x\x7d" = .ok tokens ∧
    parseFrom 0 tokens = .ok ([.block (showTrue "x")], 1) :=
  ⟨_, by cbv, by cbv⟩

/-- In the block `{let x=true;x}` the variable can be called `y`. -/
theorem block_variable_renamed : ∃ s₁ : Session, ∃ ρ : Renaming,
    (start false [] none (.still 0)).load "main" "\x7blet x=true;x\x7d" =
      (.ok [.block (showTrue "x")], s₁) ∧
    (start false [] none (.still 0)).nextSourceLine ≤ ρ.site.line ∧
    ρ.new ∉ Program.names [.block (showTrue "x")] ∧
    Program.rename ρ [.block (showTrue "x")] = [.block (showTrue "y")] ∧
    resolve (start false [] none (.still 0)).machine.distances
        (Program.rename ρ [.block (showTrue "x")]) = (.ok (), s₁.machine.distances) ∧
    ∀ fuel,
      (s₁.execute fuel (Program.rename ρ [.block (showTrue "x")])).2.machine.sink =
        (s₁.execute fuel [.block (showTrue "x")]).2.machine.sink := by
  obtain ⟨tokens, htokens, hparse⟩ := showTrue_spelled
  obtain ⟨s₁, hload, -⟩ :=
    load_of_ready (s := start false [] none (.still 0)) rfl "main" htokens hparse rfl
  let ρ : Renaming := ⟨.make .name "x" 1 6 2 none, "y"⟩
  have hline : (start false [] none (.still 0)).nextSourceLine ≤ ρ.site.line := by decide
  have hnew : ρ.new ∉ Program.names [.block (showTrue "x")] := by decide
  obtain ⟨hverdict, -, hruns⟩ :=
    renaming_invisible false [] none (.still 0) [] rfl hload ρ hline hnew
  exact ⟨s₁, ρ, hload, hline, hnew, rfl, hverdict, fun fuel => (hruns fuel).1⟩

end Session

end ScopedScript
