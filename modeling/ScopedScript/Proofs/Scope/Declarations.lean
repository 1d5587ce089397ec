import Mathlib.Data.List.Nodup
import ScopedScript.Proofs.Scope.Distances

/-! # What a region declares

`Stmt.binders` and `Region.binders` list what is declared in a region itself, not in the regions
inside it.  A walk that succeeds has declared the names of its binders in the innermost region, each
for the first time (`Scope.Declares`).  So a block or a function that has been passed declares no
name twice (`Place.Passed.block`, `Place.Passed.function`). -/

namespace ScopedScript

/-! ### Binders -/

/-- The declaration of a name: of a variable or a parameter, or of a function or a class. -/
inductive Binder where
  | variable (name : Token)
  | callable (name : Token)

/-- The name that is declared. -/
def Binder.name : Binder → String
  | .variable name => name.lexeme
  | .callable name => name.lexeme

mutual

/-- What a statement declares in the region around it. -/
def Stmt.binders : Stmt → List Binder
  | .variable name _ _ init => .variable name :: optionBinders init
  | .functionDecl declaration => [.callable declaration.name]
  | .classDecl declaration => [.callable declaration.name]
  | .cond _ _ thenBranch elseBranch => thenBranch.binders ++ optionBinders elseBranch
  | .loop _ body _ => body.binders
  | .returns _ value => value.binders
  | .object properties => propertiesBinders properties
  | .empty | .block _ | .expression _ _ | .indexAssign _ _ _ _ => []

/-- What a statement that may be missing declares. -/
def optionBinders : Option Stmt → List Binder
  | none => []
  | some s => s.binders

/-- What the values of an object statement declare. -/
def propertiesBinders : List StmtEntry → List Binder
  | [] => []
  | .mk _ s :: properties => s.binders ++ propertiesBinders properties

end

/-- What statements declare in the region around them. -/
def stmtsBinders : List Stmt → List Binder
  | [] => []
  | s :: ss => s.binders ++ stmtsBinders ss

/-- What a region declares itself, if it is that of a block or a function. -/
def Region.binders : Region → List Binder
  | .block statements => stmtsBinders statements
  | .function declaration =>
    declaration.params.map (fun p => .variable p.left) ++ stmtsBinders declaration.body
  | .globals | .receiver _ => []

namespace Surroundings

variable {ctx ctx' : Surroundings} {x : String}

/-- Does the innermost region declare the name? -/
def declaresHere (ctx : Surroundings) (x : String) : Bool :=
  match ctx with
  | s :: _ => s.declares x
  | [] => false

theorem declaresHere_declare (hne : ctx ≠ []) (name x : String) (standing : Standing) :
    (ctx.declare name standing).declaresHere x = (name == x || ctx.declaresHere x) := by
  cases ctx with
  | nil => exact absurd rfl hne
  | cons s ctx => rfl

theorem Extends.declaresHere (h : ctx.Extends ctx') (hx : ctx.declaresHere x = true) :
    ctx'.declaresHere x = true := by
  induction h with
  | refl => exact hx
  | @declare ctx' name standing _ ih =>
    have hne : ctx' ≠ [] := by
      rintro rfl
      cases ih
    rw [declaresHere_declare hne, ih, Bool.or_true]

theorem Extends.ne_nil (h : ctx.Extends ctx') (hne : ctx ≠ []) : ctx' ≠ [] := by
  intro hnil
  have hregions := h.regions
  rw [hnil] at hregions
  exact hne (List.map_eq_nil_iff.1 hregions.symm)

end Surroundings

/-! ### No name is declared twice in a region -/

namespace Scope

/-- Declaring a name succeeds where the innermost region does not declare it. -/
theorem declare_ok_iff {ctx : Surroundings} {t : Token} {D : Distances} {s : State} :
    declare t ⟨ctx.layers, D⟩ = .ok () s ↔
      ctx.declaresHere t.lexeme = false ∧ s = ⟨(ctx.declare t.lexeme .pending).layers, D⟩ := by
  cases ctx with
  | nil =>
    refine ⟨fun h => ⟨rfl, (EStateM.Result.ok.inj h).2.symm⟩, ?_⟩
    rintro ⟨-, rfl⟩
    rfl
  | cons r ctx =>
    change (if r.layer.declares t.lexeme then _ else _ : Walk Unit) ⟨_, D⟩ = _ ↔
      r.declares t.lexeme = false ∧ _
    rw [Surrounding.layer_declares]
    cases r.declares t.lexeme with
    | true => exact ⟨fun h => (by cases h), fun h => (by cases h.1)⟩
    | false =>
      refine ⟨fun h => ⟨rfl, (EStateM.Result.ok.inj h).2.symm⟩, ?_⟩
      rintro ⟨-, rfl⟩
      rfl

/-- A walk declares the names in the innermost region, each for the first time. -/
structure Declares (x : Walk Unit) (ctx ctx₁ : Surroundings) (bs : List Binder) : Prop where
  new : ∀ {D s}, x ⟨ctx.layers, D⟩ = .ok () s →
    (bs.map Binder.name).Nodup ∧ ∀ b ∈ bs, ctx.declaresHere b.name = false
  there : ∀ b ∈ bs, ctx₁.declaresHere b.name = true

namespace Declares

variable {x y : Walk Unit} {ctx ctx₁ ctx₂ : Surroundings} {bs cs : List Binder} {ps : List Place}

theorem nothing (x : Walk Unit) (ctx ctx₁ : Surroundings) : Declares x ctx ctx₁ [] :=
  ⟨fun _ => ⟨.nil, by simp⟩, by simp⟩

theorem seq (hrecords : Records x ctx ctx₁ ps) (hx : Declares x ctx ctx₁ bs)
    (h₁ : ctx.Extends ctx₁) (hy : Declares y ctx₁ ctx₂ cs) (h₂ : ctx₁.Extends ctx₂) :
    Declares (do x; y) ctx ctx₂ (bs ++ cs) := by
  refine ⟨fun {D s} hs => ?_, fun b hb => ?_⟩
  · obtain ⟨_, s₁, hr, hs⟩ := ok_of_bind hs
    obtain ⟨rfl, _⟩ := hrecords.result hr
    obtain ⟨hbs, hbnew⟩ := hx.new hr
    obtain ⟨hcs, hcnew⟩ := hy.new hs
    refine ⟨?_, fun b hb => ?_⟩
    · -- what the first walk declares is there when the second one starts
      rw [List.map_append]
      refine List.nodup_append.2 ⟨hbs, hcs, ?_⟩
      rintro _ hn _ hm rfl
      obtain ⟨b, hb, hbn⟩ := List.mem_map.1 hn
      obtain ⟨c, hc, hcn⟩ := List.mem_map.1 hm
      have hthere := hx.there b hb
      rw [hbn, ← hcn, hcnew c hc] at hthere
      cases hthere
    · rcases List.mem_append.1 hb with hb | hb
      · exact hbnew b hb
      · by_contra hctx
        have hthere := h₁.declaresHere (by simpa using hctx)
        rw [hcnew b hb] at hthere
        cases hthere
  · rcases List.mem_append.1 hb with hb | hb
    · exact h₂.declaresHere (hx.there b hb)
    · exact hy.there b hb

/-- A walk that declares nothing, before another one. -/
theorem before (hx : Records x ctx ctx ps) (hy : Declares y ctx ctx₁ bs) (h : ctx.Extends ctx₁) :
    Declares (do x; y) ctx ctx₁ bs :=
  (nothing x ctx ctx).seq hx .refl hy h

/-- A walk that declares nothing, after another one. -/
theorem behind (hx : Declares x ctx ctx₁ bs) (h : ctx₁.Extends ctx₂) (y : Walk Unit) :
    Declares (do x; y) ctx ctx₂ bs := by
  refine ⟨fun {D s} hs => ?_, fun b hb => h.declaresHere (hx.there b hb)⟩
  obtain ⟨_, _, hr, -⟩ := ok_of_bind hs
  exact hx.new hr

theorem declare (hne : ctx ≠ []) (b : Binder) {t : Token} (hb : b.name = t.lexeme) :
    Declares (Scope.declare t) ctx (ctx.declare t.lexeme .pending) [b] := by
  refine ⟨fun {D s} hs => ⟨by simp, fun c hc => ?_⟩, fun c hc => ?_⟩
  · rw [List.mem_singleton.1 hc, hb]
    exact (declare_ok_iff.1 hs).1
  · rw [List.mem_singleton.1 hc, hb, Surroundings.declaresHere_declare hne, beq_self_eq_true,
      Bool.true_or]

/-- Declaring a name at a stroke. -/
theorem introduce (hne : ctx ≠ []) (b : Binder) {t : Token} (hb : b.name = t.lexeme) (sure : Bool)
    (y : Walk Unit) :
    Declares (do Scope.declare t; Scope.define t; y) ctx (ctx.introduce t.lexeme sure) [b] :=
  (declare hne b hb).behind (.declare _ _ .refl) (do Scope.define t; y)

theorem params (hne : ctx ≠ []) (ps : List Parameter) :
    Declares (declareParams ps) ctx (ctx.introduceParams ps)
      (ps.map fun p => .variable p.left) := by
  induction ps generalizing ctx with
  | nil => exact nothing _ _ _
  | cons p ps ih =>
    have hfirst : Declares (do Scope.declare p.left; Scope.define p.left) ctx
        (ctx.introduce p.left.lexeme true) [.variable p.left] :=
      (declare hne (.variable p.left) rfl).behind (.declare _ _ .refl) _
    have hrecords : Records (do Scope.declare p.left; Scope.define p.left) ctx
        (ctx.introduce p.left.lexeme true) [] :=
      (Records.declare p.left).before (.define p.left true)
    have hext : ctx.Extends (ctx.introduce p.left.lexeme true) := .introduce _ _
    have hassoc : declareParams (p :: ps) =
        (do (do Scope.declare p.left; Scope.define p.left); declareParams ps) := by
      rw [declareParams, bind_assoc]
    rw [hassoc]
    exact hfirst.seq hrecords hext (ih (hext.ne_nil hne)) (.introduceParams ps)

end Declares

mutual

theorem walkStmt_declares {k : Context} {ctx : Surroundings} (hk : k.Fits ctx) (hne : ctx ≠ [])
    (sure : Bool) : (s : Stmt) → Declares (walkStmt k s) ctx (s.after sure ctx) s.binders
  | .variable name _ _ init => by
    simp only [walkStmt, Stmt.after, Stmt.binders]
    have hpending : ctx.Extends (.declare name.lexeme .pending ctx) := .declare _ _ .refl
    have hinit := walkOption_declares (hk.extends hpending) (hpending.ne_nil hne) false init
    have hafter := optionAfter_extends false (.declare name.lexeme .pending ctx) init
    exact (Declares.declare hne (.variable name) rfl).seq (.declare name) hpending
      (hinit.behind (.declare _ _ .refl) _) (.declare _ _ hafter)
  | .functionDecl declaration => by
    simp only [walkStmt, Stmt.after, Stmt.binders]
    exact .introduce hne _ rfl sure _
  | .classDecl (.mk name methods fields) => by
    simp only [walkStmt, walkClass, Stmt.after, Stmt.binders]
    exact .introduce hne _ rfl sure _
  | .cond _ condition thenBranch elseBranch => by
    simp only [walkStmt, Stmt.after, Stmt.binders]
    have hext := thenBranch.after_extends false ctx
    have hthen := walkStmt_declares hk hne false thenBranch
    have helse := walkOption_declares (hk.extends hext) (hext.ne_nil hne) false elseBranch
    have helseAfter := optionAfter_extends false (thenBranch.after false ctx) elseBranch
    exact .before (walkExpr_records hk condition)
      (hthen.seq (walkStmt_records hk false thenBranch) hext helse helseAfter)
      (hext.trans helseAfter)
  | .loop condition body _ => by
    simp only [walkStmt, Stmt.after, Stmt.binders]
    exact .before (walkExpr_records hk condition) (walkStmt_declares hk hne false body)
      (body.after_extends false ctx)
  | .returns keyword value => by
    simp only [walkStmt, Stmt.after, Stmt.binders]
    have hvalue := walkStmt_declares hk hne false value
    cases k.body with
    | program | constructor => exact ⟨fun hs => (by cases hs), hvalue.there⟩
    | function | method => exact hvalue
  | .object properties => by
    simp only [walkStmt, Stmt.after, Stmt.binders]
    exact walkProperties_declares hk hne false properties
  | .empty | .block _ | .expression _ _ | .indexAssign _ _ _ _ => by
    simp only [Stmt.binders]
    exact .nothing _ _ _

theorem walkOption_declares {k : Context} {ctx : Surroundings} (hk : k.Fits ctx) (hne : ctx ≠ [])
    (sure : Bool) : (o : Option Stmt) →
      Declares (walkOption k o) ctx (optionAfter sure ctx o) (optionBinders o)
  | none => by
    simp only [optionBinders]
    exact .nothing _ _ _
  | some s => by
    simp only [walkOption, optionAfter, optionBinders]
    exact walkStmt_declares hk hne sure s

theorem walkProperties_declares {k : Context} {ctx : Surroundings} (hk : k.Fits ctx)
    (hne : ctx ≠ []) (sure : Bool) : (ps : List StmtEntry) →
      Declares (walkProperties k ps) ctx (propertiesAfter sure ctx ps) (propertiesBinders ps)
  | [] => by
    simp only [propertiesBinders]
    exact .nothing _ _ _
  | .mk _ s :: ps => by
    simp only [walkProperties, propertiesAfter, propertiesBinders]
    have hext := s.after_extends sure ctx
    exact (walkStmt_declares hk hne sure s).seq (walkStmt_records hk sure s) hext
      (walkProperties_declares (hk.extends hext) (hext.ne_nil hne) sure ps)
      (propertiesAfter_extends sure _ ps)

end

theorem walkStmts_declares {k : Context} {ctx : Surroundings} (hk : k.Fits ctx) (hne : ctx ≠ [])
    (sure : Bool) (ss : List Stmt) :
    Declares (walkStmts k ss) ctx (stmtsAfter sure ctx ss) (stmtsBinders ss) := by
  induction ss generalizing ctx with
  | nil => exact .nothing _ _ _
  | cons s ss ih =>
    simp only [walkStmts, stmtsAfter, stmtsBinders]
    have hext := s.after_extends sure ctx
    exact (walkStmt_declares hk hne sure s).seq (walkStmt_records hk sure s) hext
      (ih (hk.extends hext) (hext.ne_nil hne)) (stmtsAfter_extends sure _ ss)

/-! ### Blocks and functions that a walk has passed -/

variable {k : Context} {ctx : Surroundings} {D : Distances} {st : State}

theorem of_introduce {t : Token} (sure : Bool) {x : Walk Unit}
    (h : (do Scope.declare t; Scope.define t; x) ⟨ctx.layers, D⟩ = .ok () st) :
    x ⟨(ctx.introduce t.lexeme sure).layers, D⟩ = .ok () st := by
  obtain ⟨_, _, hdeclare, h⟩ := ok_of_bind h
  obtain ⟨_, _, hdefine, h⟩ := ok_of_bind h
  obtain ⟨rfl, -⟩ := (Records.declare t).result hdeclare
  obtain ⟨rfl, -⟩ := (Records.define t sure).result hdefine
  exact h

theorem walkFunction_distinct (hc : k.inClass = true → ctx.InClass) {d : FunctionDecl}
    (h : walkFunction k d ⟨ctx.layers, D⟩ = .ok () st) :
    ((Region.function d).binders.map Binder.name).Nodup := by
  obtain ⟨name, params, body, result⟩ := d
  rw [walkFunction] at h
  obtain ⟨st', hin, -⟩ := ok_of_within h
  have hne : (⟨.function (.mk name params body result), []⟩ :: ctx : Surroundings) ≠ [] :=
    List.cons_ne_nil _ _
  have hext : Surroundings.Extends (⟨.function (.mk name params body result), []⟩ :: ctx)
    (ctx.enterFunction (.mk name params body result)) := .introduceParams params
  have hbody := walkStmts_declares (.function hc (.mk name params body result)) (hext.ne_nil hne)
    true body
  exact (((Declares.params hne params).seq (.params params) hext hbody
    (stmtsAfter_extends _ _ _)).new hin).1

theorem of_walkMethods (hk : k.Fits ctx) {ms : List FunctionDecl}
    (h : walkMethods k ms ⟨ctx.layers, D⟩ = .ok () st) :
    ∀ m ∈ ms, ((Region.function m).binders.map Binder.name).Nodup := by
  induction ms generalizing D with
  | nil => simp
  | cons m ms ih =>
    rw [walkMethods] at h
    obtain ⟨_, st₁, hm, h⟩ := ok_of_bind h
    have hcls : ({ k with body := methodBody m } : Context).inClass = true → ctx.InClass := hk.cls
    obtain ⟨rfl, -⟩ := (walkFunction_records hcls m).result hm
    exact List.forall_mem_cons.2 ⟨walkFunction_distinct hcls hm, ih h⟩

theorem of_walkClass (hk : k.Fits ctx) {c : ClassDecl}
    (h : walkClass k c ⟨ctx.layers, D⟩ = .ok () st) :
    ∀ m ∈ c.methods, ((Region.function m).binders.map Binder.name).Nodup := by
  obtain ⟨name, methods, fields⟩ := c
  rw [walkClass] at h
  have hin := (hk.extends (.introduce name.lexeme true)).inClass (.mk name methods fields)
  obtain ⟨st', h, -⟩ := ok_of_within (of_introduce true h)
  obtain ⟨_, st₁, hfields, hmethods⟩ := ok_of_bind h
  obtain ⟨rfl, -⟩ := (walkFields_records hin fields).result hfields
  exact of_walkMethods hin hmethods

end Scope

open Scope

namespace Place.Passed

variable {ctx : Surroundings}

/-- A block that has been passed declares no name twice. -/
theorem block {ss : List Stmt} (h : Place.Passed ⟨ctx, .stmt (.block ss)⟩) :
    ((Region.block ss).binders.map Binder.name).Nodup := by
  obtain ⟨k, hk, D, st, hwalk⟩ := h.stmt _ rfl rfl
  rw [walkStmt] at hwalk
  obtain ⟨st', hin, -⟩ := ok_of_within hwalk
  have hblock : k.Fits (ctx.enterBlock ss) := hk.cons _
  exact ((walkStmts_declares hblock (List.cons_ne_nil _ _) true ss).new hin).1

/-- Neither does a function, with its parameters. -/
theorem distinct {p : Place} (h : p.Passed) {d : FunctionDecl} (hd : d ∈ p.node.functions) :
    ((Region.function d).binders.map Binder.name).Nodup := by
  obtain ⟨ctx, n⟩ := p
  cases n with
  | expr e =>
    cases e with
    | function token declaration =>
      obtain rfl := List.mem_singleton.1 hd
      obtain ⟨k, hc, D, st, hwalk⟩ := h.function _ _ rfl
      exact walkFunction_distinct hc hwalk
    | _ => cases hd
  | stmt s =>
    cases s with
    | functionDecl declaration =>
      obtain rfl := List.mem_singleton.1 hd
      obtain ⟨k, hk, D, st, hwalk⟩ := h.stmt _ rfl rfl
      rw [walkStmt] at hwalk
      have hin := hk.extends (.introduce d.name.lexeme true)
      exact @walkFunction_distinct { k with body := .function } _ _ _ hin.cls _
        (of_introduce true hwalk)
    | classDecl declaration =>
      obtain ⟨k, hk, D, st, hwalk⟩ := h.stmt _ rfl rfl
      rw [walkStmt] at hwalk
      exact of_walkClass hk hwalk d hd
    | _ => cases hd

end Place.Passed

end ScopedScript
