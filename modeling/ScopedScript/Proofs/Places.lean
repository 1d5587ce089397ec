import ScopedScript.Machine

/-! # Places

Where the nodes of a program stand.  The *surroundings* of a node are the regions that enclose it,
innermost first, each with the names declared in it before the node.  `Expr.places` and its
companions list the nodes of a tree with their surroundings, in the order in which the scope
analysis comes to them.

* **Standing.** A name has one of three standings.  It is *pending* between the start of its
  declaration and the end of its initialiser; after that it is *settled* if executing the
  statements up to here has certainly executed its declaration, and *skippable* if the declaration
  is itself the body of a loop or the branch of a conditional, which may not have been executed.
* **Layers.** Forgetting regions and standings leaves the layers of the scope analysis
  (`Surroundings.layers`). -/

namespace ScopedScript

/-! ### Surroundings -/

/-- How far the declaration of a name has come at a place. -/
inductive Standing where
  | settled | pending | skippable
  deriving DecidableEq, Repr

/-- The standing that a declaration gives its name in the end.  `sure` tells that the declaration
is executed whenever the statements around it are. -/
def Standing.ofSure (sure : Bool) : Standing := if sure then .settled else .skippable

/-- A region around a node, and the names declared in it so far, the last one first. -/
structure Surrounding where
  region : Region
  names : List (String × Standing)

namespace Surrounding

/-- The layer of the scope analysis: a name is ready unless it is pending. -/
def layer (s : Surrounding) : Scope.Layer := s.names.map fun p => (p.1, p.2 != .pending)

/-- Is the name declared in the region so far? -/
def declares (s : Surrounding) (name : String) : Bool := s.names.any (·.1 == name)

theorem layer_declares (s : Surrounding) (name : String) :
    s.layer.declares name = s.declares name := by
  unfold layer Scope.Layer.declares declares
  rw [List.any_map]
  rfl

end Surrounding

/-- A region as it is entered. -/
inductive Surrounding.Fresh : Surrounding → Prop
  | block (statements : List Stmt) : Fresh ⟨.block statements, []⟩
  | function (declaration : FunctionDecl) : Fresh ⟨.function declaration, []⟩
  | receiver (declaration : ClassDecl) : Fresh ⟨.receiver declaration, [("this", .settled)]⟩

/-- The regions around a node, innermost first. -/
abbrev Surroundings := List Surrounding

namespace Surroundings

/-- The layers of the scope analysis. -/
def layers (ctx : Surroundings) : List Scope.Layer := ctx.map Surrounding.layer

/-- The regions alone. -/
def regions (ctx : Surroundings) : List Region := ctx.map Surrounding.region

/-- The number of regions between a node and the innermost one that declares the name. -/
def distance? (ctx : Surroundings) (name : String) : Option Nat :=
  ctx.findIdx? (·.declares name)

/-- Is one of the regions a function? -/
def InFunction (ctx : Surroundings) : Prop := ∃ d, Region.function d ∈ ctx.regions

/-- Is one of the regions a class? -/
def InClass (ctx : Surroundings) : Prop := ∃ d, Region.receiver d ∈ ctx.regions

/-- Adds a name to the innermost region. -/
def declare (name : String) (standing : Standing) : Surroundings → Surroundings
  | s :: outer => ⟨s.region, (name, standing) :: s.names⟩ :: outer
  | [] => []

/-- Adds a name that is declared at a stroke. -/
def introduce (name : String) (sure : Bool) (ctx : Surroundings) : Surroundings :=
  declare name (.ofSure sure) (declare name .pending ctx)

/-- Adds the names of parameters. -/
def introduceParams : List Parameter → Surroundings → Surroundings
  | [], ctx => ctx
  | p :: ps, ctx => introduceParams ps (introduce p.left.lexeme true ctx)

/-- Inside a block. -/
def enterBlock (statements : List Stmt) (ctx : Surroundings) : Surroundings :=
  ⟨.block statements, []⟩ :: ctx

/-- In the body of a function, whose parameters are declared. -/
def enterFunction (declaration : FunctionDecl) (ctx : Surroundings) : Surroundings :=
  introduceParams declaration.params (⟨.function declaration, []⟩ :: ctx)

/-- In the body of a class. -/
def enterClass (declaration : ClassDecl) (ctx : Surroundings) : Surroundings :=
  ⟨.receiver declaration, [("this", .settled)]⟩ :: ctx

/-- At the start of a program. -/
def top : Surroundings := [⟨.globals, []⟩]

theorem layers_distance? (ctx : Surroundings) (name : String) :
    Scope.distance? ctx.layers name = ctx.distance? name := by
  unfold Scope.distance? layers distance?
  rw [List.findIdx?_map]
  congr 1
  funext s
  exact s.layer_declares name

theorem layers_declare (name : String) (standing : Standing) (ctx : Surroundings) :
    (declare name standing ctx).layers =
      Scope.addEntry name (standing != .pending) ctx.layers := by
  cases ctx <;> rfl

@[simp] theorem regions_declare (name : String) (standing : Standing) (ctx : Surroundings) :
    (declare name standing ctx).regions = ctx.regions := by
  cases ctx <;> rfl

theorem layers_introduce (name : String) (sure : Bool) (ctx : Surroundings) :
    (introduce name sure ctx).layers =
      Scope.addEntry name true (Scope.addEntry name false ctx.layers) := by
  unfold introduce
  rw [layers_declare, layers_declare]
  cases sure <;> rfl

end Surroundings

/-! ### Nodes -/

/-- A node of a program. -/
inductive Node where
  | expr (e : Expr)
  | stmt (s : Stmt)

/-- The number and the token of a node that reads or writes a variable. -/
def Node.reference? : Node → Option (NodeId × Token)
  | .expr (.name id token) | .expr (.this id token) => some (id, token)
  | .expr (.index id name _) | .expr (.assign id name _) => some (id, name)
  | .stmt (.indexAssign id name _ _) => some (id, name)
  | _ => none

/-- Is the node no empty statement? -/
def Node.isFilled : Node → Bool
  | .stmt .empty => false
  | _ => true

theorem Node.isFilled_iff {n : Node} : n.isFilled = true ↔ n ≠ .stmt .empty := by
  cases n with
  | expr e => simp [isFilled]
  | stmt s => cases s <;> simp [isFilled]

/-- What kind of node it is, as far as alike trees are asked for it. -/
inductive Shape where
  | empty
  | classDecl
  | other
  deriving DecidableEq

/-- The shape of a node. -/
def Node.shape : Node → Shape
  | .stmt .empty => .empty
  | .stmt (.classDecl _) => .classDecl
  | _ => .other

theorem Node.shape_eq_empty {n : Node} : n.shape = .empty ↔ n = .stmt .empty := by
  cases n with
  | expr e => simp [shape]
  | stmt s => cases s <;> simp [shape]

theorem Node.shape_eq_classDecl {n : Node} :
    n.shape = .classDecl ↔ ∃ c, n = .stmt (.classDecl c) := by
  cases n with
  | expr e => simp [shape]
  | stmt s => cases s <;> simp [shape]

/-- The token that names what a statement declares. -/
def Stmt.declares? : Stmt → Option Token
  | .variable name _ _ _ => some name
  | .functionDecl declaration => some declaration.name
  | .classDecl declaration => some declaration.name
  | _ => none

/-- The token that names what a node declares. -/
def Node.declares? : Node → Option Token
  | .stmt s => s.declares?
  | .expr _ => none

/-- The functions that a node makes or declares, the methods of a class among them. -/
def Node.functions : Node → List FunctionDecl
  | .expr (.function _ declaration) | .stmt (.functionDecl declaration) => [declaration]
  | .stmt (.classDecl declaration) => declaration.methods
  | _ => []

/-- A node with what surrounds it. -/
structure Place where
  surroundings : Surroundings
  node : Node

namespace Place

/-- Does no empty statement stand at the place? -/
def isFilled (p : Place) : Bool := p.node.isFilled

/-- The shape of the node at the place. -/
def shape (p : Place) : Shape := p.node.shape

/-- The number of the variable node at the place. -/
def id? (p : Place) : Option NodeId := p.node.reference?.map Prod.fst

/-- The distance from the variable node at the place to the declaration of its name. -/
def distance? (p : Place) : Option Nat :=
  p.node.reference?.bind fun r => p.surroundings.distance? r.2.lexeme

end Place

/-! ### The surroundings after a statement -/

mutual

/-- The surroundings after a statement. -/
def Stmt.after (sure : Bool) (ctx : Surroundings) : Stmt → Surroundings
  | .variable name _ _ init =>
    .declare name.lexeme (.ofSure sure) (optionAfter false (.declare name.lexeme .pending ctx) init)
  | .functionDecl declaration => .introduce declaration.name.lexeme sure ctx
  | .classDecl declaration => .introduce declaration.name.lexeme sure ctx
  | .cond _ _ thenBranch elseBranch => optionAfter false (thenBranch.after false ctx) elseBranch
  | .loop _ body _ => body.after false ctx
  | .returns _ value => value.after false ctx
  | .object properties => propertiesAfter false ctx properties
  | .empty | .block _ | .expression _ _ | .indexAssign _ _ _ _ => ctx

/-- The surroundings after a statement that may be missing. -/
def optionAfter (sure : Bool) (ctx : Surroundings) : Option Stmt → Surroundings
  | none => ctx
  | some s => s.after sure ctx

/-- The surroundings after the values of an object statement. -/
def propertiesAfter (sure : Bool) (ctx : Surroundings) : List StmtEntry → Surroundings
  | [] => ctx
  | .mk _ s :: properties => propertiesAfter sure (s.after sure ctx) properties

end

/-- The surroundings after statements. -/
def stmtsAfter (sure : Bool) (ctx : Surroundings) : List Stmt → Surroundings
  | [] => ctx
  | s :: ss => stmtsAfter sure (s.after sure ctx) ss

/-- Names have been added to the innermost region. -/
inductive Surroundings.Extends (ctx : Surroundings) : Surroundings → Prop
  | refl : Extends ctx ctx
  | declare {ctx' : Surroundings} (name : String) (standing : Standing) : Extends ctx ctx' →
      Extends ctx (ctx'.declare name standing)

namespace Surroundings.Extends

variable {ctx ctx' ctx'' : Surroundings}

theorem trans (h : Extends ctx ctx') (h' : Extends ctx' ctx'') : Extends ctx ctx'' := by
  induction h' with
  | refl => exact h
  | declare name standing _ ih => exact .declare name standing ih

theorem introduce (name : String) (sure : Bool) : Extends ctx (ctx.introduce name sure) :=
  .declare _ _ (.declare _ _ .refl)

theorem introduceParams (ps : List Parameter) : Extends ctx (ctx.introduceParams ps) := by
  induction ps generalizing ctx with
  | nil => exact .refl
  | cons p ps ih => exact (introduce p.left.lexeme true).trans ih

theorem regions (h : Extends ctx ctx') : ctx'.regions = ctx.regions := by
  induction h with
  | refl => rfl
  | declare name standing _ ih => rw [regions_declare, ih]

theorem tail (h : Extends ctx ctx') : ctx'.tail = ctx.tail := by
  induction h with
  | refl => rfl
  | @declare ctx' name standing _ ih =>
    rw [← ih]
    cases ctx' <;> rfl

end Surroundings.Extends

mutual

theorem Stmt.after_extends (sure : Bool) (ctx : Surroundings) :
    (s : Stmt) → ctx.Extends (s.after sure ctx)
  | .variable name _ _ init => by
    simp only [Stmt.after]
    have hpending : ctx.Extends (.declare name.lexeme .pending ctx) := .declare _ _ .refl
    exact .declare _ _ (hpending.trans (optionAfter_extends _ _ init))
  | .functionDecl _ => by
    simp only [Stmt.after]
    exact .introduce _ _
  | .classDecl _ => by
    simp only [Stmt.after]
    exact .introduce _ _
  | .cond _ _ thenBranch elseBranch => by
    simp only [Stmt.after]
    exact (thenBranch.after_extends false ctx).trans (optionAfter_extends _ _ elseBranch)
  | .loop _ body _ => by
    simp only [Stmt.after]
    exact body.after_extends false ctx
  | .returns _ value => by
    simp only [Stmt.after]
    exact value.after_extends false ctx
  | .object properties => by
    simp only [Stmt.after]
    exact propertiesAfter_extends false ctx properties
  | .empty | .block _ | .expression _ _ | .indexAssign _ _ _ _ => by
    simp only [Stmt.after]
    exact .refl

theorem optionAfter_extends (sure : Bool) (ctx : Surroundings) :
    (o : Option Stmt) → ctx.Extends (optionAfter sure ctx o)
  | none => by
    simp only [optionAfter]
    exact .refl
  | some s => by
    simp only [optionAfter]
    exact s.after_extends sure ctx

theorem propertiesAfter_extends (sure : Bool) (ctx : Surroundings) :
    (ps : List StmtEntry) → ctx.Extends (propertiesAfter sure ctx ps)
  | [] => by
    simp only [propertiesAfter]
    exact .refl
  | .mk _ s :: ps => by
    simp only [propertiesAfter]
    exact (s.after_extends sure ctx).trans (propertiesAfter_extends sure _ ps)

end

theorem stmtsAfter_extends (sure : Bool) (ctx : Surroundings) (ss : List Stmt) :
    ctx.Extends (stmtsAfter sure ctx ss) := by
  induction ss generalizing ctx with
  | nil => exact .refl
  | cons s ss ih => exact (s.after_extends sure ctx).trans (ih _)

/-! ### The places of a tree -/

mutual

/-- The nodes of an expression. -/
def Expr.places (ctx : Surroundings) : Expr → List Place
  | .grouping inner => ⟨ctx, .expr (.grouping inner)⟩ :: inner.places ctx
  | .binary left operator right =>
    ⟨ctx, .expr (.binary left operator right)⟩ :: (left.places ctx ++ right.places ctx)
  | .unary operator operand => ⟨ctx, .expr (.unary operator operand)⟩ :: operand.places ctx
  | .literal kind value => ⟨ctx, .expr (.literal kind value)⟩ :: value.places ctx
  | .name id token => [⟨ctx, .expr (.name id token)⟩]
  | .this id keyword => [⟨ctx, .expr (.this id keyword)⟩]
  | .function token declaration =>
    ⟨ctx, .expr (.function token declaration)⟩ :: declaration.places ctx
  | .call callee paren args =>
    ⟨ctx, .expr (.call callee paren args)⟩ :: (callee.places ctx ++ exprsPlaces ctx args)
  | .index id name index => ⟨ctx, .expr (.index id name index)⟩ :: index.places ctx
  | .get object name => ⟨ctx, .expr (.get object name)⟩ :: object.places ctx
  | .set object name value =>
    ⟨ctx, .expr (.set object name value)⟩ :: (value.places ctx ++ object.places ctx)
  | .object brace entries => ⟨ctx, .expr (.object brace entries)⟩ :: entriesPlaces ctx entries
  | .assign id name value => value.places ctx ++ [⟨ctx, .expr (.assign id name value)⟩]

/-- The nodes of expressions. -/
def exprsPlaces (ctx : Surroundings) : List Expr → List Place
  | [] => []
  | e :: es => e.places ctx ++ exprsPlaces ctx es

/-- The nodes of the elements of a list literal. -/
def LiteralValue.places (ctx : Surroundings) : LiteralValue → List Place
  | .list elements => exprsPlaces ctx elements
  | _ => []

/-- The nodes of the values of an object literal. -/
def entriesPlaces (ctx : Surroundings) : List Entry → List Place
  | [] => []
  | .mk _ value :: entries => value.places ctx ++ entriesPlaces ctx entries

/-- The nodes of a statement. -/
def Stmt.places (sure : Bool) (ctx : Surroundings) : Stmt → List Place
  | .empty => [⟨ctx, .stmt .empty⟩]
  | .block statements =>
    ⟨ctx, .stmt (.block statements)⟩ :: stmtsPlaces true (ctx.enterBlock statements) statements
  | .expression e token => ⟨ctx, .stmt (.expression e token)⟩ :: e.places ctx
  | .variable name kind ty init =>
    ⟨ctx, .stmt (.variable name kind ty init)⟩ ::
      optionPlaces false (.declare name.lexeme .pending ctx) init
  | .indexAssign id name index value =>
    index.places ctx ++ value.places ctx ++ [⟨ctx, .stmt (.indexAssign id name index value)⟩]
  | .functionDecl declaration =>
    ⟨ctx, .stmt (.functionDecl declaration)⟩ ::
      declaration.places (.introduce declaration.name.lexeme sure ctx)
  | .cond keyword condition thenBranch elseBranch =>
    ⟨ctx, .stmt (.cond keyword condition thenBranch elseBranch)⟩ ::
      (condition.places ctx ++ thenBranch.places false ctx ++
        optionPlaces false (thenBranch.after false ctx) elseBranch)
  | .loop condition body token =>
    ⟨ctx, .stmt (.loop condition body token)⟩ :: (condition.places ctx ++ body.places false ctx)
  | .returns keyword value => ⟨ctx, .stmt (.returns keyword value)⟩ :: value.places false ctx
  | .object properties => ⟨ctx, .stmt (.object properties)⟩ :: propertiesPlaces false ctx properties
  | .classDecl declaration =>
    ⟨ctx, .stmt (.classDecl declaration)⟩ ::
      declaration.places (.introduce declaration.name.lexeme sure ctx)

/-- The nodes of a statement that may be missing. -/
def optionPlaces (sure : Bool) (ctx : Surroundings) : Option Stmt → List Place
  | none => []
  | some s => s.places sure ctx

/-- The nodes of statements. -/
def stmtsPlaces (sure : Bool) (ctx : Surroundings) : List Stmt → List Place
  | [] => []
  | s :: ss => s.places sure ctx ++ stmtsPlaces sure (s.after sure ctx) ss

/-- The nodes of the values of an object statement. -/
def propertiesPlaces (sure : Bool) (ctx : Surroundings) : List StmtEntry → List Place
  | [] => []
  | .mk _ s :: properties =>
    s.places sure ctx ++ propertiesPlaces sure (s.after sure ctx) properties

/-- The nodes of the body of a function. -/
def FunctionDecl.places (ctx : Surroundings) : FunctionDecl → List Place
  | .mk name params body result =>
    stmtsPlaces true (ctx.enterFunction (.mk name params body result)) body

/-- The nodes of the body of a class. -/
def ClassDecl.places (ctx : Surroundings) : ClassDecl → List Place
  | .mk name methods fields =>
    fieldsPlaces (ctx.enterClass (.mk name methods fields)) fields ++
      methodsPlaces (ctx.enterClass (.mk name methods fields)) methods

/-- The nodes of the initialisers of fields. -/
def fieldsPlaces (ctx : Surroundings) : List FieldDecl → List Place
  | [] => []
  | .mk _ _ init :: fields => init.places ctx ++ fieldsPlaces ctx fields

/-- The nodes of the bodies of methods. -/
def methodsPlaces (ctx : Surroundings) : List FunctionDecl → List Place
  | [] => []
  | m :: ms => m.places ctx ++ methodsPlaces ctx ms

end

/-- The nodes of a program. -/
def Program.places (program : Program) : List Place := stmtsPlaces true .top program

theorem Stmt.self_mem_places (sure : Bool) (ctx : Surroundings) (s : Stmt) :
    ⟨ctx, .stmt s⟩ ∈ s.places sure ctx := by
  cases s <;> simp [Stmt.places]

/-- Each of a row of statements is at a place of its own, in the regions of the row. -/
theorem stmtsPlaces_of_mem {ss : List Stmt} {s : Stmt} (hs : s ∈ ss) (sure : Bool)
    (ctx : Surroundings) :
    ∃ ctx', ctx.Extends ctx' ∧ ⟨ctx', .stmt s⟩ ∈ stmtsPlaces sure ctx ss := by
  induction ss generalizing ctx with
  | nil => cases hs
  | cons s₁ ss ih =>
    simp only [stmtsPlaces, List.mem_append]
    rcases List.mem_cons.1 hs with rfl | hs
    · exact ⟨ctx, .refl, .inl (s.self_mem_places sure ctx)⟩
    · obtain ⟨ctx', hctx', hmem⟩ := ih hs (s₁.after sure ctx)
      exact ⟨ctx', (s₁.after_extends sure ctx).trans hctx', .inr hmem⟩

end ScopedScript
