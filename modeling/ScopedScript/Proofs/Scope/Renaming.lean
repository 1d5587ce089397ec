import Mathlib.Logic.Equiv.Basic
import ScopedScript.Proofs.Scope.Declarations
import ScopedScript.Proofs.Scope.Programs

/-! # Renaming a local variable

A variable of a block or of a function can be given another name: at its declaration, and at the
nodes whose reads and writes the scope analysis resolves to the region that declares it.

* A `Renaming` is given by the token that declares the variable, its *site*, and the new name.  It
  *hits* the region that the site belongs to, and exchanges the old and the new name there.  Where
  the new name does not occur, this puts it in the place of the old one.
* `Program.rename` renames a program.  A node is renamed if the innermost region that declares
  its name is hit (`Renaming.reference`), which is the region that the analysis finds.
* A program that passes the analysis declares no name twice in a region (`Renaming.spares_of_nodup`),
  so the old name belongs to the site alone.  The renamed program passes the analysis as well, with
  the same table of distances (`resolve_rename`).
* A node is renamed in the way of the region that its distance leads to
  (`Renaming.reference_of_distance`). -/

namespace ScopedScript

/-! ### Names that are mentioned -/

/-- The names of variables that a node mentions itself.  A class declares `this`. -/
def Node.names : Node → List String
  | .expr (.name _ token) | .expr (.this _ token) => [token.lexeme]
  | .expr (.index _ name _) | .expr (.assign _ name _) => [name.lexeme]
  | .stmt (.indexAssign _ name _ _) => [name.lexeme]
  | .expr (.function _ declaration) => declaration.params.map (·.left.lexeme)
  | .stmt (.variable name _ _ _) => [name.lexeme]
  | .stmt (.functionDecl declaration) =>
    declaration.name.lexeme :: declaration.params.map (·.left.lexeme)
  | .stmt (.classDecl declaration) =>
    "this" :: declaration.name.lexeme ::
      declaration.methods.flatMap fun m => m.params.map (·.left.lexeme)
  | _ => []

/-- The names of variables that a program mentions. -/
def Program.names (program : Program) : List String := program.places.flatMap (·.node.names)

/-- The node at the place does not mention the name. -/
def Place.Avoids (x : String) (p : Place) : Prop := x ∉ p.node.names

theorem Place.Avoids.ne {x : String} {p : Place} {t : Token} (h : p.Avoids x)
    (ht : t.lexeme ∈ p.node.names) : t.lexeme ≠ x := fun heq => h (heq ▸ ht)

/-! ### Renaming -/

/-- A new name for the variable that is declared at the site. -/
structure Renaming where
  site : Token
  new : String

namespace Renaming

variable (ρ : Renaming)

/-- The name that the variable has had. -/
def old : String := ρ.site.lexeme

/-- Is this the declaration at the site? -/
def isSite : Binder → Bool
  | .variable name =>
    name.line == ρ.site.line && name.column == ρ.site.column && name.lexeme == ρ.old
  | .callable _ => false

/-- Is the site in the region itself? -/
def hits (region : Region) : Bool := region.binders.any ρ.isSite

/-- What a name of the region becomes. -/
def rename (region : Region) (name : String) : String :=
  if ρ.hits region then Equiv.swap ρ.old ρ.new name else name

/-- The token of a name of the region. -/
def token (region : Region) (t : Token) : Token := { t with lexeme := ρ.rename region t.lexeme }

/-- The token of a node that reads or writes a variable: the innermost region that declares the
name decides. -/
def reference (ctx : Surroundings) (t : Token) : Token :=
  match ctx.find? (·.declares t.lexeme) with
  | some s => ρ.token s.region t
  | none => t

/-- The token of a declaration in the innermost region. -/
def declaration (ctx : Surroundings) (t : Token) : Token :=
  match ctx with
  | s :: _ => ρ.token s.region t
  | [] => t

/-- A parameter of the function. -/
def param (function : FunctionDecl) : Parameter → Parameter
  | .mk name ty left right =>
    .mk (ρ.rename (.function function) name) ty (ρ.token (.function function) left) right

end Renaming

mutual

/-- Renames in an expression. -/
def Expr.rename (ρ : Renaming) (ctx : Surroundings) : Expr → Expr
  | .grouping inner => .grouping (inner.rename ρ ctx)
  | .binary left operator right => .binary (left.rename ρ ctx) operator (right.rename ρ ctx)
  | .unary operator operand => .unary operator (operand.rename ρ ctx)
  | .literal kind value => .literal kind (value.rename ρ ctx)
  | .name id token => .name id (ρ.reference ctx token)
  | .this id keyword => .this id (ρ.reference ctx keyword)
  | .function token declaration => .function token (declaration.rename ρ ctx)
  | .call callee paren args => .call (callee.rename ρ ctx) paren (exprsRename ρ ctx args)
  | .index id name index => .index id (ρ.reference ctx name) (index.rename ρ ctx)
  | .get object name => .get (object.rename ρ ctx) name
  | .set object name value => .set (object.rename ρ ctx) name (value.rename ρ ctx)
  | .object brace entries => .object brace (entriesRename ρ ctx entries)
  | .assign id name value => .assign id (ρ.reference ctx name) (value.rename ρ ctx)

/-- Renames in expressions. -/
def exprsRename (ρ : Renaming) (ctx : Surroundings) : List Expr → List Expr
  | [] => []
  | e :: es => e.rename ρ ctx :: exprsRename ρ ctx es

/-- Renames in the elements of a list literal. -/
def LiteralValue.rename (ρ : Renaming) (ctx : Surroundings) : LiteralValue → LiteralValue
  | .list elements => .list (exprsRename ρ ctx elements)
  | v => v

/-- Renames in the values of an object literal. -/
def entriesRename (ρ : Renaming) (ctx : Surroundings) : List Entry → List Entry
  | [] => []
  | .mk key value :: entries => .mk key (value.rename ρ ctx) :: entriesRename ρ ctx entries

/-- Renames in a statement. -/
def Stmt.rename (ρ : Renaming) (sure : Bool) (ctx : Surroundings) : Stmt → Stmt
  | .empty => .empty
  | .block statements =>
    .block (stmtsRename ρ true (ctx.enterBlock statements) statements)
  | .expression e token => .expression (e.rename ρ ctx) token
  | .variable name kind ty init =>
    .variable (ρ.declaration ctx name) kind ty
      (optionRename ρ false (.declare name.lexeme .pending ctx) init)
  | .indexAssign id name index value =>
    .indexAssign id (ρ.reference ctx name) (index.rename ρ ctx) (value.rename ρ ctx)
  | .functionDecl declaration =>
    .functionDecl (declaration.rename ρ (.introduce declaration.name.lexeme sure ctx))
  | .cond keyword condition thenBranch elseBranch =>
    .cond keyword (condition.rename ρ ctx) (thenBranch.rename ρ false ctx)
      (optionRename ρ false (thenBranch.after false ctx) elseBranch)
  | .loop condition body token =>
    .loop (condition.rename ρ ctx) (body.rename ρ false ctx) token
  | .returns keyword value => .returns keyword (value.rename ρ false ctx)
  | .object properties => .object (propertiesRename ρ false ctx properties)
  | .classDecl declaration =>
    .classDecl (declaration.rename ρ (.introduce declaration.name.lexeme sure ctx))

/-- Renames in a statement that may be missing. -/
def optionRename (ρ : Renaming) (sure : Bool) (ctx : Surroundings) : Option Stmt → Option Stmt
  | none => none
  | some s => some (s.rename ρ sure ctx)

/-- Renames in statements. -/
def stmtsRename (ρ : Renaming) (sure : Bool) (ctx : Surroundings) : List Stmt → List Stmt
  | [] => []
  | s :: ss => s.rename ρ sure ctx :: stmtsRename ρ sure (s.after sure ctx) ss

/-- Renames in the values of an object statement. -/
def propertiesRename (ρ : Renaming) (sure : Bool) (ctx : Surroundings) :
    List StmtEntry → List StmtEntry
  | [] => []
  | .mk key s :: properties =>
    .mk key (s.rename ρ sure ctx) :: propertiesRename ρ sure (s.after sure ctx) properties

/-- Renames in a function. -/
def FunctionDecl.rename (ρ : Renaming) (ctx : Surroundings) : FunctionDecl → FunctionDecl
  | .mk name params body result =>
    .mk name (params.map (ρ.param (.mk name params body result)))
      (stmtsRename ρ true (ctx.enterFunction (.mk name params body result)) body) result

/-- Renames in a class. -/
def ClassDecl.rename (ρ : Renaming) (ctx : Surroundings) : ClassDecl → ClassDecl
  | .mk name methods fields =>
    .mk name (methodsRename ρ (ctx.enterClass (.mk name methods fields)) methods)
      (fieldsRename ρ (ctx.enterClass (.mk name methods fields)) fields)

/-- Renames in the initialisers of fields. -/
def fieldsRename (ρ : Renaming) (ctx : Surroundings) : List FieldDecl → List FieldDecl
  | [] => []
  | .mk name ty init :: fields => .mk name ty (init.rename ρ ctx) :: fieldsRename ρ ctx fields

/-- Renames in methods. -/
def methodsRename (ρ : Renaming) (ctx : Surroundings) : List FunctionDecl → List FunctionDecl
  | [] => []
  | m :: ms => m.rename ρ ctx :: methodsRename ρ ctx ms

end

/-- Renames in a program. -/
def Program.rename (ρ : Renaming) (program : Program) : Program := stmtsRename ρ true .top program

/-! ### Names in a region -/

namespace Renaming

variable {ρ : Renaming} {region : Region} {ctx ctx' : Surroundings} {x : String} {t : Token}

theorem rename_rename (ρ : Renaming) (region : Region) (x : String) :
    ρ.rename region (ρ.rename region x) = x := by
  unfold rename
  split
  · exact Equiv.swap_apply_self _ _ x
  · rfl

theorem rename_injective (ρ : Renaming) (region : Region) :
    Function.Injective (ρ.rename region) :=
  Function.LeftInverse.injective (ρ.rename_rename region)

theorem rename_of_not_hit (h : ρ.hits region = false) (x : String) : ρ.rename region x = x := by
  simp [rename, h]

theorem rename_of_ne (hold : ρ.hits region = true → x ≠ ρ.old) (hnew : x ≠ ρ.new) :
    ρ.rename region x = x := by
  unfold rename
  split
  · next h => exact Equiv.swap_apply_of_ne_of_ne (hold h) hnew
  · rfl

/-- A name stays, or it is the old one and becomes the new one. -/
theorem rename_or (region : Region) (hnew : x ≠ ρ.new) :
    ρ.rename region x = x ∨ x = ρ.old ∧ ρ.rename region x = ρ.new := by
  by_cases hold : x = ρ.old
  · unfold rename
    split
    · exact .inr ⟨hold, by rw [hold, Equiv.swap_apply_left]⟩
    · exact .inl rfl
  · exact .inl (rename_of_ne (fun _ => hold) hnew)

/-- A node is renamed in the way of the region that its distance leads to. -/
theorem reference_of_distance {s : Surrounding} {d : Nat} (hd : ctx.distance? t.lexeme = some d)
    (hs : ctx[d]? = some s) : ρ.reference ctx t = ρ.token s.region t := by
  have hfind : ctx.find? (·.declares t.lexeme) = some s := by
    rw [List.find?_eq_bind_findIdx?_getElem?]
    change (ctx.distance? t.lexeme).bind (fun i => ctx[i]?) = some s
    rw [hd, Option.bind_some, hs]
  rw [reference, hfind]

/-- A node whose name is not declared around it is not renamed. -/
theorem reference_of_undeclared (hd : ctx.distance? t.lexeme = none) : ρ.reference ctx t = t := by
  have hfind : ctx.find? (·.declares t.lexeme) = none := by
    rw [List.find?_eq_bind_findIdx?_getElem?]
    change (ctx.distance? t.lexeme).bind (fun i => ctx[i]?) = none
    rw [hd, Option.bind_none]
  rw [reference, hfind]

/-- The surroundings in the renamed program.  The regions are those of the program itself. -/
def around (ρ : Renaming) (ctx : Surroundings) : Surroundings :=
  ctx.map fun s => ⟨s.region, s.names.map fun n => (ρ.rename s.region n.1, n.2)⟩

theorem declares_around (ρ : Renaming) (s : Surrounding) (x : String) :
    Surrounding.declares ⟨s.region, s.names.map fun n => (ρ.rename s.region n.1, n.2)⟩ x =
      s.declares (ρ.rename s.region x) := by
  unfold Surrounding.declares
  rw [List.any_map]
  congr 1
  funext n
  have hiff : ρ.rename s.region n.1 = x ↔ n.1 = ρ.rename s.region x := by
    rw [← (ρ.rename_injective s.region).eq_iff (a := ρ.rename s.region n.1), rename_rename]
  simp [hiff]

/-- The token names the same variable as before. -/
theorem reference_or (ρ : Renaming) (ctx : Surroundings) (hnew : t.lexeme ≠ ρ.new) :
    ρ.reference ctx t = t ∨ t.lexeme = ρ.old ∧ ρ.reference ctx t = { t with lexeme := ρ.new } := by
  unfold reference
  split
  · next s _ =>
    unfold token
    rcases rename_or s.region hnew with h | ⟨hold, h⟩
    · exact .inl (by rw [h])
    · exact .inr ⟨hold, by rw [h]⟩
  · exact .inl rfl

end Renaming

/-! ### Surroundings without a name -/

namespace Surroundings

variable {ctx ctx' : Surroundings} {x : String}

/-- No region declares the name. -/
def Free (ctx : Surroundings) (x : String) : Prop := ∀ s ∈ ctx, s.declares x = false

theorem Free.push (h : ctx.Free x) {s : Surrounding} (hs : s.declares x = false) :
    Free (s :: ctx) x :=
  List.forall_mem_cons.2 ⟨hs, h⟩

theorem Free.declare (h : ctx.Free x) {name : String} (hname : name ≠ x) (standing : Standing) :
    (ctx.declare name standing).Free x := by
  cases ctx with
  | nil => exact h
  | cons s ctx =>
    obtain ⟨hs, hctx⟩ := List.forall_mem_cons.1 h
    refine Free.push hctx ?_
    simpa [Surrounding.declares, hname] using hs

end Surroundings

namespace Renaming

variable {ρ : Renaming} {ctx : Surroundings} {x : String} {t : Token}

/-- Going inwards to a region, the renamed node asks for the same name, or for one that is not
declared there either. -/
theorem reference_here {s : Surrounding} (hctx : Surroundings.Free (s :: ctx) ρ.new)
    (hnew : t.lexeme ≠ ρ.new) :
    ρ.rename s.region (ρ.reference (s :: ctx) t).lexeme = t.lexeme ∨
      s.declares t.lexeme = false ∧ ρ.reference (s :: ctx) t = ρ.reference ctx t ∧
        s.declares (ρ.rename s.region (ρ.reference (s :: ctx) t).lexeme) = false := by
  obtain ⟨hs, -⟩ := List.forall_mem_cons.1 hctx
  cases hd : s.declares t.lexeme with
  | true =>
    have href : (ρ.reference (s :: ctx) t).lexeme = ρ.rename s.region t.lexeme := by
      simp [reference, hd, token]
    exact .inl (by rw [href, rename_rename])
  | false =>
    have href : ρ.reference (s :: ctx) t = ρ.reference ctx t := by simp [reference, hd]
    refine .inr ⟨rfl, href, ?_⟩
    rw [href]
    rcases ρ.reference_or ctx hnew with h | ⟨hold, h⟩
    · rw [h]
      rcases rename_or s.region hnew with h | ⟨_, h⟩
      · rw [h, hd]
      · rw [h, hs]
    · rw [h]
      by_cases hhit : ρ.hits s.region = true
      · rw [rename, if_pos hhit, Equiv.swap_apply_right, ← hold, hd]
      · rw [rename_of_not_hit (by simpa using hhit), hs]

/-- The renamed node finds its variable as far out as the node itself. -/
theorem distance?_reference (hctx : ctx.Free ρ.new) (hnew : t.lexeme ≠ ρ.new) :
    (ρ.around ctx).distance? (ρ.reference ctx t).lexeme = ctx.distance? t.lexeme := by
  induction ctx with
  | nil => rfl
  | cons s ctx ih =>
    change List.findIdx? _ (_ :: ρ.around ctx) = List.findIdx? _ (s :: ctx)
    rw [List.findIdx?_cons, List.findIdx?_cons, declares_around]
    rcases reference_here hctx hnew with h | ⟨hd, href, hskip⟩
    · rw [h]
      cases hd : s.declares t.lexeme with
      | true => rfl
      | false =>
        have href : ρ.reference (s :: ctx) t = ρ.reference ctx t := by simp [reference, hd]
        have hrest := ih (List.forall_mem_cons.1 hctx).2
        unfold Surroundings.distance? at hrest
        rw [href, hrest]
    · have hrest := ih (List.forall_mem_cons.1 hctx).2
      unfold Surroundings.distance? at hrest
      rw [hskip, hd, href, hrest]

theorem lookup_around (ρ : Renaming) (s : Surrounding) (x : String) :
    List.lookup x (Surrounding.layer
        ⟨s.region, s.names.map fun n => (ρ.rename s.region n.1, n.2)⟩) =
      List.lookup (ρ.rename s.region x) s.layer := by
  obtain ⟨region, names⟩ := s
  unfold Surrounding.layer
  induction names with
  | nil => rfl
  | cons n names ih =>
    have hbeq : (x == ρ.rename region n.1) = (ρ.rename region x == n.1) := by
      rw [Bool.eq_iff_iff, beq_iff_eq, beq_iff_eq,
        ← (ρ.rename_injective region).eq_iff (a := x), rename_rename]
    dsimp only at ih ⊢
    simp only [List.map_cons, List.lookup_cons, ih, hbeq]

theorem lookup_of_not_declared {s : Surrounding} (h : s.declares x = false) :
    s.layer.lookup x = none := by
  obtain ⟨region, names⟩ := s
  unfold Surrounding.layer
  induction names with
  | nil => rfl
  | cons n names ih =>
    obtain ⟨hn, hnames⟩ := Bool.or_eq_false_iff.1 h
    have hne : (x == n.1) = false := beq_false_of_ne fun h => by simp [h] at hn
    simp only [List.map_cons, List.lookup_cons, hne]
    exact ih hnames

/-- Whether a variable is read in its own initialiser stays the same. -/
theorem unready_reference (hctx : ctx.Free ρ.new) (hnew : t.lexeme ≠ ρ.new) :
    Scope.unready (ρ.around ctx).layers (ρ.reference ctx t).lexeme =
      Scope.unready ctx.layers t.lexeme := by
  cases ctx with
  | nil => rfl
  | cons s ctx =>
    change (List.lookup _ _ == some false) = (List.lookup _ _ == some false)
    rw [lookup_around]
    rcases reference_here hctx hnew with h | ⟨hd, -, hskip⟩
    · rw [h]
    · rw [lookup_of_not_declared hd, lookup_of_not_declared hskip]

end Renaming

namespace Renaming

variable {ρ : Renaming} {ctx ctx' : Surroundings} {bs cs : List Binder} {t : Token}

/-- The functions and classes among what is declared do not have the old name, if the innermost
region is hit. -/
def Spares (ρ : Renaming) (ctx : Surroundings) (bs : List Binder) : Prop :=
  ∀ region ∈ ctx.regions.head?, ρ.hits region = true → ∀ t, .callable t ∈ bs → t.lexeme ≠ ρ.old

theorem Spares.mono (h : ρ.Spares ctx bs) (hregions : ctx'.regions = ctx.regions)
    (hsub : cs ⊆ bs) : ρ.Spares ctx' cs := by
  intro region hregion hhit t ht
  rw [hregions] at hregion
  exact h region hregion hhit t (hsub ht)

/-- In a region that declares no name twice, the old name belongs to the site. -/
theorem spares_of_nodup {region : Region} (hregion : ctx.regions.head? = some region)
    (hnodup : (region.binders.map Binder.name).Nodup) : ρ.Spares ctx region.binders := by
  intro region' hregion' hhit t ht hold
  obtain rfl : region = region' := Option.some.inj (hregion.symm.trans hregion')
  obtain ⟨b, hb, hsite⟩ := List.any_eq_true.1 hhit
  cases b with
  | callable u => cases hsite
  | «variable» u =>
    have hname : Binder.name (.variable u) = Binder.name (.callable t) := by
      have hu := (Bool.and_eq_true_iff.1 hsite).2
      exact (beq_iff_eq.1 hu).trans hold.symm
    cases List.inj_on_of_nodup_map hnodup hb ht hname

theorem declaration_congr (hregions : ctx'.regions = ctx.regions) (t : Token) :
    ρ.declaration ctx' t = ρ.declaration ctx t := by
  cases ctx with
  | nil =>
    obtain rfl : ctx' = [] := List.map_eq_nil_iff.1 hregions
    rfl
  | cons s ctx =>
    cases ctx' with
    | nil => cases hregions
    | cons s' ctx' =>
      have hregion : s'.region = s.region := (List.cons.inj hregions).1
      simp only [declaration, hregion]

/-- The name of a function or a class stays. -/
theorem Spares.declaration_eq (h : ρ.Spares ctx bs) (ht : .callable t ∈ bs)
    (hnew : t.lexeme ≠ ρ.new) : ρ.declaration ctx t = t := by
  cases ctx with
  | nil => rfl
  | cons s ctx =>
    have hname : ρ.rename s.region t.lexeme = t.lexeme :=
      rename_of_ne (fun hhit => h s.region rfl hhit t ht) hnew
    simp only [declaration, token, hname]

/-- If a function or a class is declared at the place, its name stays. -/
def Keeps (ρ : Renaming) (p : Place) : Prop :=
  ∀ s, p.node = .stmt s → ρ.Spares p.surroundings s.binders

theorem around_declare (ρ : Renaming) (ctx : Surroundings) (t : Token) (standing : Standing) :
    ρ.around (ctx.declare t.lexeme standing) =
      (ρ.around ctx).declare (ρ.declaration ctx t).lexeme standing := by
  cases ctx <;> rfl

theorem declaresHere_around (ρ : Renaming) (ctx : Surroundings) (t : Token) :
    (ρ.around ctx).declaresHere (ρ.declaration ctx t).lexeme = ctx.declaresHere t.lexeme := by
  cases ctx with
  | nil => rfl
  | cons s ctx =>
    change Surrounding.declares _ (ρ.rename s.region t.lexeme) = _
    rw [declares_around, rename_rename]
    rfl

end Renaming

/-! ### The analysis of the renamed program -/

namespace Scope

/-- If the first walk goes through, so does the second one, in the renamed surroundings, and it
records the same distances.  The names of functions and classes stay at the places `ps`. -/
structure Renames (ρ : Renaming) (x x' : Walk Unit) (ctx ctx₁ : Surroundings)
    (ps : List Place) : Prop where
  result : ∀ {D s}, ctx.Free ρ.new → x ⟨ctx.layers, D⟩ = .ok () s →
    ctx₁.Free ρ.new ∧ s.layers = ctx₁.layers ∧
      x' ⟨(ρ.around ctx).layers, D⟩ = .ok () ⟨(ρ.around ctx₁).layers, s.distances⟩ ∧
      ∀ p ∈ ps, ρ.Keeps p

namespace Renames

variable {ρ : Renaming} {x x' y y' : Walk Unit} {ctx ctx₁ ctx₂ : Surroundings}
variable {ps qs : List Place} {t : Token}

theorem nothing : Renames ρ (pure ()) (pure ()) ctx ctx [] := by
  refine ⟨fun {D s} hctx hs => ?_⟩
  obtain rfl : _ = s := (EStateM.Result.ok.inj hs).2
  exact ⟨hctx, rfl, rfl, by simp⟩

theorem seq (hx : Renames ρ x x' ctx ctx₁ ps) (hy : Renames ρ y y' ctx₁ ctx₂ qs) :
    Renames ρ (do x; y) (do x'; y') ctx ctx₂ (ps ++ qs) := by
  refine ⟨fun {D s} hctx hs => ?_⟩
  obtain ⟨_, s₁, hr, hs⟩ := ok_of_bind hs
  obtain ⟨hctx₁, hlayers, hx', hps⟩ := hx.result hctx hr
  obtain ⟨layers, D₁⟩ := s₁
  obtain rfl : layers = ctx₁.layers := hlayers
  obtain ⟨hctx₂, hlayers₂, hy', hqs⟩ := hy.result hctx₁ hs
  refine ⟨hctx₂, hlayers₂, ?_, List.forall_mem_append.2 ⟨hps, hqs⟩⟩
  rw [bind_of_ok hx']
  exact hy'

/-- A walk past no place, before another one. -/
theorem before (hx : Renames ρ x x' ctx ctx₁ []) (hy : Renames ρ y y' ctx₁ ctx₂ ps) :
    Renames ρ (do x; y) (do x'; y') ctx ctx₂ ps := hx.seq hy

/-- A walk past no place, after another one. -/
theorem behind (hx : Renames ρ x x' ctx ctx₁ ps) (hy : Renames ρ y y' ctx₁ ctx₂ []) :
    Renames ρ (do x; y) (do x'; y') ctx ctx₂ ps := by
  have h := hx.seq hy
  rwa [List.append_nil] at h

theorem stmt {s : Stmt} (h : Renames ρ x x' ctx ctx₁ ps) (hs : ρ.Spares ctx s.binders) :
    Renames ρ x x' ctx ctx₁ (⟨ctx, .stmt s⟩ :: ps) := by
  refine ⟨fun {D st} hctx hst => ?_⟩
  obtain ⟨hctx₁, hlayers, hx', hps⟩ := h.result hctx hst
  refine ⟨hctx₁, hlayers, hx', List.forall_mem_cons.2 ⟨fun s' hs' => ?_, hps⟩⟩
  obtain rfl := Node.stmt.inj hs'
  exact hs

theorem expr {e : Expr} (h : Renames ρ x x' ctx ctx₁ ps) :
    Renames ρ x x' ctx ctx₁ (⟨ctx, .expr e⟩ :: ps) := by
  refine ⟨fun {D st} hctx hst => ?_⟩
  obtain ⟨hctx₁, hlayers, hx', hps⟩ := h.result hctx hst
  exact ⟨hctx₁, hlayers, hx', List.forall_mem_cons.2 ⟨fun s' hs' => (by cases hs'), hps⟩⟩

theorem fail {α β : Type} {fault : ScopeFault} {k : α → Walk Unit} {k' : β → Walk Unit} :
    Renames ρ (Scope.fail t fault >>= k) (Scope.fail t fault >>= k') ctx ctx₁ ps :=
  ⟨fun _ hs => by cases hs⟩

theorem declare (hnew : t.lexeme ≠ ρ.new) :
    Renames ρ (declare t) (declare (ρ.declaration ctx t)) ctx (ctx.declare t.lexeme .pending)
      [] := by
  refine ⟨fun {D s} hctx hs => ?_⟩
  obtain ⟨hhere, rfl⟩ := declare_ok_iff.1 hs
  refine ⟨hctx.declare hnew .pending, rfl, declare_ok_iff.2 ⟨?_, ?_⟩, by simp⟩
  · rw [ρ.declaresHere_around, hhere]
  · rw [ρ.around_declare]

theorem define (hnew : t.lexeme ≠ ρ.new) (sure : Bool) :
    Renames ρ (define t) (define (ρ.declaration ctx t)) ctx
      (ctx.declare t.lexeme (.ofSure sure)) [] := by
  refine ⟨fun {D s} hctx hs => ?_⟩
  have hready : (Standing.ofSure sure != .pending) = true := by cases sure <;> rfl
  have hlayers (ctx : Surroundings) (name : String) : addEntry name true ctx.layers =
      (ctx.declare name (.ofSure sure)).layers := by
    rw [Surroundings.layers_declare, hready]
  obtain rfl : _ = s := (EStateM.Result.ok.inj hs).2
  refine ⟨hctx.declare hnew _, hlayers ctx t.lexeme, ?_, by simp⟩
  change EStateM.Result.ok () (State.mk (addEntry _ true (ρ.around ctx).layers) D) = _
  rw [hlayers, ρ.around_declare]

/-- Declaring a function or a class, whose name stays. -/
theorem introduce (ht : ρ.declaration ctx t = t) (hnew : t.lexeme ≠ ρ.new) (sure : Bool)
    (h : Renames ρ x x' (ctx.introduce t.lexeme sure) ctx₁ ps) :
    Renames ρ (do Scope.declare t; Scope.define t; x) (do Scope.declare t; Scope.define t; x')
      ctx ctx₁ ps := by
  have hpending : ρ.declaration (ctx.declare t.lexeme .pending) t = t := by
    rw [ρ.declaration_congr (Surroundings.regions_declare _ _ _), ht]
  have hdeclare : Renames ρ (Scope.declare t) (Scope.declare t) ctx
      (ctx.declare t.lexeme .pending) [] := by
    have hd : Renames ρ (Scope.declare t) (Scope.declare (ρ.declaration ctx t)) ctx
        (ctx.declare t.lexeme .pending) [] := declare hnew
    rwa [ht] at hd
  have hdefine : Renames ρ (Scope.define t) (Scope.define t) (ctx.declare t.lexeme .pending)
      (ctx.introduce t.lexeme sure) [] := by
    have hd : Renames ρ (Scope.define t)
        (Scope.define (ρ.declaration (ctx.declare t.lexeme .pending) t))
        (ctx.declare t.lexeme .pending) (ctx.introduce t.lexeme sure) [] := define hnew sure
    rwa [hpending] at hd
  exact hdeclare.before (hdefine.before h)

theorem record {id : NodeId} {n : Node} (hn : n.reference? = some (id, t))
    (hnew : t.lexeme ≠ ρ.new) :
    Renames ρ (record id t) (record id (ρ.reference ctx t)) ctx ctx [⟨ctx, n⟩] := by
  refine ⟨fun {D s} hctx hs => ?_⟩
  have hdistance : distance? (ρ.around ctx).layers (ρ.reference ctx t).lexeme =
      distance? ctx.layers t.lexeme := by
    rw [Surroundings.layers_distance?, Surroundings.layers_distance?,
      Renaming.distance?_reference hctx hnew]
  rw [Walking.Along.record_eq] at hs ⊢
  obtain rfl : _ = s := (EStateM.Result.ok.inj hs).2
  refine ⟨hctx, rfl, by rw [hdistance], fun p hp s hnode => ?_⟩
  obtain rfl := List.mem_singleton.1 hp
  obtain rfl : n = .stmt s := hnode
  -- the only statement that is a variable node declares nothing
  cases s with
  | indexAssign => exact fun _ _ _ _ hmem => by cases hmem
  | _ => cases hn

theorem read {id : NodeId} {n : Node} (hn : n.reference? = some (id, t))
    (hnew : t.lexeme ≠ ρ.new) :
    Renames ρ (read id t) (read id (ρ.reference ctx t)) ctx ctx [⟨ctx, n⟩] := by
  refine ⟨fun {D s} hctx hs => ?_⟩
  change (if unready ctx.layers t.lexeme then _ else _ : Walk Unit) ⟨ctx.layers, D⟩ = _ at hs
  split at hs
  · cases hs
  · next hready =>
    obtain ⟨hfree, hlayers, hx', hps⟩ := (record hn hnew).result hctx hs
    refine ⟨hfree, hlayers, ?_, hps⟩
    change (if unready (ρ.around ctx).layers (ρ.reference ctx t).lexeme then _ else _ :
      Walk Unit) _ = _
    rw [Renaming.unready_reference hctx hnew, if_neg hready]
    exact hx'

/-- A region of its own.  That the walk goes through may be used for what is in it. -/
theorem within {r : Surrounding} (hr : ρ.around [r] = [r]) (hfree : r.declares ρ.new = false)
    (htail : ctx₁.tail = ctx)
    (h : ∀ {D s}, x ⟨Surroundings.layers (r :: ctx), D⟩ = .ok () s →
      Renames ρ x x' (r :: ctx) ctx₁ ps) :
    Renames ρ (within r.layer x) (within r.layer x') ctx ctx ps := by
  refine ⟨fun {D s} hctx hs => ?_⟩
  obtain ⟨s₁, hx, rfl⟩ := ok_of_within hs
  obtain ⟨_, hlayers, hx', hps⟩ := (h hx).result (hctx.push hfree) hx
  refine ⟨hctx, ?_, ?_, hps⟩
  · change s₁.layers.tail = _
    rw [hlayers, Surroundings.layers, ← List.map_tail, htail]
    rfl
  · have hin : ρ.around (r :: ctx) = r :: ρ.around ctx := by
      change ρ.around [r] ++ ρ.around ctx = _
      rw [hr]
      rfl
    rw [hin] at hx'
    refine (within_of_ok hx').trans ?_
    change EStateM.Result.ok () (State.mk (ρ.around ctx₁).layers.tail s₁.distances) = _
    rw [Surroundings.layers, ← List.map_tail, Renaming.around, ← List.map_tail, htail]
    rfl

end Renames

/-! ### Trees -/

variable {ρ : Renaming}

theorem Renames.params {f : FunctionDecl} {ctx : Surroundings}
    (hregion : ctx.regions.head? = some (.function f)) (ps : List Parameter)
    (hnew : ∀ p ∈ ps, p.left.lexeme ≠ ρ.new) :
    Renames ρ (declareParams ps) (declareParams (ps.map (ρ.param f))) ctx
      (ctx.introduceParams ps) [] := by
  induction ps generalizing ctx with
  | nil => exact .nothing
  | cons p ps ih =>
    obtain ⟨hp, hps⟩ := List.forall_mem_cons.1 hnew
    have hintroduce : ctx.Extends (ctx.introduce p.left.lexeme true) := .introduce _ _
    have hpending : (ctx.declare p.left.lexeme .pending).regions = ctx.regions :=
      Surroundings.regions_declare _ _ _
    have hleft : (ρ.param f p).left = ρ.declaration ctx p.left := by
      obtain ⟨name, ty, left, right⟩ := p
      cases ctx with
      | nil => cases hregion
      | cons r ctx =>
        have hr : r.region = .function f := Option.some.inj hregion
        simp only [Renaming.declaration, hr]
        rfl
    have hdefine : Renames ρ (Scope.define p.left)
        (Scope.define (ρ.declaration (ctx.declare p.left.lexeme .pending) p.left))
        (ctx.declare p.left.lexeme .pending) (ctx.introduce p.left.lexeme true) [] :=
      Renames.define hp true
    rw [ρ.declaration_congr hpending] at hdefine
    simp only [List.map_cons, declareParams, hleft]
    have hregion₁ : (ctx.introduce p.left.lexeme true).regions.head? = some (.function f) := by
      rw [hintroduce.regions, hregion]
    exact (Renames.declare hp).before (hdefine.before (ih hregion₁ hps))

mutual

theorem walkExpr_renames {k : Context} {ctx : Surroundings} (hk : k.Fits ctx) : (e : Expr) →
    (∀ q ∈ e.places ctx, q.Avoids ρ.new) →
    Renames ρ (walkExpr k e) (walkExpr k (e.rename ρ ctx)) ctx ctx (e.places ctx)
  | .grouping inner, h => by
    simp only [Expr.places, List.forall_mem_cons] at h
    simp only [walkExpr, Expr.rename, Expr.places]
    exact (walkExpr_renames hk inner h.2).expr
  | .binary left _ right, h => by
    simp only [Expr.places, List.forall_mem_cons, List.forall_mem_append] at h
    simp only [walkExpr, Expr.rename, Expr.places]
    exact ((walkExpr_renames hk left h.2.1).seq (walkExpr_renames hk right h.2.2)).expr
  | .unary _ operand, h => by
    simp only [Expr.places, List.forall_mem_cons] at h
    simp only [walkExpr, Expr.rename, Expr.places]
    exact (walkExpr_renames hk operand h.2).expr
  | .literal _ value, h => by
    simp only [Expr.places, List.forall_mem_cons] at h
    simp only [walkExpr, Expr.rename, Expr.places]
    exact (walkLiteral_renames hk value h.2).expr
  | .name id token, h => by
    simp only [Expr.places, List.forall_mem_singleton] at h
    simp only [walkExpr, Expr.rename, Expr.places]
    exact .read rfl (h.ne List.mem_cons_self)
  | .this id keyword, h => by
    simp only [Expr.places, List.forall_mem_singleton] at h
    simp only [walkExpr, Expr.rename, Expr.places]
    cases k.inClass with
    | true => exact .record rfl (h.ne List.mem_cons_self)
    | false => exact ⟨fun _ hs => by cases hs⟩
  | .function _ declaration, h => by
    simp only [Expr.places, List.forall_mem_cons] at h
    simp only [walkExpr, Expr.rename, Expr.places]
    have hbody := walkFunction_renames (k := { k with body := .function }) hk.cls declaration
      h.1 h.2
    exact hbody.expr
  | .call callee _ args, h => by
    simp only [Expr.places, List.forall_mem_cons, List.forall_mem_append] at h
    simp only [walkExpr, Expr.rename, Expr.places]
    exact ((walkExpr_renames hk callee h.2.1).seq (walkExprs_renames hk args h.2.2)).expr
  | .index id name index, h => by
    simp only [Expr.places, List.forall_mem_cons] at h
    simp only [walkExpr, Expr.rename, Expr.places]
    exact (Renames.read rfl (h.1.ne List.mem_cons_self)).seq (walkExpr_renames hk index h.2)
  | .get object _, h => by
    simp only [Expr.places, List.forall_mem_cons] at h
    simp only [walkExpr, Expr.rename, Expr.places]
    exact (walkExpr_renames hk object h.2).expr
  | .set object _ value, h => by
    simp only [Expr.places, List.forall_mem_cons, List.forall_mem_append] at h
    simp only [walkExpr, Expr.rename, Expr.places]
    exact ((walkExpr_renames hk value h.2.1).seq (walkExpr_renames hk object h.2.2)).expr
  | .object _ entries, h => by
    simp only [Expr.places, List.forall_mem_cons] at h
    simp only [walkExpr, Expr.rename, Expr.places]
    exact (walkEntries_renames hk entries h.2).expr
  | .assign id name value, h => by
    simp only [Expr.places, List.forall_mem_append, List.forall_mem_singleton] at h
    simp only [walkExpr, Expr.rename, Expr.places]
    exact (walkExpr_renames hk value h.1).seq (.record rfl (h.2.ne List.mem_cons_self))

theorem walkExprs_renames {k : Context} {ctx : Surroundings} (hk : k.Fits ctx) :
    (es : List Expr) → (∀ q ∈ exprsPlaces ctx es, q.Avoids ρ.new) →
    Renames ρ (walkExprs k es) (walkExprs k (exprsRename ρ ctx es)) ctx ctx (exprsPlaces ctx es)
  | [], _ => by
    simp only [walkExprs, exprsRename, exprsPlaces]
    exact .nothing
  | e :: es, h => by
    simp only [exprsPlaces, List.forall_mem_append] at h
    simp only [walkExprs, exprsRename, exprsPlaces]
    exact (walkExpr_renames hk e h.1).seq (walkExprs_renames hk es h.2)

theorem walkLiteral_renames {k : Context} {ctx : Surroundings} (hk : k.Fits ctx) :
    (v : LiteralValue) → (∀ q ∈ v.places ctx, q.Avoids ρ.new) →
    Renames ρ (walkLiteral k v) (walkLiteral k (v.rename ρ ctx)) ctx ctx (v.places ctx)
  | .list elements, h => by
    simp only [LiteralValue.places] at h
    simp only [walkLiteral, LiteralValue.rename, LiteralValue.places]
    exact walkExprs_renames hk elements h
  | .num _, _ | .str _, _ | .bool _, _ | .null, _ | .undefined, _ | .emptyObject, _ => by
    simp only [walkLiteral, LiteralValue.rename, LiteralValue.places]
    exact .nothing

theorem walkEntries_renames {k : Context} {ctx : Surroundings} (hk : k.Fits ctx) :
    (es : List Entry) → (∀ q ∈ entriesPlaces ctx es, q.Avoids ρ.new) →
    Renames ρ (walkEntries k es) (walkEntries k (entriesRename ρ ctx es)) ctx ctx
      (entriesPlaces ctx es)
  | [], _ => by
    simp only [walkEntries, entriesRename, entriesPlaces]
    exact .nothing
  | .mk _ value :: es, h => by
    simp only [entriesPlaces, List.forall_mem_append] at h
    simp only [walkEntries, entriesRename, entriesPlaces]
    exact (walkExpr_renames hk value h.1).seq (walkEntries_renames hk es h.2)

theorem walkStmt_renames {k : Context} {ctx : Surroundings} (hk : k.Fits ctx) (sure : Bool) :
    (s : Stmt) → (∀ q ∈ s.places sure ctx, q.Avoids ρ.new) → ρ.Spares ctx s.binders →
    Renames ρ (walkStmt k s) (walkStmt k (s.rename ρ sure ctx)) ctx (s.after sure ctx)
      (s.places sure ctx)
  | .empty, _, hs => by
    simp only [walkStmt, Stmt.rename, Stmt.after, Stmt.places]
    exact Renames.nothing.stmt hs
  | .block statements, h, hs => by
    simp only [Stmt.places, List.forall_mem_cons] at h
    simp only [walkStmt, Stmt.rename, Stmt.after, Stmt.places]
    have hin : k.Fits (ctx.enterBlock statements) := hk.cons _
    have hdeclares := walkStmts_declares hin (List.cons_ne_nil _ _) true statements
    have htail : (stmtsAfter true (ctx.enterBlock statements) statements).tail = ctx :=
      (stmtsAfter_extends _ _ _).tail
    refine Renames.stmt (@Renames.within _ _ _ _ _ _ ⟨.block statements, []⟩ rfl rfl htail
      fun hx => ?_) hs
    have hspares : ρ.Spares (ctx.enterBlock statements) (stmtsBinders statements) :=
      @Renaming.spares_of_nodup _ _ (.block statements) rfl (hdeclares.new hx).1
    exact walkStmts_renames hin true statements h.2 hspares
  | .expression e _, h, hs => by
    simp only [Stmt.places, List.forall_mem_cons] at h
    simp only [walkStmt, Stmt.rename, Stmt.after, Stmt.places]
    exact (walkExpr_renames hk e h.2).stmt hs
  | .variable name _ _ init, h, hs => by
    simp only [Stmt.places, List.forall_mem_cons] at h
    simp only [walkStmt, Stmt.rename, Stmt.after, Stmt.places]
    have hpending : ctx.Extends (.declare name.lexeme .pending ctx) := .declare _ _ .refl
    have hafter := hpending.trans (optionAfter_extends false _ init)
    have hname : name.lexeme ≠ ρ.new := h.1.ne List.mem_cons_self
    have hspares : ρ.Spares (.declare name.lexeme .pending ctx) (optionBinders init) :=
      hs.mono hpending.regions fun b hb => by
        rw [Stmt.binders]
        exact List.mem_cons_of_mem _ hb
    have hinit := walkOption_renames (hk.extends hpending) false init h.2 hspares
    have hdefine := @Renames.define _ (optionAfter false (.declare name.lexeme .pending ctx) init)
      _ hname sure
    rw [ρ.declaration_congr hafter.regions] at hdefine
    exact ((Renames.declare hname).before (hinit.behind hdefine)).stmt hs
  | .indexAssign id name index value, h, hs => by
    simp only [Stmt.places, List.forall_mem_append, List.forall_mem_singleton] at h
    simp only [walkStmt, Stmt.rename, Stmt.after, Stmt.places]
    rw [List.append_assoc]
    exact (walkExpr_renames hk index h.1.1).seq
      ((walkExpr_renames hk value h.1.2).seq (.record rfl (h.2.ne List.mem_cons_self)))
  | .functionDecl declaration, h, hs => by
    simp only [Stmt.places, List.forall_mem_cons] at h
    have hname : (declaration.rename ρ (ctx.introduce declaration.name.lexeme sure)).name =
      declaration.name := by cases declaration; rfl
    have hnew : declaration.name.lexeme ≠ ρ.new := h.1.ne List.mem_cons_self
    have hkeeps := hs.declaration_eq (t := declaration.name) (by simp [Stmt.binders]) hnew
    have hin := hk.extends (.introduce declaration.name.lexeme sure)
    have hfunction := walkFunction_renames (k := { k with body := .function }) hin.cls declaration
      (fun hp => h.1 (List.mem_cons_of_mem _ hp)) h.2
    simp only [walkStmt, Stmt.rename, Stmt.after, Stmt.places, hname]
    exact (Renames.introduce hkeeps hnew sure hfunction).stmt hs
  | .cond _ condition thenBranch elseBranch, h, hs => by
    simp only [Stmt.places, List.forall_mem_cons, List.forall_mem_append] at h
    simp only [walkStmt, Stmt.rename, Stmt.after, Stmt.places]
    rw [List.append_assoc]
    have hafter := thenBranch.after_extends false ctx
    have hthen : ρ.Spares ctx thenBranch.binders := hs.mono rfl fun b hb => by
      rw [Stmt.binders]
      exact List.mem_append_left _ hb
    have helse : ρ.Spares (thenBranch.after false ctx) (optionBinders elseBranch) :=
      hs.mono hafter.regions fun b hb => by
        rw [Stmt.binders]
        exact List.mem_append_right _ hb
    exact ((walkExpr_renames hk condition h.2.1.1).seq
      ((walkStmt_renames hk false thenBranch h.2.1.2 hthen).seq
        (walkOption_renames (hk.extends hafter) false elseBranch h.2.2 helse))).stmt hs
  | .loop condition body _, h, hs => by
    simp only [Stmt.places, List.forall_mem_cons, List.forall_mem_append] at h
    simp only [walkStmt, Stmt.rename, Stmt.after, Stmt.places]
    rw [Stmt.binders] at hs
    exact ((walkExpr_renames hk condition h.2.1).seq
      (walkStmt_renames hk false body h.2.2 hs)).stmt (by rwa [Stmt.binders])
  | .returns keyword value, h, hs => by
    simp only [Stmt.places, List.forall_mem_cons] at h
    simp only [walkStmt, Stmt.rename, Stmt.after, Stmt.places]
    rw [Stmt.binders] at hs
    have hvalue := walkStmt_renames hk false value h.2 hs
    cases k.body with
    | program | constructor => exact ⟨fun _ hs => by cases hs⟩
    | function | method => exact hvalue.stmt (by rwa [Stmt.binders])
  | .object properties, h, hs => by
    simp only [Stmt.places, List.forall_mem_cons] at h
    simp only [walkStmt, Stmt.rename, Stmt.after, Stmt.places]
    rw [Stmt.binders] at hs
    exact (walkProperties_renames hk false properties h.2 hs).stmt (by rwa [Stmt.binders])
  | .classDecl declaration, h, hs => by
    simp only [Stmt.places, List.forall_mem_cons] at h
    obtain ⟨hthis, hrest⟩ := not_or.1 (mt List.mem_cons.2 h.1)
    obtain ⟨hname, hparams⟩ := not_or.1 (mt List.mem_cons.2 hrest)
    have hkeeps := hs.declaration_eq (t := declaration.name) (by simp [Stmt.binders])
      (Ne.symm hname)
    simp only [walkStmt, Stmt.rename, Stmt.after, Stmt.places]
    exact (walkClass_renames hk sure declaration hkeeps hthis (Ne.symm hname) hparams h.2).stmt hs

theorem walkOption_renames {k : Context} {ctx : Surroundings} (hk : k.Fits ctx) (sure : Bool) :
    (o : Option Stmt) → (∀ q ∈ optionPlaces sure ctx o, q.Avoids ρ.new) →
    ρ.Spares ctx (optionBinders o) →
    Renames ρ (walkOption k o) (walkOption k (optionRename ρ sure ctx o)) ctx
      (optionAfter sure ctx o) (optionPlaces sure ctx o)
  | none, _, _ => by
    simp only [walkOption, optionRename, optionAfter, optionPlaces]
    exact .nothing
  | some s, h, hs => by
    simp only [optionPlaces] at h
    simp only [optionBinders] at hs
    simp only [walkOption, optionRename, optionAfter, optionPlaces]
    exact walkStmt_renames hk sure s h hs

theorem walkStmts_renames {k : Context} {ctx : Surroundings} (hk : k.Fits ctx) (sure : Bool) :
    (ss : List Stmt) → (∀ q ∈ stmtsPlaces sure ctx ss, q.Avoids ρ.new) →
    ρ.Spares ctx (stmtsBinders ss) →
    Renames ρ (walkStmts k ss) (walkStmts k (stmtsRename ρ sure ctx ss)) ctx
      (stmtsAfter sure ctx ss) (stmtsPlaces sure ctx ss)
  | [], _, _ => by
    simp only [walkStmts, stmtsRename, stmtsAfter, stmtsPlaces]
    exact .nothing
  | s :: ss, h, hs => by
    simp only [stmtsPlaces, List.forall_mem_append] at h
    simp only [walkStmts, stmtsRename, stmtsAfter, stmtsPlaces]
    have hafter := s.after_extends sure ctx
    exact (walkStmt_renames hk sure s h.1 (hs.mono rfl (List.subset_append_left _ _))).seq
      (walkStmts_renames (hk.extends hafter) sure ss h.2
        (hs.mono hafter.regions (List.subset_append_right _ _)))

theorem walkProperties_renames {k : Context} {ctx : Surroundings} (hk : k.Fits ctx)
    (sure : Bool) : (ps : List StmtEntry) →
    (∀ q ∈ propertiesPlaces sure ctx ps, q.Avoids ρ.new) →
    ρ.Spares ctx (propertiesBinders ps) →
    Renames ρ (walkProperties k ps) (walkProperties k (propertiesRename ρ sure ctx ps)) ctx
      (propertiesAfter sure ctx ps) (propertiesPlaces sure ctx ps)
  | [], _, _ => by
    simp only [walkProperties, propertiesRename, propertiesAfter, propertiesPlaces]
    exact .nothing
  | .mk _ s :: ps, h, hs => by
    simp only [propertiesPlaces, List.forall_mem_append] at h
    rw [propertiesBinders] at hs
    simp only [walkProperties, propertiesRename, propertiesAfter, propertiesPlaces]
    have hafter := s.after_extends sure ctx
    exact (walkStmt_renames hk sure s h.1 (hs.mono rfl (List.subset_append_left _ _))).seq
      (walkProperties_renames (hk.extends hafter) sure ps h.2
        (hs.mono hafter.regions (List.subset_append_right _ _)))

theorem walkFunction_renames {k : Context} {ctx : Surroundings}
    (hc : k.inClass = true → ctx.InClass) : (f : FunctionDecl) →
    ρ.new ∉ f.params.map (·.left.lexeme) → (∀ q ∈ f.places ctx, q.Avoids ρ.new) →
    Renames ρ (walkFunction k f) (walkFunction k (f.rename ρ ctx)) ctx ctx (f.places ctx)
  | .mk name params body result, hparams, h => by
    simp only [FunctionDecl.places] at h
    simp only [walkFunction, FunctionDecl.rename, FunctionDecl.places]
    have hin : k.Fits (ctx.enterFunction (.mk name params body result)) := .function hc _
    have hext : Surroundings.Extends (⟨.function (.mk name params body result), []⟩ :: ctx)
        (ctx.enterFunction (.mk name params body result)) := .introduceParams params
    have htail : (stmtsAfter true (ctx.enterFunction (.mk name params body result)) body).tail =
        ctx := (stmtsAfter_extends _ _ _).tail.trans hext.tail
    refine Renames.within (r := ⟨.function (.mk name params body result), []⟩) rfl rfl htail
      fun hx => ?_
    have hdeclares := (Declares.params (List.cons_ne_nil _ _) params).seq (.params params) hext
      (walkStmts_declares hin (hext.ne_nil (List.cons_ne_nil _ _)) true body)
      (stmtsAfter_extends _ _ _)
    have hspares : ρ.Spares (⟨.function (.mk name params body result), []⟩ :: ctx)
        (Region.binders (.function (.mk name params body result))) :=
      Renaming.spares_of_nodup rfl (hdeclares.new hx).1
    refine (Renames.params rfl params fun p hp hnew => hparams ?_).before
      (walkStmts_renames hin true body h (hspares.mono hext.regions ?_))
    · exact List.mem_map.2 ⟨p, hp, hnew⟩
    · exact List.subset_append_right _ _

theorem walkClass_renames {k : Context} {ctx : Surroundings} (hk : k.Fits ctx) (sure : Bool) :
    (c : ClassDecl) → ρ.declaration ctx c.name = c.name → ρ.new ≠ "this" →
    c.name.lexeme ≠ ρ.new →
    ρ.new ∉ c.methods.flatMap (fun m => m.params.map (·.left.lexeme)) →
    (∀ q ∈ c.places (ctx.introduce c.name.lexeme sure), q.Avoids ρ.new) →
    Renames ρ (walkClass k c) (walkClass k (c.rename ρ (ctx.introduce c.name.lexeme sure))) ctx
      (ctx.introduce c.name.lexeme sure) (c.places (ctx.introduce c.name.lexeme sure))
  | .mk name methods fields, hkeeps, hthis, hname, hparams, h => by
    simp only [ClassDecl.places, List.forall_mem_append] at h
    simp only [walkClass, ClassDecl.rename, ClassDecl.places]
    have hin := (hk.extends (.introduce name.lexeme sure)).inClass (.mk name methods fields)
    have hbody := (walkFields_renames hin fields h.1).seq
      (walkMethods_renames hin methods hparams h.2)
    let r : Surrounding := ⟨.receiver (.mk name methods fields), [("this", .settled)]⟩
    have hfree : r.declares ρ.new = false := by simp [r, Surrounding.declares, Ne.symm hthis]
    have hwithin := @Renames.within _ _ _ (ctx.introduce name.lexeme sure) _ _ r rfl hfree rfl
      fun _ => hbody
    exact .introduce hkeeps hname sure hwithin

theorem walkFields_renames {k : Context} {ctx : Surroundings} (hk : k.Fits ctx) :
    (fs : List FieldDecl) → (∀ q ∈ fieldsPlaces ctx fs, q.Avoids ρ.new) →
    Renames ρ (walkFields k fs) (walkFields k (fieldsRename ρ ctx fs)) ctx ctx
      (fieldsPlaces ctx fs)
  | [], _ => by
    simp only [walkFields, fieldsRename, fieldsPlaces]
    exact .nothing
  | .mk _ _ init :: fs, h => by
    simp only [fieldsPlaces, List.forall_mem_append] at h
    simp only [walkFields, fieldsRename, fieldsPlaces]
    exact (walkExpr_renames hk init h.1).seq (walkFields_renames hk fs h.2)

theorem walkMethods_renames {k : Context} {ctx : Surroundings} (hk : k.Fits ctx) :
    (ms : List FunctionDecl) → ρ.new ∉ ms.flatMap (fun m => m.params.map (·.left.lexeme)) →
    (∀ q ∈ methodsPlaces ctx ms, q.Avoids ρ.new) →
    Renames ρ (walkMethods k ms) (walkMethods k (methodsRename ρ ctx ms)) ctx ctx
      (methodsPlaces ctx ms)
  | [], _, _ => by
    simp only [walkMethods, methodsRename, methodsPlaces]
    exact .nothing
  | m :: ms, hparams, h => by
    simp only [methodsPlaces, List.forall_mem_append] at h
    rw [List.flatMap_cons, List.mem_append, not_or] at hparams
    have hbody : methodBody (m.rename ρ ctx) = methodBody m := by
      obtain ⟨name, params, body, result⟩ := m
      rfl
    simp only [walkMethods, methodsRename, methodsPlaces, hbody]
    have hm := walkFunction_renames (k := { k with body := methodBody m }) hk.cls m hparams.1 h.1
    exact hm.seq (walkMethods_renames hk ms hparams.2 h.2)

end

end Scope

/-! ### What alike trees declare -/

section

variable {L : TreeLikeness}

mutual

/-- A likeness knows the variables that a tree declares. -/
theorem Stmt.Alike.binds {sure : Bool} {ctx : Surroundings} {t : Token} : (s : Stmt) →
    {s' : Stmt} → s.Alike L sure ctx s' → .variable t ∈ s.binders → ∃ t', L.name t t'
  | .variable name _ _ init, _, ⟨_, name', _, _, _, hname, _, hinit⟩, ht => by
    simp only [Stmt.binders, List.mem_cons] at ht
    rcases ht with ht | ht
    · obtain rfl := Binder.variable.inj ht
      exact ⟨name', hname⟩
    · exact optionAlike_binds init hinit ht
  | .cond _ _ thenBranch elseBranch, _, ⟨_, _, _, _, _, _, _, _, hthen, helse⟩, ht => by
    simp only [Stmt.binders, List.mem_append] at ht
    exact ht.elim (Stmt.Alike.binds thenBranch hthen) (optionAlike_binds elseBranch helse)
  | .loop _ body _, _, ⟨_, _, _, _, _, _, _, hbody⟩, ht => by
    simp only [Stmt.binders] at ht
    exact Stmt.Alike.binds body hbody ht
  | .returns _ value, _, ⟨_, _, _, _, _, hvalue⟩, ht => by
    simp only [Stmt.binders] at ht
    exact Stmt.Alike.binds value hvalue ht
  | .object properties, _, ⟨_, _, _, hproperties⟩, ht => by
    simp only [Stmt.binders] at ht
    exact propertiesAlike_binds properties hproperties ht
  | .functionDecl _, _, _, ht | .classDecl _, _, _, ht => by
    simp [Stmt.binders] at ht
  | .empty, _, _, ht | .block _, _, _, ht | .expression _ _, _, _, ht
  | .indexAssign _ _ _ _, _, _, ht => by
    simp [Stmt.binders] at ht
termination_by structural x => x

theorem optionAlike_binds {sure : Bool} {ctx : Surroundings} {t : Token} : (o : Option Stmt) →
    {o' : Option Stmt} → optionAlike L sure ctx o o' → .variable t ∈ optionBinders o →
    ∃ t', L.name t t'
  | none, _, _, ht => by simp [optionBinders] at ht
  | some s, _, ⟨_, _, hs⟩, ht => by
    simp only [optionBinders] at ht
    exact Stmt.Alike.binds s hs ht
termination_by structural x => x

theorem propertiesAlike_binds {sure : Bool} {ctx : Surroundings} {t : Token} :
    (ps : List StmtEntry) → {ps' : List StmtEntry} → propertiesAlike L sure ctx ps ps' →
    .variable t ∈ propertiesBinders ps → ∃ t', L.name t t'
  | [], _, _, ht => by simp [propertiesBinders] at ht
  | .mk _ s :: ps, _, ⟨_, _, _, _, _, hs, hps⟩, ht => by
    simp only [propertiesBinders, List.mem_append] at ht
    exact ht.elim (Stmt.Alike.binds s hs) (propertiesAlike_binds ps hps)
termination_by structural x => x

end

theorem stmtsAlike_binds {sure : Bool} {ctx : Surroundings} {ss ss' : List Stmt} {t : Token}
    (h : stmtsAlike L sure ctx ss ss') (ht : .variable t ∈ stmtsBinders ss) : ∃ t', L.name t t' := by
  induction ss generalizing ctx ss' with
  | nil => cases ht
  | cons s ss ih =>
    obtain ⟨_, _, _, hs, hss⟩ := h
    rcases List.mem_append.1 ht with ht | ht
    · exact hs.binds s ht
    · exact ih hss ht

/-- The variables of a region that is entered. -/
theorem TreeLikeness.Opens.binds {s : Surrounding} {t : Token} (h : L.Opens s)
    (ht : .variable t ∈ s.region.binders) : ∃ t', L.name t t' := by
  cases h with
  | block hss => exact stmtsAlike_binds hss ht
  | function hf =>
    rcases List.mem_append.1 ht with ht | ht
    · obtain ⟨p, hp, heq⟩ := List.mem_map.1 ht
      obtain rfl := Binder.variable.inj heq
      exact Parameter.Alike.names hf.params p hp
    · exact stmtsAlike_binds hf.body ht
  | receiver c => cases ht

end

/-! ### The verdict -/

/-- **The renamed program is accepted, with the same distances.** -/
theorem resolve_rename {ρ : Renaming} {p : Program} {D E : Distances}
    (hnew : ρ.new ∉ p.names) (h : resolve D p = (.ok (), E)) :
    resolve D (p.rename ρ) = (.ok (), E) ∧ ∀ q ∈ p.places, q.Avoids ρ.new ∧ ρ.Keeps q := by
  have havoids : ∀ q ∈ p.places, q.Avoids ρ.new := fun q hq hmem =>
    hnew (List.mem_flatMap.2 ⟨q, hq, hmem⟩)
  have hspares : ρ.Spares .top (stmtsBinders p) := by
    rintro region hregion hhit
    obtain rfl : Region.globals = region := Option.some.inj hregion
    cases hhit
  have hrenames := Scope.walkStmts_renames (k := ⟨.program, false⟩) .program true p havoids hspares
  rw [resolve_eq] at h ⊢
  cases hwalk : Scope.walkStmts ⟨.program, false⟩ p ⟨[[]], D⟩ with
  | error e s =>
    rw [hwalk] at h
    cases h
  | ok u s =>
    rw [hwalk] at h
    have hfree : Surroundings.top.Free ρ.new := by simp [Surroundings.Free, Surroundings.top,
      Surrounding.declares]
    obtain ⟨-, -, hwalk', hkeeps⟩ := hrenames.result hfree hwalk
    refine ⟨?_, fun q hq => ⟨havoids q hq, hkeeps q hq⟩⟩
    change Scope.outcome (Scope.walkStmts ⟨.program, false⟩ (stmtsRename ρ true .top p)
      ⟨(ρ.around .top).layers, D⟩) = _
    rw [hwalk']
    exact h

end ScopedScript
