import ScopedScript.Proofs.Evaluation.Composition
import ScopedScript.Proofs.Scope.Declarations

/-! # What evaluations declare

Of the frames that there are when an evaluation starts, only the current one gets more variables,
and they have names that the task declares itself (`run_binds`).  A frame that is made on the way
gets those of its own region.

The declarations of a region therefore meet each other only in its own frame.  If the region
declares no name twice, and each of its declarations is executed once in a frame, none finds its
name there already.  The body of a loop is executed more than once: the names that it declares
itself, not in a block of its own, are the *repeats* of the region.  A frame *admits* names if those
among them that it has are repeats; from what the current frame admits follows what it admits at
every task that is called (`admitted_of_calls`). -/

namespace ScopedScript

/-! ### Names that are declared -/

/-- The names that a statement declares in the region around it. -/
def Stmt.declared (s : Stmt) : List String := s.binders.map Binder.name

/-- The names that statements declare in the region around them. -/
def stmtsDeclared (ss : List Stmt) : List String := (stmtsBinders ss).map Binder.name

/-- The names that a region declares itself. -/
def Region.declared : Region → List String
  | .block statements => stmtsDeclared statements
  | .function declaration =>
    declaration.params.map Parameter.name ++ stmtsDeclared declaration.body
  | .globals | .receiver _ => []

mutual

/-- The names that executing a statement may declare more than once in the same frame. -/
def Stmt.repeats : Stmt → List String
  | .variable _ _ _ init => optionRepeats init
  | .cond _ _ thenBranch elseBranch => thenBranch.repeats ++ optionRepeats elseBranch
  | .loop _ body _ => body.declared
  | .object properties => propertiesRepeats properties
  | _ => []

/-- The repeats of a statement that may be missing. -/
def optionRepeats : Option Stmt → List String
  | none => []
  | some s => s.repeats

/-- The repeats of the values of an object statement. -/
def propertiesRepeats : List StmtEntry → List String
  | [] => []
  | .mk _ s :: properties => s.repeats ++ propertiesRepeats properties

end

/-- The names that may be declared more than once in a frame made for the region. -/
def Region.repeats : Region → List String
  | .block statements => statements.flatMap Stmt.repeats
  | .function declaration => declaration.body.flatMap Stmt.repeats
  | .globals | .receiver _ => []

theorem stmtsDeclared_cons (s : Stmt) (ss : List Stmt) :
    stmtsDeclared (s :: ss) = s.declared ++ stmtsDeclared ss := List.map_append

/-- A statement that declares a name declares it first. -/
theorem Stmt.declared_of_declares? {s : Stmt} {t : Token} (h : s.declares? = some t) :
    ∃ rest, s.declared = t.lexeme :: rest := by
  cases s with
  | «variable» name kind ty init =>
    obtain rfl := Option.some.inj h
    exact ⟨(optionBinders init).map Binder.name, by
      simp only [declared, binders, List.map_cons, Binder.name]⟩
  | functionDecl declaration | classDecl declaration =>
    obtain rfl := Option.some.inj h
    exact ⟨[], by simp only [declared, binders, List.map_cons, List.map_nil, Binder.name]⟩
  | _ => cases h

theorem Stmt.declared_object (properties : List StmtEntry) : Stmt.declared (.object properties) =
    (properties.map StmtEntry.stmt).flatMap Stmt.declared := by
  rw [declared, binders]
  induction properties with
  | nil => rfl
  | cons entry properties ih =>
    obtain ⟨key, s⟩ := entry
    rw [propertiesBinders, List.map_append, ih, List.map_cons, List.flatMap_cons, StmtEntry.stmt,
      declared]

/-- What the parts of a statement declare the statement declares, unless it is a block. -/
theorem Stmt.declared_part {s s' : Stmt} (h : s' ∈ s.parts) (hblock : ∀ ss, s ≠ .block ss) :
    s'.declared ⊆ s.declared := by
  cases s with
  | block ss => exact absurd rfl (hblock ss)
  | «variable» name kind ty init =>
    obtain rfl := Option.mem_toList.1 h
    intro x hx
    simp only [declared, binders, optionBinders, List.map_cons]
    exact List.mem_cons_of_mem _ hx
  | cond keyword condition thenBranch elseBranch =>
    intro x hx
    simp only [declared, binders, List.map_append]
    rcases List.mem_cons.1 h with rfl | h
    · exact List.mem_append_left _ hx
    · obtain rfl := Option.mem_toList.1 h
      rw [optionBinders]
      exact List.mem_append_right _ hx
  | object properties =>
    rw [declared_object]
    exact fun x hx => List.mem_flatMap.2 ⟨s', h, hx⟩
  | _ => cases h

mutual

theorem Stmt.repeats_subset : (s : Stmt) → s.repeats ⊆ s.declared
  | .variable name _ _ init => by
    simp only [Stmt.repeats, Stmt.declared, Stmt.binders, List.map_cons]
    exact List.subset_cons_of_subset _ (optionRepeats_subset init)
  | .cond _ _ thenBranch elseBranch => by
    simp only [Stmt.repeats, Stmt.declared, Stmt.binders, List.map_append]
    have hthen := thenBranch.repeats_subset
    have helse := optionRepeats_subset elseBranch
    exact List.append_subset.2 ⟨List.subset_append_of_subset_left _ hthen,
      List.subset_append_of_subset_right _ helse⟩
  | .loop _ body _ => by
    simp only [Stmt.repeats, Stmt.declared, Stmt.binders]
    exact List.Subset.refl _
  | .object properties => by
    simp only [Stmt.repeats, Stmt.declared, Stmt.binders]
    exact propertiesRepeats_subset properties
  | .empty | .block _ | .expression _ _ | .indexAssign _ _ _ _ | .functionDecl _ | .returns _ _
  | .classDecl _ => by
    simp only [Stmt.repeats]
    exact List.nil_subset _

theorem optionRepeats_subset : (o : Option Stmt) →
    optionRepeats o ⊆ (optionBinders o).map Binder.name
  | none => by
    simp only [optionRepeats]
    exact List.nil_subset _
  | some s => by
    simp only [optionRepeats, optionBinders]
    exact s.repeats_subset

theorem propertiesRepeats_subset : (ps : List StmtEntry) →
    propertiesRepeats ps ⊆ (propertiesBinders ps).map Binder.name
  | [] => by
    simp only [propertiesRepeats]
    exact List.nil_subset _
  | .mk _ s :: ps => by
    simp only [propertiesRepeats, propertiesBinders, List.map_append]
    have hs := s.repeats_subset
    have hps := propertiesRepeats_subset ps
    exact List.append_subset.2 ⟨List.subset_append_of_subset_left _ hs,
      List.subset_append_of_subset_right _ hps⟩

end

/-! ### Steps -/

namespace Eval

variable {α β : Type} {names names' : String → Prop}

/-- The step comes back to its frame.  Of the frames that there are only that one gets more
variables, and they are among the names. -/
structure Binds (names : String → Prop) (x : Eval α) : Prop where
  frame : ∀ m, (leaves (x m)).frame = m.frame
  grows : ∀ m, Grows m.frames (leaves (x m)).frames
  adds : ∀ m, Adds names m.frame m.frames (leaves (x m)).frames

theorem Elementary.binds {watched : Prop} {risks : RuntimeFault → Prop} {x : Eval α}
    (h : x.Elementary watched risks)
    (hrisks : ∀ name, risks (.alreadyDeclared name) → names name) : x.Binds names where
  frame := h.frame
  grows m := (h.later m).frames
  adds m := (h.adds m).mono hrisks

/-- A step that risks nothing declares nothing. -/
theorem Elementary.silent {x : Eval α} (h : x.Elementary False fun _ => False) : x.Binds names :=
  h.binds fun _ h => h.elim

namespace Binds

variable {x : Eval α} {k : α → Eval β}

theorem inspect (f : Machine → α) : (Eval.inspect f).Binds names :=
  ⟨fun _ => rfl, fun _ => .refl _, fun _ => .refl _⟩

theorem raise (token : Token) (fault : RuntimeFault) : (Eval.raise token fault : Eval α).Binds names :=
  ⟨fun _ => rfl, fun _ => .refl _, fun _ => .refl _⟩

theorem mono (h : x.Binds names) (hnames : ∀ y, names y → names' y) : x.Binds names' :=
  ⟨h.frame, h.grows, fun m => (h.adds m).mono hnames⟩

theorem bind (hx : x.Binds names) (hk : ∀ a, (k a).Binds names) : (x >>= k).Binds names := by
  have hboth : ∀ m, (leaves ((x >>= k) m)).frame = m.frame ∧
      Grows m.frames (leaves ((x >>= k) m)).frames ∧
      Adds names m.frame m.frames (leaves ((x >>= k) m)).frames := by
    intro m
    have hframe := hx.frame m
    have hgrows := hx.grows m
    have hadds := hx.adds m
    cases hr : x m with
    | error e m₁ =>
      rw [hr] at hframe hgrows hadds
      rw [bind_error hr]
      exact ⟨hframe, hgrows, hadds⟩
    | ok a m₁ =>
      rw [hr] at hframe hgrows hadds
      rw [bind_ok hr]
      have hrest := (hk a).adds m₁
      rw [show m₁.frame = m.frame from hframe] at hrest
      exact ⟨((hk a).frame m₁).trans hframe, hgrows.trans ((hk a).grows m₁),
        hadds.trans hgrows hrest⟩
  exact ⟨fun m => (hboth m).1, fun m => (hboth m).2.1, fun m => (hboth m).2.2⟩

/-- What declares nothing declares nothing in another frame. -/
theorem inFrame (g : FrameId) (hx : x.Binds fun _ => False) : (inFrame g x).Binds names where
  frame m := by rw [leaves_inFrame]
  grows m := by
    rw [leaves_inFrame]
    exact hx.grows { m with frame := g }
  adds m := by
    rw [leaves_inFrame]
    exact (hx.adds { m with frame := g }).elsewhere (fun _ h => h) m.frame

theorem asCall (hx : x.Binds fun _ => False) : (asCall x).Binds names := by
  have hleaves : ∀ m, (leaves (Eval.asCall x m)).frame =
        (leaves (x { m with depth := m.depth + 1 })).frame ∧
      (leaves (Eval.asCall x m)).frames =
        (leaves (x { m with depth := m.depth + 1 })).frames := by
    intro m
    unfold Eval.asCall
    cases x { m with depth := m.depth + 1 } <;> exact ⟨rfl, rfl⟩
  refine ⟨fun m => ?_, fun m => ?_, fun m => ?_⟩
  · rw [(hleaves m).1]
    exact hx.frame _
  · rw [(hleaves m).2]
    exact hx.grows { m with depth := m.depth + 1 }
  · rw [(hleaves m).2]
    exact (hx.adds { m with depth := m.depth + 1 }).mono fun _ h => h.elim

/-- Whatever is declared in a new frame, the frames that there were get nothing. -/
theorem inNewFrame (region : Region) (parent : FrameId) (vars : Record Value)
    (hx : x.Binds names') :
    (newFrame region parent vars >>= fun g => Eval.inFrame g x).Binds names := by
  have hleaves : ∀ m, leaves ((newFrame region parent vars >>= fun g => Eval.inFrame g x) m) =
      { leaves (x { m.pushFrame region parent vars with frame := m.frames.size }) with
        frame := m.frame } :=
    fun m => leaves_inFrame m.frames.size x (m.pushFrame region parent vars)
  refine ⟨fun m => ?_, fun m => ?_, fun m => ?_⟩
  · rw [hleaves]
  · rw [hleaves]
    have hgrows := hx.grows { m.pushFrame region parent vars with frame := m.frames.size }
    exact (Grows.push _ _).trans hgrows
  · rw [hleaves]
    exact (hx.adds { m.pushFrame region parent vars with frame := m.frames.size }).of_push

end Binds

end Eval

namespace Evaluation

open Eval

/-! ### Tasks -/

/-- The names that a task may declare in the current frame. -/
def Task.declared : {α : Type} → Task α → List String
  | _, .stmt s => s.declared
  | _, .loop _ body _ => body.declared
  | _, _ => []

/-- Those of them that it may declare more than once. -/
def Task.repeats : {α : Type} → Task α → List String
  | _, .stmt s => s.repeats
  | _, .loop _ body _ => body.declared
  | _, _ => []

/-- The regions that a task makes frames for where names are declared. -/
def Task.regions : {α : Type} → Task α → List Region
  | _, .stmt (.block statements) => [.block statements]
  | _, .call callee _ _ => callee.functions.map .function
  | _, _ => []

/-- The task declares nothing in the current frame. -/
def Task.Silent {α : Type} (t : Task α) : Prop := t.declared = [] ∧ t.repeats = []

/-- A composed evaluation declares what its tasks and its elementary steps do. -/
theorem Composed.binds {Q : {α : Type} → Task α → Prop} {moves watched : Prop}
    {risks : RuntimeFault → Prop} {names : String → Prop} {α : Type} {x : Interpreter → Eval α}
    {self : Interpreter} (h : Composed Q moves watched risks x)
    (hrisks : ∀ name, risks (.alreadyDeclared name) → names name)
    (hmoves : moves → ∀ name, ¬names name)
    (hself : ∀ {β : Type} (t : Task β), Q t → (self t).Binds names) : (x @self).Binds names := by
  induction h with
  | elementary hx => exact hx.binds hrisks
  | task ht => exact hself _ ht
  | bind _ _ ihx ihk => exact ihx.bind ihk
  | inFrame g hm _ ih => exact .inFrame g (ih.mono (hmoves hm))

section

variable {self : Interpreter} {names : String → Prop}
variable (hself : ∀ {β : Type} (t : Task β), (self t).Binds (· ∈ t.declared))

include hself

theorem task_binds {β : Type} {t : Task β} (h : ∀ name ∈ t.declared, names name) :
    (self t).Binds names := (hself t).mono h

/-- What composes silent tasks is silent. -/
theorem Composed.binds_of_silent {moves watched : Prop} {α : Type} {x : Interpreter → Eval α}
    (h : Composed Task.Silent moves watched (fun fault => ∀ name, fault ≠ .alreadyDeclared name) x) :
    (x @self).Binds names := by
  have hnothing : (x @self).Binds fun _ => False :=
    h.binds (fun name h => h name rfl) (fun _ _ h => h) fun t ht =>
      task_binds hself (by simp [ht.1])
  exact hnothing.mono fun _ h => h.elim

theorem execAll_binds (ss : List Stmt) : (execAll self ss).Binds fun _ => True := by
  have hcomposed : Composed (fun _ => True) False False (fun _ => True)
      fun self => execAll @self ss := execAll_composed fun _ _ => trivial
  exact hcomposed.binds (fun _ _ => trivial) False.elim fun t _ => task_binds hself fun _ _ => trivial

theorem execBlock_binds (ss : List Stmt) : (execBlock self ss).Binds names :=
  (Binds.inspect _).bind fun f => .inNewFrame (.block ss) f [] (execAll_binds hself ss)

/-- The names of a function are declared in a frame of its own. -/
theorem runBody_binds (declaration : FunctionDecl) (frame : FrameId) (args : List Value) :
    (runBody self declaration frame args).Binds names := by
  have hparams : (bindParameters declaration.params args []).Elementary False
      fun fault => ∀ name, fault ≠ .alreadyDeclared name :=
    bindParameters_elementary args (.inr fun _ _ => by simp)
  refine (hparams.binds fun name h => absurd rfl (h name)).bind fun vars => ?_
  rw [← bind_assoc]
  refine (Binds.inNewFrame _ _ _ (execAll_binds hself _)).bind fun signal => ?_
  cases signal <;> exact (Elementary.pure _).silent

theorem runMethod_binds (b : Method) (args : List Value) :
    (runMethod self b args).Binds names :=
  (runBody_binds hself _ _ _).bind fun _ => (Elementary.pure _).silent

theorem construct_binds (i : Instance) (args : List Value) :
    (construct self i args).Binds names := by
  unfold construct
  split
  · exact (bindMethod_elementary i _).silent.bind fun b =>
      (runMethod_binds hself b args).bind fun _ => (Elementary.pure _).silent
  · exact (Elementary.pure _).silent

theorem instantiate_binds (c : Class) (args : List Value) :
    (instantiate self c args).Binds names := by
  rw [instantiate_eq]
  refine (Elementary.newRecord []).silent.bind fun ref => ?_
  split
  · exact construct_binds hself _ args
  · refine (bindThis_elementary _).silent.bind fun g => ?_
    have hfields : Composed Task.Silent True False
        (fun fault => ∀ name, fault ≠ .alreadyDeclared name)
        fun self => initFields @self g ref c.declaration.fields :=
      initFields_composed trivial (fun _ => ⟨rfl, rfl⟩) _ _ _
    exact (hfields.binds_of_silent hself).bind fun _ => construct_binds hself _ args

theorem invoke_binds (callee : Value) (site : Token) (args : List Value) :
    (invoke self callee site args).Binds names := by
  cases callee with
  | function k => exact runBody_binds hself _ _ args
  | method b => exact runMethod_binds hself b args
  | native n =>
    have hnative : Composed Task.Silent False False
        (fun fault => ∀ name, fault ≠ .alreadyDeclared name)
        fun self => invoke @self (.native n) site args :=
      invokeNative_composed (fun _ _ _ => ⟨rfl, rfl⟩) n site args
    exact hnative.binds_of_silent hself
  | cls k => exact instantiate_binds hself k args
  | _ => exact (Elementary.pure _).silent

theorem callValue_binds (callee : Value) (site : Token) (args : List Value) :
    (callValue self callee site args).Binds names := by
  unfold callValue
  split
  · exact .raise site _
  · split
    · exact .raise site _
    · refine (Binds.inspect _).bind fun depth => ?_
      split
      · exact .raise site _
      · exact (invoke_binds hself callee site args).asCall

/-- A statement that is no block declares its names in the current frame. -/
theorem exec_binds (s : Stmt) : (exec self s).Binds (· ∈ s.declared) := by
  by_cases hblock : ∃ ss, s = .block ss
  · obtain ⟨ss, rfl⟩ := hblock
    exact execBlock_binds hself ss
  · have hne : ∀ ss, s ≠ .block ss := fun ss h => hblock ⟨ss, h⟩
    have hcomposed : Composed (fun t => t.declared ⊆ s.declared) False False
        (fun fault => ∀ name, fault = .alreadyDeclared name → name ∈ s.declared)
        fun self => exec @self s := by
      refine exec_composed s (fun s' hs' => Stmt.declared_part hs' hne)
        (fun _ _ => List.nil_subset _) ?_ (fun ss h => hne ss h) False.elim ?_
      · rintro condition body token rfl
        simp only [Task.declared, Stmt.declared, Stmt.binders]
        exact List.Subset.refl _
      · rintro t ht name h
        obtain ⟨rest, hrest⟩ := Stmt.declared_of_declares? ht
        rw [← RuntimeFault.alreadyDeclared.inj h, hrest]
        exact List.mem_cons_self
    exact hcomposed.binds (fun name h => h name rfl) False.elim fun t ht =>
      task_binds hself fun name hname => ht hname

theorem step_binds {β : Type} (t : Task β) : (step self t).Binds (· ∈ t.declared) := by
  cases t with
  | expr e =>
    have hcomposed : Composed Task.Silent False False
        (fun fault => ∀ name, fault ≠ .alreadyDeclared name) fun self => evalExpr @self e :=
      evalExpr_composed e (fun _ _ => ⟨rfl, rfl⟩) (fun _ _ _ => ⟨rfl, rfl⟩) (fun _ _ => ⟨rfl, rfl⟩)
        False.elim
    exact hcomposed.binds_of_silent hself
  | property v name =>
    have hcomposed : Composed Task.Silent False False
        (fun fault => ∀ name, fault ≠ .alreadyDeclared name) fun self => property @self v name :=
      property_composed v name (fun _ _ _ => ⟨rfl, rfl⟩) (fun _ _ => ⟨rfl, rfl⟩)
    exact hcomposed.binds_of_silent hself
  | call callee site args => exact callValue_binds hself callee site args
  | stmt s => exact exec_binds hself s
  | loop condition body token =>
    have hcomposed : Composed (fun t => t.declared ⊆ body.declared) False False (fun _ => False)
        fun self => execLoop @self condition body token :=
      execLoop_composed token (List.nil_subset _) (List.Subset.refl _) (List.Subset.refl _)
    exact hcomposed.binds (fun _ h => h.elim) False.elim fun t ht =>
      task_binds hself fun name hname => ht hname

end

/-- A task declares its names in the current frame, and nothing else in a frame that there is. -/
theorem run_binds (fuel : Nat) {α : Type} (t : Task α) :
    (run fuel t).Binds (· ∈ t.declared) := by
  induction fuel generalizing α with
  | zero => exact ⟨fun _ => rfl, fun _ => .refl _, fun _ => .refl _⟩
  | succ fuel ih => exact step_binds ih t

end Evaluation

end ScopedScript
