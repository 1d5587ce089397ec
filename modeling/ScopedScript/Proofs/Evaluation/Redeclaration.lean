import ScopedScript.Proofs.Evaluation.Bindings

/-! # Declaring a name again

The declarations of a region meet each other only in a frame made for it (`run_binds`).  If the
region declares no name twice, a declaration finds its name there already only if it is executed
more than once in that frame, which only the body of a loop is: its names are the *repeats* of the
region.

A frame *admits* names if those that it has already are repeats of its region
(`Machine.Admits`).  What the current frame admits it goes on admitting at every task that is
called (`admitted_of_calls`), and in a new frame that is so to begin with.  On the other hand, a
fault about a declaration is one of a statement that is executed, in a frame that has the name
(`Composed.visits_declaration`). -/

namespace ScopedScript

open Evaluation Eval

/-! ### Admitting names -/

/-- The current frame is that of the globals, or it may get the names: it has none of them, apart
from repeats of its region.  The names `repeated` are among these. -/
inductive Machine.Admits (m : Machine) : List String → List String → Prop
  | nothing : Admits m [] []
  | globals {names repeated : List String} : m.frame = Machine.globalFrame → Admits m names repeated
  | region {names repeated : List String} {frame : Frame} : m.frames[m.frame]? = some frame →
      names.Nodup → repeated ⊆ frame.region.repeats →
      (∀ name ∈ names, frame.vars.has name = true → name ∈ frame.region.repeats) →
      Admits m names repeated

namespace Machine.Admits

variable {m m₁ : Machine} {names names₁ names₂ repeated repeated₁ repeated₂ : List String}

theorem mono (h : m.Admits names repeated) (hnames : names₁.Sublist names)
    (hrepeated : repeated₁ ⊆ repeated) : m.Admits names₁ repeated₁ := by
  cases h with
  | nothing =>
    obtain rfl := List.sublist_nil.1 hnames
    obtain rfl := List.subset_nil.1 hrepeated
    exact .nothing
  | globals h => exact .globals h
  | region hframe hnodup hsub hhas =>
    exact .region hframe (hnodup.sublist hnames) (List.Subset.trans hrepeated hsub)
      fun name hname => hhas name (hnames.subset hname)

/-- After the first names have been declared. -/
theorem rest (h : m.Admits (names₁ ++ names₂) (repeated₁ ++ repeated₂)) (hf : m₁.frame = m.frame)
    (hgrows : Grows m.frames m₁.frames)
    (hadds : Adds (· ∈ names₁) m.frame m.frames m₁.frames) : m₁.Admits names₂ repeated₂ := by
  generalize hnames : names₁ ++ names₂ = names, hrepeated : repeated₁ ++ repeated₂ = repeated at h
  cases h with
  | nothing =>
    obtain ⟨-, rfl⟩ := List.append_eq_nil_iff.1 hnames
    obtain ⟨-, rfl⟩ := List.append_eq_nil_iff.1 hrepeated
    exact .nothing
  | globals h => exact .globals (hf.trans h)
  | @region _ _ frame hframe hnodup hsub hhas =>
    subst hnames hrepeated
    obtain ⟨frame₁, hframe₁, hregion, -, -⟩ := hgrows _ _ hframe
    refine .region (hf ▸ hframe₁) (List.nodup_append.1 hnodup).2.1 ?_ fun name hname hnew => ?_
    · rw [hregion]
      exact (List.append_subset.1 hsub).2
    · rw [hregion]
      rcases hadds _ _ _ hframe hframe₁ name hnew with hold | ⟨-, hfirst⟩
      · exact hhas name (List.mem_append_right _ hname) hold
      · exact absurd rfl ((List.nodup_append.1 hnodup).2.2 name hfirst name hname)

/-- Repeats may be declared at any time. -/
theorem of_repeated (h : m.Admits names repeated) (hsub : names ⊆ repeated)
    (hf : m₁.frame = m.frame) (hgrows : Grows m.frames m₁.frames) : m₁.Admits names repeated := by
  cases h with
  | nothing => exact .nothing
  | globals h => exact .globals (hf.trans h)
  | @region _ _ frame hframe hnodup hrepeated hhas =>
    obtain ⟨frame₁, hframe₁, hregion, -, -⟩ := hgrows _ _ hframe
    rw [← hregion] at hrepeated
    exact .region (hf ▸ hframe₁) hnodup hrepeated fun name hname _ => hrepeated (hsub hname)

end Machine.Admits

namespace Evaluation

/-- The current frame admits what the task declares. -/
def Config.Admitted (c : Config) : Prop := c.machine.Admits c.task.declared c.task.repeats

/-- If the current frame admits the names, it does so at whatever the evaluation calls. -/
def Orderly (fuel : Nat) (names repeated : List String) {α : Type} (x : Interpreter → Eval α) :
    Prop :=
  ∀ m : Machine, m.Admits names repeated → ∀ c, Calls x (run fuel) m c → c.Admitted

namespace Orderly

variable {α β : Type} {fuel : Nat} {names names₁ names₂ repeated repeated₁ repeated₂ : List String}
variable {x : Interpreter → Eval α} {k : Interpreter → α → Eval β}
variable {Q : {α : Type} → Task α → Prop} {moves watched : Prop} {risks : RuntimeFault → Prop}

theorem task (t : Task α) : Orderly fuel t.declared t.repeats fun self => self t := by
  intro m hm c hc
  obtain rfl := hc.of_task
  exact hm

theorem const (x : Eval α) : Orderly fuel names repeated fun _ => x :=
  fun _ _ _ hc => absurd hc (Calls.not_of_const _ fun _ => rfl)

/-- What calls silent tasks only. -/
theorem of_silent (h : Composed Task.Silent moves watched risks x) :
    Orderly fuel names repeated x := by
  intro m _ c hc
  obtain ⟨hdeclared, hrepeats⟩ := h.of_calls hc
  unfold Config.Admitted
  rw [hdeclared, hrepeats]
  exact .nothing

theorem mono (h : Orderly fuel names₁ repeated₁ x) (hnames : names₁.Sublist names)
    (hrepeated : repeated₁ ⊆ repeated) : Orderly fuel names repeated x :=
  fun m hm => h m (hm.mono hnames hrepeated)

theorem bind (hcomposed : Composed Q moves watched risks x)
    (hbinds : (x (run fuel)).Binds (· ∈ names₁)) (hx : Orderly fuel names₁ repeated₁ x)
    (hk : ∀ a, Orderly fuel names₂ repeated₂ fun self => k @self a) :
    Orderly fuel (names₁ ++ names₂) (repeated₁ ++ repeated₂) fun self => x @self >>= k @self := by
  intro m hm c hc
  obtain hc | ⟨a, m₁, hr, hc⟩ := hcomposed.calls_bind hc
  · exact hx m (hm.mono (List.sublist_append_left _ _) (List.subset_append_left _ _)) c hc
  · have hframe := hbinds.frame m
    have hgrows := hbinds.grows m
    have hadds := hbinds.adds m
    rw [hr] at hframe hgrows hadds
    exact hk a m₁ (hm.rest hframe hgrows hadds) c hc

/-- Before a step that calls nothing. -/
theorem before (hcomposed : Composed Q moves watched risks x) (hx : Orderly fuel names repeated x)
    (k : α → Eval β) : Orderly fuel names repeated fun self => x @self >>= k := by
  intro m hm c hc
  obtain hc | ⟨a, m₁, -, hc⟩ := hcomposed.calls_bind hc
  · exact hx m hm c hc
  · exact absurd hc (Calls.not_of_const _ fun _ => rfl)

/-- After what declares nothing. -/
theorem after_silent (h : Composed Task.Silent False False (fun _ => False) x)
    (hk : ∀ a, Orderly fuel names repeated fun self => k @self a) :
    Orderly fuel names repeated fun self => x @self >>= k @self := by
  have hbinds : (x (run fuel)).Binds (· ∈ ([] : List String)) :=
    h.binds (fun _ h => h.elim) False.elim fun t ht => task_binds (run_binds fuel) (by simp [ht.1])
  exact bind h hbinds (of_silent h : Orderly fuel [] [] x) hk

end Orderly

/-! ### Statements -/

section

variable {fuel : Nat}

theorem execAll_orderly (ss : List Stmt) :
    Orderly fuel (stmtsDeclared ss) (ss.flatMap Stmt.repeats) fun self => execAll @self ss := by
  induction ss with
  | nil => exact .const _
  | cons s ss ih =>
    simp only [execAll_cons, stmtsDeclared_cons, List.flatMap_cons]
    have hcomposed : Composed (fun _ => True) False False (fun _ => False)
        fun self => self (.stmt s) := .task trivial
    refine .bind hcomposed (run_binds fuel (.stmt s)) (.task (.stmt s)) fun signal => ?_
    cases signal with
    | returned v => exact .const _
    | proceed => exact ih

theorem execProperties_orderly (ps : List StmtEntry) :
    Orderly fuel ((propertiesBinders ps).map Binder.name) (propertiesRepeats ps)
      fun self => execProperties @self ps := by
  induction ps with
  | nil => exact .const _
  | cons entry ps ih =>
    obtain ⟨key, s⟩ := entry
    simp only [execProperties, propertiesBinders, propertiesRepeats, List.map_append]
    have hcomposed : Composed (fun _ => True) False False (fun _ => False)
        fun self => self (.stmt s) := .task trivial
    exact .bind hcomposed (run_binds fuel (.stmt s)) (.task (.stmt s)) fun _ => ih

theorem evalInit_orderly (init : Option Stmt) :
    Orderly fuel ((optionBinders init).map Binder.name) (optionRepeats init)
      fun self => evalInit @self init := by
  cases init with
  | none => exact .const _
  | some s =>
    by_cases hs : ∃ e token, s = .expression e token
    · obtain ⟨e, token, rfl⟩ := hs
      exact .of_silent (.task ⟨rfl, rfl⟩ : Composed Task.Silent False False (fun _ => False)
        fun self => self (.expr e))
    · have hne : ∀ e token, s ≠ .expression e token := fun e token heq => hs ⟨e, token, heq⟩
      simp only [Sims.evalInit_of_ne _ hne, optionBinders, optionRepeats]
      have hcomposed : Composed (fun _ => True) False False (fun _ => False)
          fun self => self (.stmt s) := .task trivial
      exact .before hcomposed (.task (.stmt s)) _

theorem evalCondition_silent (condition : Expr) (keyword : Token) :
    Composed Task.Silent False False (fun _ => False)
      fun self => evalCondition @self condition keyword := evalCondition_composed keyword ⟨rfl, rfl⟩

/-- A statement without parts, other than a loop. -/
theorem exec_silent {s : Stmt} (hparts : s.parts = []) (hblock : ∀ ss, s ≠ .block ss)
    (hloop : ∀ condition body token, s ≠ .loop condition body token) :
    Composed Task.Silent False False (fun _ => True) fun self => exec @self s := by
  refine exec_composed s (fun s' hs' => ?_) (fun _ _ => ⟨rfl, rfl⟩) (fun c b t h => ?_)
    (fun ss h => hblock ss h) False.elim fun _ _ => trivial
  · rw [hparts] at hs'
    cases hs'
  · exact absurd h (hloop c b t)

/-- A statement that is no block. -/
theorem exec_orderly {s : Stmt} (hblock : ∀ ss, s ≠ .block ss) :
    Orderly fuel s.declared s.repeats fun self => exec @self s := by
  cases s with
  | block ss => exact absurd rfl (hblock ss)
  | «variable» name kind ty init =>
    have hinit : Composed (fun _ => True) False False (fun _ => False)
        fun self => evalInit @self init :=
      evalInit_composed (fun _ _ => trivial) fun _ _ _ => trivial
    simp only [Stmt.declared, Stmt.binders, Stmt.repeats, List.map_cons]
    exact (Orderly.before hinit (evalInit_orderly init) _).mono (List.sublist_cons_self _ _)
      (List.Subset.refl _)
  | cond keyword condition thenBranch elseBranch =>
    refine .after_silent (evalCondition_silent condition keyword) fun holds => ?_
    simp only [Stmt.declared, Stmt.binders, Stmt.repeats, List.map_append]
    cases holds with
    | true =>
      exact (Orderly.task (.stmt thenBranch)).mono (List.sublist_append_left _ _)
        (List.subset_append_left _ _)
    | false =>
      cases elseBranch with
      | none => exact .const _
      | some s =>
        exact (Orderly.task (.stmt s)).mono (List.sublist_append_right _ _)
          (List.subset_append_right _ _)
  | loop condition body token =>
    simp only [Stmt.declared, Stmt.binders, Stmt.repeats]
    exact .task (.loop condition body token)
  | object properties =>
    simp only [Stmt.declared, Stmt.binders, Stmt.repeats]
    exact execProperties_orderly properties
  | empty | expression _ _ | indexAssign _ _ _ _ | functionDecl _ | returns _ _ | classDecl _ =>
    exact .of_silent (exec_silent rfl (by simp) (by simp))

/-- The names that the body of a loop declares are repeats, so they may be declared each time. -/
theorem execLoop_orderly (condition : Expr) (body : Stmt) (token : Token) :
    Orderly fuel body.declared body.declared
      fun self => execLoop @self condition body token := by
  refine .after_silent (evalCondition_silent condition token) fun holds => ?_
  cases holds with
  | false => exact .const _
  | true =>
    intro m hm c hc
    have hbody : Composed (fun _ => True) False False (fun _ => False)
        fun self => self (.stmt body) := .task trivial
    obtain hc | ⟨signal, m₁, hr, hc⟩ := hbody.calls_bind hc
    · obtain rfl := hc.of_task
      exact hm.mono (List.Sublist.refl _) body.repeats_subset
    · cases signal with
      | returned v => exact absurd hc (Calls.not_of_const _ fun _ => rfl)
      | proceed =>
        obtain rfl := hc.of_task
        have hbinds := run_binds fuel (.stmt body)
        have hframe := hbinds.frame m
        have hgrows := hbinds.grows m
        rw [show run fuel (.stmt body) m = .ok .proceed m₁ from hr] at hframe hgrows
        exact hm.of_repeated (List.Subset.refl _) hframe hgrows

/-! ### New frames -/

variable {m : Machine} {c : Config}

/-- The statements of a region, in a frame made for it that has other names. -/
theorem admitted_of_statements {ss : List Stmt} {parent : FrameId} {vars : Record Value}
    (region : Region) (hnodup : (stmtsDeclared ss).Nodup)
    (hrepeats : region.repeats = ss.flatMap Stmt.repeats)
    (hvars : ∀ name ∈ stmtsDeclared ss, vars.has name = false)
    (hc : Calls (fun self => Eval.inFrame m.frames.size (execAll @self ss)) (run fuel)
      (m.pushFrame region parent vars) c) : c.Admitted := by
  have hframe : (m.pushFrame region parent vars).frames[m.frames.size]? =
      some ⟨region, some parent, vars⟩ := Array.getElem?_push_size
  refine execAll_orderly ss _ (.region hframe hnodup ?_ fun name hname hhas => ?_) c hc.of_inFrame
  · rw [hrepeats]
    exact List.Subset.refl _
  · rw [hvars name hname] at hhas
    cases hhas

/-- The parameters are the only variables in the beginning. -/
theorem bindParameters_has {ps : List Parameter} {vs : List Value} {vars vars' : Record Value}
    {m' : Machine} (h : bindParameters ps vs vars m = .ok vars' m') {name : String}
    (hname : vars'.has name = true) : vars.has name = true ∨ name ∈ ps.map Parameter.name := by
  fun_induction bindParameters ps vs vars with
  | case1 => cases h
  | case2 p ps v vs vars _ ih =>
    rcases ih h with hhas | hmem
    · rw [Record.has_set, Bool.or_eq_true, beq_iff_eq] at hhas
      rcases hhas with rfl | hhas
      · exact .inr List.mem_cons_self
      · exact .inl hhas
    · exact .inr (List.mem_cons_of_mem _ hmem)
  | case3 =>
    obtain ⟨rfl, -⟩ := EStateM.Result.ok.inj h
    exact .inl hname

theorem admitted_of_runBody {declaration : FunctionDecl} {g : FrameId} {args : List Value}
    (hnodup : (Region.function declaration).declared.Nodup)
    (hc : Calls (fun self => runBody @self declaration g args) (run fuel) m c) : c.Admitted := by
  obtain ⟨vars, m₁, hvars, hc⟩ := hc.of_after
  obtain ⟨own, m₂, hown, hc⟩ := hc.of_after
  obtain ⟨rfl, rfl⟩ := EStateM.Result.ok.inj hown
  have hbody : Composed (fun _ => True) True False (fun _ => False) fun self =>
      Eval.inFrame m₁.frames.size (execAll @self declaration.body) :=
    .inFrame _ trivial (execAll_composed fun _ _ => trivial)
  obtain hc | ⟨signal, m₃, -, hc⟩ := hbody.calls_bind hc
  · obtain ⟨-, hstatements, hdisjoint⟩ := List.nodup_append.1 hnodup
    refine admitted_of_statements (.function declaration) hstatements rfl (fun name hname => ?_) hc
    by_contra hhas
    rcases bindParameters_has hvars (by simpa using hhas) with h | h
    · cases h
    · exact hdisjoint name h name hname rfl
  · exact absurd hc (Calls.not_of_const _ fun _ => rfl)

theorem admitted_of_runMethod {b : Method} {args : List Value}
    (hnodup : (Region.function b.declaration).declared.Nodup)
    (hc : Calls (fun self => runMethod @self b args) (run fuel) m c) : c.Admitted := by
  have hbody : Composed (fun _ => True) True False (fun _ => True) fun self =>
      runBody @self b.declaration b.frame args :=
    runBody_composed trivial (fun _ => trivial) b.declaration.bindable _ _
  obtain hc | ⟨v, m₁, -, hc⟩ := hbody.calls_bind hc
  · exact admitted_of_runBody hnodup hc
  · exact absurd hc (Calls.not_of_const _ fun _ => rfl)

theorem admitted_of_construct {i : Instance} {args : List Value}
    (hnodup : ∀ d ∈ i.cls.declaration.methods, (Region.function d).declared.Nodup)
    (hc : Calls (fun self => construct @self i args) (run fuel) m c) : c.Admitted := by
  simp only [construct] at hc
  cases hmethod : i.cls.declaration.method? ClassDecl.constructorName with
  | none =>
    rw [hmethod] at hc
    exact absurd hc (Calls.not_of_const _ fun _ => rfl)
  | some declaration =>
    simp only [hmethod] at hc
    have hmem : declaration ∈ i.cls.declaration.methods :=
      List.mem_reverse.1 (List.mem_of_find?_eq_some hmethod)
    obtain ⟨b, m₁, hb, hc⟩ := hc.of_after
    have hdeclaration : b.declaration = declaration := by
      obtain ⟨rfl, -⟩ := EStateM.Result.ok.inj hb
      rfl
    have hbody : Composed (fun _ => True) True False (fun _ => True) fun self =>
        runMethod @self b args :=
      runMethod_composed trivial (fun _ => trivial) b.declaration.bindable args
    obtain hc | ⟨v, m₂, -, hc⟩ := hbody.calls_bind hc
    · exact admitted_of_runMethod (hdeclaration ▸ hnodup declaration hmem) hc
    · exact absurd hc (Calls.not_of_const _ fun _ => rfl)

theorem admitted_of_instantiate {k : Class} {args : List Value}
    (hnodup : ∀ d ∈ k.declaration.methods, (Region.function d).declared.Nodup)
    (hc : Calls (fun self => instantiate @self k args) (run fuel) m c) : c.Admitted := by
  simp only [instantiate_eq] at hc
  obtain ⟨ref, m₁, -, hc⟩ := hc.of_after
  cases hempty : k.declaration.fields.isEmpty with
  | true =>
    rw [hempty] at hc
    exact admitted_of_construct hnodup hc
  | false =>
    rw [hempty] at hc
    obtain ⟨g, m₂, -, hc⟩ := hc.of_after
    have hfields : Composed Task.Silent True False (fun _ => False) fun self =>
        initFields @self g ref k.declaration.fields :=
      initFields_composed trivial (fun _ => ⟨rfl, rfl⟩) _ _ _
    obtain hc | ⟨u, m₃, -, hc⟩ := hfields.calls_bind hc
    · exact Orderly.of_silent hfields _ .nothing _ hc
    · exact admitted_of_construct hnodup hc

theorem admitted_of_invoke {callee : Value} {site : Token} {args : List Value}
    (hnodup : ∀ d ∈ callee.functions, (Region.function d).declared.Nodup)
    (hc : Calls (fun self => invoke @self callee site args) (run fuel) m c) : c.Admitted := by
  cases callee with
  | function k => exact admitted_of_runBody (hnodup _ (List.mem_singleton_self _)) hc
  | method b => exact admitted_of_runMethod (hnodup _ (List.mem_singleton_self _)) hc
  | native n =>
    have hnative : Composed Task.Silent False False (fun _ => False)
        fun self => invoke @self (.native n) site args :=
      invokeNative_composed (fun _ _ _ => ⟨rfl, rfl⟩) n site args
    exact Orderly.of_silent hnative _ .nothing _ hc
  | cls k => exact admitted_of_instantiate hnodup hc
  | _ => exact absurd hc (Calls.not_of_const _ fun _ => rfl)

/-- What the current frame admits it goes on admitting, and so does a new frame for a region that
declares no name twice. -/
theorem admitted_of_calls {c c' : Config} (h : c.Admitted)
    (hregions : ∀ r ∈ c.task.regions, r.declared.Nodup)
    (hc : Calls (fun self => step self c.task) (run fuel) c.machine c') : c'.Admitted := by
  obtain ⟨t, m⟩ := c
  cases t with
  | expr e =>
    have hsilent : Composed Task.Silent False False (fun _ => False)
        fun self => evalExpr @self e :=
      evalExpr_composed e (fun _ _ => ⟨rfl, rfl⟩) (fun _ _ _ => ⟨rfl, rfl⟩) (fun _ _ => ⟨rfl, rfl⟩)
        False.elim
    exact Orderly.of_silent hsilent _ .nothing _ hc
  | property v name =>
    have hsilent : Composed Task.Silent False False (fun _ => False)
        fun self => property @self v name :=
      property_composed v name (fun _ _ _ => ⟨rfl, rfl⟩) (fun _ _ => ⟨rfl, rfl⟩)
    exact Orderly.of_silent hsilent _ .nothing _ hc
  | call callee site args =>
    obtain ⟨-, -, hc⟩ := calls_callValue hc
    exact admitted_of_invoke (fun d hd => hregions _ (List.mem_map_of_mem hd)) hc
  | stmt s =>
    by_cases hblock : ∃ ss, s = .block ss
    · obtain ⟨ss, rfl⟩ := hblock
      have hstatements : Calls (fun self => Eval.inFrame m.frames.size (execAll @self ss)) (run fuel)
        (m.pushFrame (.block ss) m.frame []) c' := hc
      exact admitted_of_statements (.block ss) (hregions _ (List.mem_singleton_self _)) rfl
        (fun _ _ => rfl) hstatements
    · exact exec_orderly (fun ss heq => hblock ⟨ss, heq⟩) m h c' hc
  | loop condition body token => exact execLoop_orderly condition body token m h c' hc

/-- From the beginning everything that is visited is admitted. -/
theorem admitted_of_visits {α : Type} {x : Interpreter → Eval α}
    (hx : ∀ fuel c, Calls x (run fuel) m c → c.Admitted)
    (hregions : ∀ c, Visits fuel x m c → ∀ r ∈ c.task.regions, r.declared.Nodup)
    (hv : Visits fuel x m c) : c.Admitted := by
  induction hv with
  | call hc => exact hx _ _ hc
  | inside hc _ ih =>
    refine ih (fun fuel c' hc' => ?_) fun c' hv => hregions c' (.inside hc hv)
    exact admitted_of_calls (hx _ _ hc) (hregions _ (.call hc)) hc'

end

/-- An evaluation that calls all that another one calls visits all that the other one does. -/
theorem Visits.of_calls {α β : Type} {x : Interpreter → Eval α} {x' : Interpreter → Eval β}
    {fuel : Nat} {m m' : Machine} {c : Config} (h : Visits fuel x m c)
    (hx : ∀ fuel c, Calls x (run fuel) m c → Calls x' (run fuel) m' c) : Visits fuel x' m' c := by
  cases h with
  | call hc => exact .call (hx _ _ hc)
  | inside hc hin => exact .inside (hx _ _ hc) hin

end Evaluation

/-! ### Where the fault comes from -/

/-- The fault is that a name is declared already. -/
def RuntimeFault.IsRedeclaration : RuntimeFault → Prop
  | .alreadyDeclared _ | .parameterDeclared _ => True
  | _ => False

theorem RuntimeFault.IsRedeclaration.not_plain {fault : RuntimeFault} (h : fault.IsRedeclaration) :
    ¬fault.Plain fun _ => False := by
  cases fault <;> first | exact h.elim | exact id

/-- The statement, executed on the machine, declares the token that has the error, in the current
frame.  When it does so, the frame has the name. -/
structure Stmt.Redeclares (s : Stmt) (m : Machine) (error : RuntimeError) : Prop where
  declares : s.declares? = some error.token
  fault : error.fault = .alreadyDeclared error.token.lexeme
  bound : ∃ rest, s.declared = error.token.lexeme :: rest ∧ ∃ m₁ : Machine, m₁.frame = m.frame ∧
    Grows m.frames m₁.frames ∧ Adds (· ∈ rest) m.frame m.frames m₁.frames ∧
    (m₁.vars m₁.frame).has error.token.lexeme = true

namespace Eval

theorem declareVariable_error {name : Token} {v : Value} {m m' : Machine} {e : Stop}
    (h : declareVariable name v m = .error e m') :
    e = .raised ⟨.alreadyDeclared name.lexeme, name⟩ ∧ (m.vars m.frame).has name.lexeme = true := by
  have hlook : inspect (fun m => (m.vars m.frame).has name.lexeme) m =
      .ok ((m.vars m.frame).has name.lexeme) m := rfl
  unfold declareVariable at h
  rw [bind_ok hlook] at h
  cases hhas : (m.vars m.frame).has name.lexeme with
  | true =>
    rw [hhas] at h
    exact ⟨(EStateM.Result.error.inj h).1.symm, rfl⟩
  | false =>
    rw [hhas] at h
    cases h

end Eval

namespace Evaluation

section

variable {fuel : Nat} {m m' : Machine} {error : RuntimeError}

/-- A function or class declares its name at once. -/
theorem redeclares_of_declareVariable {s : Stmt} {name : Token} (identity : Nat) (v : Value)
    (hdeclares : s.declares? = some name) (hdeclared : s.declared = [name.lexeme])
    (h : (declareVariable name v >>= fun _ => pure Signal.proceed)
      { m with nextIdentity := identity } = .error (.raised error) m') : s.Redeclares m error := by
  cases hdeclare : declareVariable name v { m with nextIdentity := identity } with
  | ok u m₁ =>
    rw [bind_ok hdeclare] at h
    cases h
  | error e m₁ =>
    rw [bind_error hdeclare] at h
    obtain ⟨rfl, -⟩ := EStateM.Result.error.inj h
    obtain ⟨herror, hhas⟩ := declareVariable_error hdeclare
    obtain rfl := Stop.raised.inj herror
    exact ⟨hdeclares, rfl, [], hdeclared, { m with nextIdentity := identity }, rfl, .refl _,
      .refl _, hhas⟩

/-- A declaration that fails finds its name there, if its initialiser does not fail. -/
theorem exec_redeclares {s : Stmt} (hs : s.declares?.isSome = true)
    (hfail : exec (run fuel) s m = .error (.raised error) m') : s.Redeclares m error ∨
      ∃ name kind ty init m₁, s = .variable name kind ty init ∧
        evalInit (run fuel) init m = .error (.raised error) m₁ := by
  cases s with
  | «variable» name kind ty init =>
    cases hinit : evalInit (run fuel) init m with
    | error e m₁ =>
      have hbind : exec (run fuel) (.variable name kind ty init) m = .error e m₁ := bind_error hinit
      obtain ⟨rfl, -⟩ := EStateM.Result.error.inj (hbind.symm.trans hfail)
      exact .inr ⟨name, kind, ty, init, m₁, rfl, hinit⟩
    | ok v m₁ =>
      left
      have hbind : exec (run fuel) (.variable name kind ty init) m =
        (declareVariable name v >>= fun _ => pure .proceed) m₁ := bind_ok hinit
      rw [hbind] at hfail
      cases hdeclare : declareVariable name v m₁ with
      | ok u m₂ =>
        rw [bind_ok hdeclare] at hfail
        cases hfail
      | error e m₂ =>
        rw [bind_error hdeclare] at hfail
        obtain ⟨rfl, -⟩ := EStateM.Result.error.inj hfail
        obtain ⟨herror, hhas⟩ := declareVariable_error hdeclare
        obtain rfl := Stop.raised.inj herror
        have hcomposed : Composed (fun t => t.declared ⊆ (optionBinders init).map Binder.name) False
            False (fun _ => False) fun self => evalInit @self init := by
          refine evalInit_composed (fun s hs => ?_) fun _ _ _ => List.nil_subset _
          subst hs
          exact List.Subset.refl _
        have hbinds : (evalInit (run fuel) init).Binds (· ∈ (optionBinders init).map Binder.name) :=
          hcomposed.binds (fun _ h => h.elim) False.elim fun t ht =>
            task_binds (run_binds fuel) fun name hname => ht hname
        have hframe := hbinds.frame m
        have hgrows := hbinds.grows m
        have hadds := hbinds.adds m
        rw [hinit] at hframe hgrows hadds
        refine ⟨rfl, rfl, _, ?_, m₁, hframe, hgrows, hadds, hhas⟩
        simp only [Stmt.declared, Stmt.binders, List.map_cons, Binder.name]
  | functionDecl declaration =>
    refine .inl (redeclares_of_declareVariable (m.nextIdentity + 1)
      (.function ⟨m.nextIdentity, declaration, m.frame, false⟩) rfl ?_ hfail)
    simp only [Stmt.declared, Stmt.binders, List.map_cons, List.map_nil, Binder.name]
  | classDecl declaration =>
    refine .inl (redeclares_of_declareVariable (m.nextIdentity + 1)
      (.cls ⟨m.nextIdentity, declaration, m.frame⟩) rfl ?_ hfail)
    simp only [Stmt.declared, Stmt.binders, List.map_cons, List.map_nil, Binder.name]
  | _ => cases hs

/-- A fault about a declaration is that of a statement that declares the name, in a frame that has
it, unless a function that is called has two parameters of one name. -/
theorem Composed.visits_redeclaration {Q : {α : Type} → Task α → Prop} {moves watched : Prop}
    {α : Type} {x : Interpreter → Eval α} (h : Composed Q moves watched (fun _ => False) x)
    (hfault : error.fault.IsRedeclaration)
    (hregions : ∀ c, Visits fuel x m c → ∀ r ∈ c.task.regions, r.declared.Nodup)
    (hfail : x (run fuel) m = .error (.raised error) m') :
    ∃ s m₁, Visits fuel x m ⟨.stmt s, m₁⟩ ∧ s.Redeclares m₁ error := by
  have hplain : ∀ error', Stop.raised error = .raised error' → ¬error'.fault.Plain fun _ => False := by
    intro error' herror
    obtain rfl := Stop.raised.inj herror
    exact hfault.not_plain
  induction fuel generalizing α Q moves watched x m m' with
  | zero =>
    obtain ⟨c, m₁, -, -, hc⟩ := h.exists_calls hplain hfail
    cases hc
  | succ fuel ih =>
    obtain ⟨⟨t, m₁⟩, m₂, -, hcalls, hc⟩ := h.exists_calls hplain hfail
    change step (run fuel) t m₁ = _ at hc
    have hinside : ∀ {β : Type} {Q : {α : Type} → Task α → Prop} {moves watched : Prop}
        {x' : Interpreter → Eval β} {m₃ m₄ : Machine},
        Composed Q moves watched (fun _ => False) x' →
        (∀ fuel c, Calls x' (run fuel) m₃ c → Calls (fun self => step self t) (run fuel) m₁ c) →
        x' (run fuel) m₃ = .error (.raised error) m₄ →
        ∃ s m₁, Visits (fuel + 1) x m ⟨.stmt s, m₁⟩ ∧ s.Redeclares m₁ error := by
      intro β Q moves watched x' m₃ m₄ hx' hcalls' hfail'
      obtain ⟨s, m₅, hv, hs⟩ := ih hx'
        (fun c hv => hregions c (.inside hcalls (hv.of_calls hcalls'))) hfail'
      exact ⟨s, m₅, .inside hcalls (hv.of_calls hcalls'), hs⟩
    cases t with
    | expr e =>
      have hstep : Composed (fun _ => True) False False (fun _ => False)
          fun self => step @self (.expr e) :=
        step_composed_of (.expr e) rfl (fun _ h => by cases h) False.elim
          fun n name hn hname => by
            obtain rfl := Option.some.inj hn
            cases hname
      exact hinside hstep (fun _ _ hc => hc) hc
    | property v name =>
      have hstep : Composed (fun _ => True) False False (fun _ => False)
          fun self => step @self (.property v name) :=
        step_composed_of (.property v name) rfl (fun _ h => by cases h) False.elim
          fun n name hn hname => by cases hn
      exact hinside hstep (fun _ _ hc => hc) hc
    | loop condition body token =>
      have hstep : Composed (fun _ => True) False False (fun _ => False)
          fun self => step @self (.loop condition body token) :=
        step_composed_of (.loop condition body token) rfl (fun _ h => by cases h) False.elim
          fun n name hn hname => by cases hn
      exact hinside hstep (fun _ _ hc => hc) hc
    | stmt s =>
      cases hs : s.declares? with
      | none =>
        have hstep : Composed (fun _ => True) True False (fun _ => False)
            fun self => step @self (.stmt s) :=
          step_composed_of (.stmt s) rfl (fun _ _ => trivial) False.elim fun n name hn hname => by
            obtain rfl := Option.some.inj hn
            cases hs.symm.trans hname
        exact hinside hstep (fun _ _ hc => hc) hc
      | some name =>
        rcases exec_redeclares (by rw [hs]; rfl) hc with hredeclares | ⟨t, _, _, init, m₃, rfl, hinit⟩
        · exact ⟨s, m₁, .call hcalls, hredeclares⟩
        · have hinits : Composed (fun _ => True) False False (fun _ => False)
              fun self => evalInit @self init :=
            evalInit_composed (fun _ _ => trivial) fun _ _ _ => trivial
          exact hinside hinits (fun _ _ hc => hc.bind fun _ v =>
            (declareVariable t v >>= fun _ => pure Signal.proceed)) hinit
    | call callee site args =>
      change callValue (run fuel) callee site args m₁ = _ at hc
      obtain ⟨ha, hdepth, heq⟩ | ⟨-, -, heq⟩ | ⟨-, error', hplain', heq⟩ :=
        callValue_cases callee site args m₁
      · rw [heq] at hc
        obtain ⟨m₃, hinner⟩ := error_of_asCall hc
        have hinvoke : Composed (fun _ => True) True False (fun _ => False)
            fun self => invoke @self callee site args := by
          refine invoke_composed_of trivial (fun _ => trivial) (fun _ => trivial)
            (fun _ _ _ => trivial) (fun d hd => .inl ?_) site args
          have hregion := hregions _ (.call hcalls) (.function d) (List.mem_map_of_mem hd)
          exact (List.nodup_append.1 hregion).1
        exact hinside hinvoke (fun _ _ hc => hc.callValue ha hdepth) hinner
      · rw [heq] at hc
        obtain ⟨hraised, -⟩ := EStateM.Result.error.inj hc
        obtain rfl := Stop.raised.inj hraised
        exact hfault.elim
      · rw [heq] at hc
        obtain ⟨hraised, -⟩ := EStateM.Result.error.inj hc
        obtain rfl := Stop.raised.inj hraised
        exact absurd (hplain' _) hfault.not_plain

end

end Evaluation

end ScopedScript
