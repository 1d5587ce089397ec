import ScopedScript.Proofs.Evaluation.Composition
import ScopedScript.Proofs.Scope.Distances

/-! # Where `return` leads

A `return` leaves the statements around it up to the body of a function.  Two things work together
so that it leaves nothing else.

* The scope analysis passes no statement that may leave its function (`Stmt.mayReturn`) outside
  functions or in a constructor (`Scope.walkStmt_bars`).
* Executing a statement that may not leave its function goes on after it (`run_proceeds`).

So at the places of a program that has passed the analysis nothing returns outside functions, and no
constructor returns (`returns_confined`). -/

namespace ScopedScript

/-! ### Statements that may leave their function -/

mutual

/-- May executing the statement leave the function around it? -/
def Stmt.mayReturn : Stmt → Bool
  | .block statements => stmtsMayReturn statements
  | .cond _ _ thenBranch elseBranch => thenBranch.mayReturn || optionMayReturn elseBranch
  | .loop _ body _ => body.mayReturn
  | .returns _ _ => true
  | .empty | .expression _ _ | .variable _ _ _ _ | .indexAssign _ _ _ _ | .functionDecl _
  | .object _ | .classDecl _ => false

/-- May executing the statement, if there is one, leave the function around it? -/
def optionMayReturn : Option Stmt → Bool
  | none => false
  | some s => s.mayReturn

/-- May executing the statements leave the function around them? -/
def stmtsMayReturn : List Stmt → Bool
  | [] => false
  | s :: ss => s.mayReturn || stmtsMayReturn ss

end

theorem stmtsMayReturn_eq_any (ss : List Stmt) : stmtsMayReturn ss = ss.any Stmt.mayReturn := by
  induction ss with
  | nil => simp only [stmtsMayReturn, List.any_nil]
  | cons s ss ih => simp only [stmtsMayReturn, List.any_cons, ih]

/-! ### The analysis -/

namespace Scope

/-- In the body `return` is an error. -/
def Context.Bars (k : Context) : Prop := k.body = .program ∨ k.body = .constructor

section

variable {k : Context}

mutual

theorem walkStmt_bars (hk : k.Bars) {st st' : State} :
    (s : Stmt) → walkStmt k s st = .ok () st' → s.mayReturn = false
  | .block statements, h => by
    simp only [walkStmt] at h
    simp only [Stmt.mayReturn]
    obtain ⟨_, hin, -⟩ := ok_of_within h
    exact walkStmts_bars hk statements hin
  | .cond _ _ thenBranch elseBranch, h => by
    simp only [walkStmt] at h
    obtain ⟨_, _, _, h⟩ := ok_of_bind h
    obtain ⟨_, _, hthen, helse⟩ := ok_of_bind h
    simp only [Stmt.mayReturn, walkStmt_bars hk thenBranch hthen,
      walkOption_bars hk elseBranch helse, Bool.or_false]
  | .loop _ body _, h => by
    simp only [walkStmt] at h
    obtain ⟨_, _, _, hbody⟩ := ok_of_bind h
    simp only [Stmt.mayReturn]
    exact walkStmt_bars hk body hbody
  | .returns _ _, h => by
    rcases hk with hb | hb <;>
    · simp only [walkStmt, hb] at h
      cases h
  | .empty, _ | .expression _ _, _ | .variable _ _ _ _, _ | .indexAssign _ _ _ _, _
  | .functionDecl _, _ | .object _, _ | .classDecl _, _ => by simp only [Stmt.mayReturn]

theorem walkOption_bars (hk : k.Bars) {st st' : State} :
    (o : Option Stmt) → walkOption k o st = .ok () st' → optionMayReturn o = false
  | none, _ => by simp only [optionMayReturn]
  | some s, h => by
    simp only [walkOption] at h
    simp only [optionMayReturn]
    exact walkStmt_bars hk s h

theorem walkStmts_bars (hk : k.Bars) {st st' : State} :
    (ss : List Stmt) → walkStmts k ss st = .ok () st' → stmtsMayReturn ss = false
  | [], _ => by simp only [stmtsMayReturn]
  | s :: ss, h => by
    simp only [walkStmts] at h
    obtain ⟨_, _, hs, hss⟩ := ok_of_bind h
    simp only [stmtsMayReturn, walkStmt_bars hk s hs, walkStmts_bars hk ss hss, Bool.or_false]

end

/-- The analysis passes no constructor that may return. -/
theorem walkMethods_bars {ms : List FunctionDecl} {st st' : State}
    (h : walkMethods k ms st = .ok () st') {d : FunctionDecl} (hd : d ∈ ms)
    (hname : d.name.lexeme = ClassDecl.constructorName) : stmtsMayReturn d.body = false := by
  induction ms generalizing st with
  | nil => cases hd
  | cons m ms ih =>
    simp only [walkMethods] at h
    obtain ⟨_, st₁, hm, hms⟩ := ok_of_bind h
    rcases List.mem_cons.1 hd with rfl | hd
    · obtain ⟨name, params, body, result⟩ := d
      simp only [walkFunction] at hm
      obtain ⟨_, hin, -⟩ := ok_of_within hm
      obtain ⟨_, _, _, hbody⟩ := ok_of_bind hin
      exact walkStmts_bars (.inr (if_pos hname)) body hbody
    · exact ih hms hd

theorem walkClass_bars {c : ClassDecl} {st st' : State} (h : walkClass k c st = .ok () st')
    {d : FunctionDecl} (hd : d ∈ c.methods) (hname : d.name.lexeme = ClassDecl.constructorName) :
    stmtsMayReturn d.body = false := by
  obtain ⟨name, methods, fields⟩ := c
  simp only [walkClass] at h
  obtain ⟨_, _, _, h⟩ := ok_of_bind h
  obtain ⟨_, _, _, h⟩ := ok_of_bind h
  obtain ⟨_, hin, -⟩ := ok_of_within h
  obtain ⟨_, _, _, hmethods⟩ := ok_of_bind hin
  exact walkMethods_bars hmethods hd hname

end

end Scope

namespace Place.Passed

open Scope

variable {ctx : Surroundings}

/-- Outside functions no statement may return. -/
theorem not_mayReturn {s : Stmt} (h : Place.Passed ⟨ctx, .stmt s⟩) (hctx : ¬ctx.InFunction) :
    s.mayReturn = false := by
  by_cases hid : Place.id? ⟨ctx, .stmt s⟩ = none
  · obtain ⟨k, hk, st, st', hwalk⟩ := h.stmt s rfl hid
    have hbody : k.body = .program := by
      by_contra hne
      exact hctx (hk.body hne)
    exact walkStmt_bars (.inl hbody) s hwalk
  · cases s with
    | indexAssign => simp only [Stmt.mayReturn]
    | _ => exact absurd rfl hid

/-- No constructor may return. -/
theorem constructor_not_mayReturn {c : ClassDecl} (h : Place.Passed ⟨ctx, .stmt (.classDecl c)⟩)
    {d : FunctionDecl} (hd : d ∈ c.methods) (hname : d.name.lexeme = ClassDecl.constructorName) :
    stmtsMayReturn d.body = false := by
  obtain ⟨k, -, st, st', hwalk⟩ := h.stmt _ rfl rfl
  simp only [walkStmt] at hwalk
  exact walkClass_bars hwalk hd hname

end Place.Passed

/-! ### The evaluation -/

namespace Eval

variable {α β : Type}

/-- Whatever the step yields has the property. -/
def Yields (P : α → Prop) (x : Eval α) : Prop := ∀ m a m', x m = .ok a m' → P a

namespace Yields

variable {P : α → Prop} {Q : β → Prop} {x : Eval α} {k : α → Eval β}

theorem pure {a : α} (h : P a) : Yields P (Pure.pure a) := by
  intro m b m' heq
  obtain ⟨rfl, -⟩ := EStateM.Result.ok.inj heq
  exact h

theorem bind (h : ∀ m a m', x m = .ok a m' → Yields Q (k a)) : Yields Q (x >>= k) := by
  intro m b m' heq
  cases hx : x m with
  | ok a m₁ =>
    rw [bind_ok hx] at heq
    exact h m a m₁ hx _ _ _ heq
  | error e m₁ =>
    rw [bind_error hx] at heq
    cases heq

theorem inFrame (h : Yields P x) (g : FrameId) : Yields P (inFrame g x) := by
  intro m a m' heq
  cases hx : x { m with frame := g } with
  | ok b m₁ =>
    rw [inFrame_ok hx] at heq
    obtain ⟨rfl, -⟩ := EStateM.Result.ok.inj heq
    exact h _ _ _ hx
  | error e m₁ =>
    rw [inFrame_error hx] at heq
    cases heq

theorem raise (token : Token) (fault : RuntimeFault) : Yields P (Eval.raise token fault) := by
  intro m a m' heq
  cases heq

end Yields

/-- A call yields what the step in it does, one level deeper. -/
theorem ok_of_asCall {x : Eval α} {m m' : Machine} {a : α} (h : asCall x m = .ok a m') :
    ∃ m₁, x { m with depth := m.depth + 1 } = .ok a m₁ := by
  unfold asCall at h
  split at h
  · next m₁ heq =>
    obtain ⟨rfl, -⟩ := EStateM.Result.ok.inj h
    exact ⟨m₁, heq⟩
  · cases h

end Eval

namespace Evaluation

open Eval

/-- The step, if it succeeds, does not leave the function. -/
abbrev Proceeds (x : Eval Signal) : Prop := Yields (· = .proceed) x

section

variable {self : Interpreter}

theorem execAll_proceeds {ss : List Stmt} (h : ∀ s ∈ ss, Proceeds (self (.stmt s))) :
    Proceeds (execAll self ss) := by
  induction ss with
  | nil => exact .pure rfl
  | cons s ss ih =>
    obtain ⟨hs, hss⟩ := List.forall_mem_cons.1 h
    refine .bind fun m signal m' heq => ?_
    obtain rfl := hs m signal m' heq
    exact ih hss

theorem execProperties_proceeds (ps : List StmtEntry) : Proceeds (execProperties self ps) := by
  induction ps with
  | nil => exact .pure rfl
  | cons entry ps ih =>
    obtain ⟨key, s⟩ := entry
    exact .bind fun _ _ _ _ => ih

/-- A statement that may not return, carried out by an interpreter for which the statements in it
do not. -/
theorem exec_proceeds {s : Stmt} (hs : s.mayReturn = false)
    (hstmt : ∀ s : Stmt, s.mayReturn = false → Proceeds (self (.stmt s)))
    (hloop : ∀ condition (body : Stmt) token, body.mayReturn = false →
      Proceeds (self (.loop condition body token))) : Proceeds (exec self s) := by
  cases s with
  | empty => exact .pure rfl
  | block ss =>
    simp only [Stmt.mayReturn, stmtsMayReturn_eq_any, List.any_eq_false] at hs
    refine .bind fun _ _ _ _ => .bind fun _ g _ _ => .inFrame (execAll_proceeds fun s hmem => ?_) g
    exact hstmt s (Bool.eq_false_iff.2 (hs s hmem))
  | expression | indexAssign | functionDecl | classDecl | «variable» =>
    simp only [exec, execIndexAssign, execFunction, execClass]
    repeat refine .bind fun _ _ _ _ => ?_
    exact .pure rfl
  | cond keyword condition thenBranch elseBranch =>
    simp only [Stmt.mayReturn, Bool.or_eq_false_iff] at hs
    refine .bind fun _ holds _ _ => ?_
    cases holds with
    | true => exact hstmt thenBranch hs.1
    | false =>
      cases elseBranch with
      | none => exact .pure rfl
      | some s =>
        simp only [optionMayReturn] at hs
        exact hstmt s hs.2
  | loop condition body token =>
    simp only [Stmt.mayReturn] at hs
    exact hloop condition body token hs
  | returns => simp only [Stmt.mayReturn, Bool.true_eq_false] at hs
  | object ps => exact execProperties_proceeds ps

end

/-- A statement that may not return does not, and neither does a loop over one. -/
theorem run_proceeds (fuel : Nat) :
    (∀ s : Stmt, s.mayReturn = false → Proceeds (run fuel (.stmt s))) ∧
    ∀ condition (body : Stmt) token, body.mayReturn = false →
      Proceeds (run fuel (.loop condition body token)) := by
  induction fuel with
  | zero =>
    refine ⟨fun s _ m a m' h => ?_, fun _ _ _ _ m a m' h => ?_⟩
    · cases h
    · cases h
  | succ fuel ih =>
    refine ⟨fun s hs => exec_proceeds hs ih.1 ih.2, fun condition body token hbody => ?_⟩
    refine .bind fun _ holds _ _ => ?_
    cases holds with
    | false => exact .pure rfl
    | true =>
      refine .bind fun m signal m' heq => ?_
      obtain rfl := ih.1 body hbody m signal m' heq
      exact ih.2 condition body token hbody

/-- The body of a function that may not return ends without. -/
theorem body_proceeds {ss : List Stmt} (h : stmtsMayReturn ss = false) (fuel : Nat) :
    Proceeds (execAll (run fuel) ss) := by
  rw [stmtsMayReturn_eq_any, List.any_eq_false] at h
  exact execAll_proceeds fun s hs => (run_proceeds fuel).1 s (Bool.eq_false_iff.2 (h s hs))

/-- A call that succeeds has come to the end of what it does. -/
theorem ok_of_callValue {self : Interpreter} {callee v : Value} {site : Token} {args : List Value}
    {m m' : Machine} (h : callValue self callee site args m = .ok v m') :
    ∃ m₁, invoke self callee site args { m with depth := m.depth + 1 } = .ok v m₁ := by
  obtain ⟨-, -, heq⟩ | ⟨-, -, heq⟩ | ⟨-, error, -, heq⟩ := callValue_cases callee site args m
  · rw [heq] at h
    exact ok_of_asCall h
  · rw [heq] at h
    cases h
  · rw [heq] at h
    cases h

/-- Making an instance yields it, with a new record for its fields. -/
theorem instantiate_yields {self : Interpreter} {c : Class} {args : List Value} {m m' : Machine}
    {v : Value} (h : instantiate self c args m = .ok v m') :
    v = .instance ⟨c, m.heap.records.size⟩ := by
  rw [instantiate_eq, bind_ok (x := newRecord []) rfl] at h
  have hconstruct : ∀ i : Instance, Yields (· = .instance i) (construct self i args) := by
    intro i
    unfold construct
    split
    · exact .bind fun _ _ _ _ => .bind fun _ _ _ _ => .pure rfl
    · exact .pure rfl
  split at h
  · exact hconstruct _ _ _ _ h
  · exact Yields.bind (fun _ _ _ _ => .bind fun _ _ _ _ => hconstruct _) _ _ _ h

/-- A constructor yields its instance. -/
theorem runMethod_yields {self : Interpreter} {b : Method} (hb : b.isConstructor = true)
    (args : List Value) : Yields (· = .instance b.receiver) (runMethod self b args) := by
  refine .bind fun _ _ _ _ => ?_
  rw [if_pos hb]
  exact .pure rfl

/-! ### Programs -/

/-- In a program that has passed the analysis, no statement outside functions returns, at the top
level or anywhere below it, and no constructor of a class does, on whatever machine they are
executed.  A call of a class that succeeds yields a new instance of it, whose fields are in a record
that was not there before, and a call of a bound constructor yields the instance it is bound to. -/
theorem returns_confined {D D' : Distances} {program : Program}
    (h : resolve D program = (.ok (), D')) :
    (∀ ctx s, ⟨ctx, .stmt s⟩ ∈ program.places → ¬ctx.InFunction →
      ∀ fuel m v m', run fuel (.stmt s) m ≠ .ok (.returned v) m') ∧
    (∀ s ∈ program, ∀ fuel m v m', run fuel (.stmt s) m ≠ .ok (.returned v) m') ∧
    (∀ ctx c, ⟨ctx, .stmt (.classDecl c)⟩ ∈ program.places → ∀ d ∈ c.methods,
      d.name.lexeme = ClassDecl.constructorName →
      ∀ fuel m v m', execAll (run fuel) d.body m ≠ .ok (.returned v) m') ∧
    (∀ fuel c site args m v m', run fuel (.call (.cls c) site args) m = .ok v m' →
      v = .instance ⟨c, m.heap.records.size⟩) ∧
    ∀ fuel b site args m v m', b.isConstructor = true →
      run fuel (.call (.method b) site args) m = .ok v m' → v = .instance b.receiver := by
  have hpassed := (resolve_records h).2
  have hout : ∀ ctx s, ⟨ctx, .stmt s⟩ ∈ program.places → ¬ctx.InFunction →
      ∀ fuel m v m', run fuel (.stmt s) m ≠ .ok (.returned v) m' := by
    intro ctx s hplace hctx fuel m v m' hrun
    have hs := (hpassed _ hplace).not_mayReturn hctx
    cases (run_proceeds fuel).1 s hs m _ m' hrun
  refine ⟨hout, fun s hs => ?_, ?_, ?_, ?_⟩
  · obtain ⟨ctx, hctx, hplace⟩ := stmtsPlaces_of_mem hs true .top
    refine hout ctx s hplace fun hin => Surroundings.not_inFunction_top ?_
    rwa [Surroundings.InFunction, hctx.regions] at hin
  · intro ctx c hplace d hd hname fuel m v m' hrun
    have hbody := (hpassed _ hplace).constructor_not_mayReturn hd hname
    cases body_proceeds hbody fuel m _ m' hrun
  · intro fuel c site args m v m' hrun
    cases fuel with
    | zero => cases hrun
    | succ fuel =>
      change callValue (run fuel) (.cls c) site args m = .ok v m' at hrun
      obtain ⟨m₁, hinvoke⟩ := ok_of_callValue hrun
      exact instantiate_yields (m := { m with depth := m.depth + 1 }) hinvoke
  · intro fuel b site args m v m' hb hrun
    cases fuel with
    | zero => cases hrun
    | succ fuel =>
      change callValue (run fuel) (.method b) site args m = .ok v m' at hrun
      obtain ⟨m₁, hinvoke⟩ := ok_of_callValue hrun
      exact runMethod_yields hb args _ _ _ hinvoke

/-- The constructor of `class C{constructor(){let f=function(){return}}}`: it is
the function made in it that returns. -/
def functionMaker : FunctionDecl :=
  .mk (.make .name "constructor" 1 9 3 none) []
    [.variable (.make .name "f" 1 27 8 none) .let_ none
      (some (.expression (.function (.make .kwFunction "function" 1 29 10 none)
        (.mk (.make .kwFunction "function" 1 29 10 none) []
          [.returns (.make .kwReturn "return" 1 40 14 none)
            (.expression (.literal .undefinedLit .undefined) (.make .kwReturn "return" 1 40 14 none))]
          none)) (.make .assign "=" 1 28 9 none)))] none

/-- The program that declares a class with that constructor. -/
def functionMakerProgram : Program :=
  [.classDecl (.mk (.make .name "C" 1 7 1 none) [functionMaker] [])]

theorem function_maker_proceeds : (resolve {} functionMakerProgram).1.isOk = true ∧
    (∀ fuel m v m', execAll (run fuel) functionMaker.body m ≠ .ok (.returned v) m') ∧
    ∀ s ∈ functionMakerProgram, ∀ fuel m v m', run fuel (.stmt s) m ≠ .ok (.returned v) m' := by
  have hresolve : ∃ D, resolve {} functionMakerProgram = (.ok (), D) := ⟨_, rfl⟩
  obtain ⟨D, hD⟩ := hresolve
  obtain ⟨-, htop, hconstructors, -⟩ := returns_confined hD
  refine ⟨by rw [hD]; rfl, ?_, htop⟩
  exact hconstructors .top _ (List.mem_append_left _ (Stmt.self_mem_places _ _ _)) functionMaker
    (List.mem_singleton.2 rfl) rfl

end Evaluation

end ScopedScript
