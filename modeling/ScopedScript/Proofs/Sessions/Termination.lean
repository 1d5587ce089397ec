import ScopedScript.Proofs.Evaluation.Returns
import ScopedScript.Proofs.Parsing.Totality
import ScopedScript.Proofs.Printing
import ScopedScript.Proofs.Scanning
import ScopedScript.Proofs.Sessions.CallDepth

/-! # Runs come to an end

A program without loops can still run for long: its functions call each other through values on the
heap, so the text that is evaluated does not get smaller along the way.  But it always comes to an
end, because the number of calls under way is limited, and between two calls the evaluation goes
down the text of one function.

* **Fuel.** An evaluation that has come to an end with some bound does the same with every larger
  one (`run_le`).
* **Measure.** Each task has a *weight*, and the tasks inside it weigh less, as long as it is
  neither a call nor a loop.  A task that the programs of a session lead to weighs at most a constant
  more than the largest node of these programs, so the calls that may still be made, times that
  constant, and the weight of the task together bound the tasks that will be inside one another
  (`ended_of_good`).
* **The rest.** The parser comes to an end on whatever the scanner hands to it, and so does the
  writing and the comparison of values that contain themselves. -/

namespace ScopedScript

/-! ### Programs without loops -/

/-- Is the statement a loop? -/
def Stmt.isLoop : Stmt → Bool
  | .loop _ _ _ => true
  | _ => false

/-- Is the node a loop? -/
def Node.isLoop : Node → Bool
  | .stmt s => s.isLoop
  | .expr _ => false

/-- No statement of the program is a loop.  A `for` loop is a block with a `while` loop inside. -/
def Program.LoopFree (p : Program) : Prop := ∀ q ∈ Program.places p, q.node.isLoop = false

instance (p : Program) : Decidable p.LoopFree :=
  inferInstanceAs (Decidable (∀ q ∈ Program.places p, q.node.isLoop = false))

/-- The size of the tree at a node. -/
noncomputable def Node.size : Node → Nat
  | .expr e => sizeOf e
  | .stmt s => sizeOf s

/-- The nodes of finitely many programs are bounded in size. -/
theorem exists_size_le (programs : List Program) :
    ∃ bound, ∀ p ∈ programs, ∀ q ∈ Program.places p, q.node.size ≤ bound := by
  refine ⟨((programs.flatMap Program.places).map fun q => q.node.size).sum, fun p hp q hq => ?_⟩
  exact List.le_sum_of_mem (List.mem_map_of_mem (List.mem_flatMap_of_mem hp hq))

namespace Evaluation

open Eval

/-! ### More fuel -/

/-- The evaluation has come to an end before its bound was used up. -/
def Ended {α : Type} (r : EStateM.Result Stop Machine α) : Prop := ∀ m, r ≠ .error .outOfFuel m

theorem Composed.stable {Q : {α : Type} → Task α → Prop} {moves watched : Prop}
    {risks : RuntimeFault → Prop} {α : Type} {x : Interpreter → Eval α} {self self' : Interpreter}
    (h : Composed Q moves watched risks x)
    (hself : ∀ {β : Type} (t : Task β) m, Ended (self t m) → self' t m = self t m) {m : Machine}
    (hended : Ended (x @self m)) : x @self' m = x @self m := by
  induction h generalizing m with
  | elementary => rfl
  | task => exact hself _ m hended
  | @bind β γ x k _ _ ihx ihk =>
    dsimp only at hended ⊢
    cases hr : x @self m with
    | ok a m₁ =>
      have hx := ihx (m := m) (by rw [hr]; exact fun _ h => nomatch h)
      rw [bind_ok hr] at hended ⊢
      rw [bind_ok (hx.trans hr)]
      exact ihk a hended
    | error e m₁ =>
      rw [bind_error hr] at hended ⊢
      have hx := ihx (m := m) <| by
        rw [hr]
        intro m₂ heq
        obtain ⟨rfl, -⟩ := EStateM.Result.error.inj heq
        exact hended m₁ rfl
      exact bind_error (hx.trans hr)
  | @inFrame β x g _ _ ih =>
    have hx := ih (m := { m with frame := g }) fun m₁ hr => hended _ (inFrame_error hr)
    simp only [Eval.inFrame, hx]

/-- A step is composed of the tasks inside it, or is so as a call, or refuses its task. -/
theorem step_cases {α : Type} (t : Task α) (m : Machine) :
    (∃ x : Interpreter → Eval α, Composed (fun _ => True) True False (fun _ => True) x ∧
      ((∀ self : Interpreter, step self t m = x self m) ∨
        ∀ self : Interpreter, step self t m = asCall (x self) m)) ∨
    ∃ error, ∀ self : Interpreter, step self t m = .error (.raised error) m := by
  cases hcall : t.isCall with
  | false => exact .inl ⟨_, step_composed t hcall, .inl fun _ => rfl⟩
  | true =>
    cases t with
    | call callee site args =>
      obtain ⟨-, -, heq⟩ | ⟨-, -, heq⟩ | ⟨-, error, -, heq⟩ := callValue_cases callee site args m
      · exact .inl ⟨_, invoke_composed callee site args, .inr heq⟩
      · exact .inr ⟨_, heq⟩
      · exact .inr ⟨error, fun self => heq self m⟩
    | _ => cases hcall

theorem ended_of_asCall {α : Type} {y : Eval α} {m : Machine} (h : Ended (asCall y m)) :
    Ended (y { m with depth := m.depth + 1 }) := fun _ hr => h _ (asCall_error hr)

/-- A step that has come to an end is the same with an interpreter that goes at least as far. -/
theorem step_stable {self self' : Interpreter}
    (hself : ∀ {β : Type} (t : Task β) m, Ended (self t m) → self' t m = self t m) {α : Type}
    (t : Task α) (m : Machine) (h : Ended (step self t m)) : step self' t m = step self t m := by
  obtain ⟨x, hx, hstep | hstep⟩ | ⟨error, hstep⟩ := step_cases t m
  · rw [hstep] at h
    rw [hstep, hstep]
    exact hx.stable hself h
  · rw [hstep] at h
    rw [hstep, hstep]
    simp only [asCall, hx.stable hself (ended_of_asCall h)]
  · rw [hstep, hstep]

/-- One more level of tasks makes no difference to an evaluation that has come to an end. -/
theorem run_succ (fuel : Nat) {α : Type} (t : Task α) (m : Machine) (h : Ended (run fuel t m)) :
    run (fuel + 1) t m = run fuel t m := by
  induction fuel generalizing α m with
  | zero => exact absurd rfl (h m)
  | succ fuel ih => exact step_stable ih t m h

/-- A larger bound makes no difference to an evaluation that has come to an end. -/
theorem run_le {fuel fuel' : Nat} (hle : fuel ≤ fuel') {α : Type} (t : Task α) (m : Machine)
    (h : Ended (run fuel t m)) : run fuel' t m = run fuel t m := by
  induction hle with
  | refl => rfl
  | @step fuel' _ ih => exact (run_succ fuel' t m (ih ▸ h)).trans ih

/-! ### Weights -/

/-- What a task has in it: the size of its tree, with room for calls and reads of properties. -/
noncomputable def Task.weight : {α : Type} → Task α → Nat
  | _, .expr e => sizeOf e + 3
  | _, .stmt s => sizeOf s + 3
  | _, .property target _ => if (wrapperName? target).isSome then 3 else 2
  | _, .call _ _ _ => 1
  | _, .loop _ _ _ => 0

/-- Is the task to go round a loop? -/
def Task.isLoop : {α : Type} → Task α → Bool
  | _, .loop _ _ _ => true
  | _, _ => false

/-- The task is not to go round a loop, and weighs less than the other one. -/
def Lighter (weight : Nat) {α : Type} (t : Task α) : Prop := t.isLoop = false ∧ t.weight < weight

theorem Task.weight_pos {α : Type} {t : Task α} (h : t.isLoop = false) : 0 < t.weight := by
  cases t with
  | loop => cases h
  | property target name =>
    simp only [weight]
    split <;> omega
  | _ => simp only [weight]; omega

/-- A property of a list or string weighs most. -/
theorem Task.property_weight_le (v : Value) (name : Token) : (Task.property v name).weight ≤ 3 := by
  simp only [weight]
  split <;> omega

theorem evalExpr_lighter (e : Expr) :
    Composed (Lighter (Task.expr e).weight) True False (fun _ => True) fun self => evalExpr @self e := by
  have hpos : 0 < sizeOf e := by cases e <;> simp
  refine evalExpr_composed e (fun e' he' => ⟨rfl, ?_⟩) (fun v site args => ⟨rfl, ?_⟩)
    (fun v name => ⟨rfl, ?_⟩) False.elim
  · simp only [Task.weight]
    omega
  · simp only [Task.weight]
    omega
  · refine Nat.lt_of_le_of_lt (Task.property_weight_le v name) ?_
    simp only [Task.weight]
    omega

theorem exec_lighter (s : Stmt) (hs : s.isLoop = false) :
    Composed (Lighter (Task.stmt s).weight) True False (fun _ => True) fun self => exec @self s := by
  refine exec_composed s (fun s' hs' => ⟨rfl, ?_⟩) (fun e he => ⟨rfl, ?_⟩)
    (fun condition body token heq => ?_) (fun _ _ => trivial) False.elim fun _ _ => trivial
  · have hlt := Stmt.sizeOf_part hs'
    simp only [Task.weight]
    omega
  · simp only [Task.weight]
    omega
  · subst heq
    cases hs

/-- A property of anything but a list or string is read at once. -/
theorem property_elementary {v : Value} (hv : wrapperName? v = none) (name : Token)
    (self : Interpreter) : (property self v name).Elementary False fun _ => True := by
  unfold property
  split
  · exact instanceProperty_elementary _ name
  · exact objectProperty_elementary _ name
  · rw [hv]
    exact .raise name (by simp)

/-- What comes after the instance that a list or string is wrapped in has been made. -/
theorem property_wrapped {v : Value} {wrapper : String} (hv : wrapperName? v = some wrapper)
    {m : Machine} (name : Token) (self : Interpreter) :
    property self v name m = match globalClass? m wrapper with
      | none => Eval.raise name (.noWrapper name.lexeme v.typeName wrapper) m
      | some c => (self (.call (.cls c) name [v]) >>= fun w => self (.property w name)) m := by
  have hproperty : property self v name = inspect (globalClass? · wrapper) >>= fun found =>
      match found with
      | none => Eval.raise name (.noWrapper name.lexeme v.typeName wrapper)
      | some c => self (.call (.cls c) name [v]) >>= fun w => self (.property w name) := by
    cases v <;> cases hv <;> rfl
  have hfound : inspect (globalClass? · wrapper) m = .ok (globalClass? m wrapper) m := rfl
  rw [hproperty]
  refine (bind_ok hfound).trans ?_
  cases globalClass? m wrapper <;> rfl

/-! ### The measure -/

section

variable {R : Likeness} {bound : Nat}

/-- The nodes are no loops, and bounded in size. -/
def Bounded (R : Likeness) (bound : Nat) : Prop := ∀ ⦃ctx n n'⦄, R.node ctx n n' →
  n.size ≤ bound ∧ n.isLoop = false

/-- The bound that is enough for a configuration. -/
noncomputable def Config.need (bound : Nat) (c : Config) : Nat :=
  (Machine.maxDepth - c.machine.depth) * (bound + 4) + c.task.weight

theorem Good.weight_le (hR : Bounded R bound) {c : Config} (hc : Good R c)
    (hloop : c.task.isLoop = false) : c.task.weight ≤ bound + 3 := by
  obtain ⟨t', post, m', -, ht⟩ := hc
  obtain ⟨t, m⟩ := c
  cases ht with
  | expr _ he => exact Nat.add_le_add_right (hR he.node).1 3
  | stmt _ hs => exact Nat.add_le_add_right (hR hs.node).1 3
  | property => exact (Task.property_weight_le _ _).trans (Nat.le_add_left 3 bound)
  | call =>
    change 1 ≤ bound + 3
    omega
  | loop => cases hloop

theorem Good.calls {c c' : Config} (hc : Good R c) {fuel : Nat}
    (h : Calls (fun self => step self c.task) (run fuel) c.machine c') : Good R c' := by
  obtain ⟨t', post, m', hm, ht⟩ := hc
  exact good_of_visits (.call h) (fun self => step self t') hm fun hself => hself.step ht

/-- An evaluation that is cut short has called one that is, and that needs less. -/
theorem Good.exists_cut (hR : Bounded R bound) {c : Config} (hc : Good R c)
    (hloop : c.task.isLoop = false) (hdepth : c.machine.depth ≤ Machine.maxDepth) {fuel : Nat}
    {m : Machine} (hcut : step (run fuel) c.task c.machine = .error .outOfFuel m) :
    ∃ c' m', Good R c' ∧ c'.task.isLoop = false ∧ c'.machine.depth ≤ Machine.maxDepth ∧
      c'.need bound < c.need bound ∧ run fuel c'.task c'.machine = .error .outOfFuel m' := by
  have hlighter : ∀ {c' : Config} {m' : Machine}, c.task.isCall = false →
      Lighter c.task.weight c'.task → Calls (fun self => step self c.task) (run fuel) c.machine c' →
      run fuel c'.task c'.machine = .error .outOfFuel m' →
      ∃ c' m', Good R c' ∧ c'.task.isLoop = false ∧ c'.machine.depth ≤ Machine.maxDepth ∧
        c'.need bound < c.need bound ∧ run fuel c'.task c'.machine = .error .outOfFuel m' := by
    intro c' m' hcall hlight hcalls hcut'
    obtain ⟨hdepth', hle⟩ := depth_of_calls_step hdepth hcalls
    refine ⟨c', m', hc.calls hcalls, hlight.1, hle, ?_, hcut'⟩
    rw [hcall] at hdepth'
    have hweight := hlight.2
    unfold Config.need
    rw [hdepth', Bool.toNat_false, Nat.add_zero]
    omega
  obtain ⟨t, m₀⟩ := c
  cases t with
  | expr e =>
    obtain ⟨c', m', hlight, hcalls, hcut'⟩ := (evalExpr_lighter e).exists_calls (by simp) hcut
    exact hlighter rfl hlight hcalls hcut'
  | stmt s =>
    obtain ⟨_, _, hnode⟩ := hc.node rfl
    have hs : s.isLoop = false := (hR hnode).2
    obtain ⟨c', m', hlight, hcalls, hcut'⟩ := (exec_lighter s hs).exists_calls (by simp) hcut
    exact hlighter rfl hlight hcalls hcut'
  | property v name =>
    cases hv : wrapperName? v with
    | none =>
      obtain ⟨_, herror, -⟩ := (property_elementary hv name (run fuel)).fault _ _ _ hcut
      cases herror
    | some wrapper =>
      change property (run fuel) v name m₀ = _ at hcut
      rw [property_wrapped hv] at hcut
      split at hcut
      · cases hcut
      · next cls hcls =>
        cases hmade : run fuel (.call (.cls cls) name [v]) m₀ with
        | error e m₁ =>
          rw [bind_error hmade] at hcut
          obtain ⟨rfl, -⟩ := EStateM.Result.error.inj hcut
          have hcalls : Calls (fun self => step self (.property v name)) (run fuel) m₀
              ⟨.call (.cls cls) name [v], m₀⟩ := by
            intro stop
            obtain ⟨m', hm'⟩ := Calls.task (run fuel) m₀ (.call (.cls cls) name [v]) stop
            refine ⟨m', ?_⟩
            change property _ v name m₀ = _
            rw [property_wrapped hv, hcls]
            exact bind_error hm'
          refine ⟨_, m₁, hc.calls hcalls, rfl, hdepth, ?_, hmade⟩
          simp [Config.need, Task.weight, hv]
        | ok w m₁ =>
          -- the instance has its properties by itself
          rw [bind_ok hmade] at hcut
          cases fuel with
          | zero => cases hmade
          | succ fuel =>
            change callValue (run fuel) (.cls cls) name [v] m₀ = _ at hmade
            obtain ⟨_, hmade⟩ := ok_of_callValue hmade
            obtain rfl := instantiate_yields hmade
            change property (run fuel) (.instance _) name m₁ = _ at hcut
            obtain ⟨_, herror, -⟩ := (property_elementary rfl name (run fuel)).fault _ _ _ hcut
            cases herror
  | call callee site args =>
    change callValue (run fuel) callee site args m₀ = _ at hcut
    obtain ⟨ha, hlt, heq⟩ | ⟨-, -, heq⟩ | ⟨-, error, -, heq⟩ := callValue_cases callee site args m₀
    · rw [heq] at hcut
      obtain ⟨_, hcut⟩ := error_of_asCall hcut
      have hinvoke : Composed (fun t => t.isLoop = false) True False (fun _ => True) fun self =>
          invoke @self callee site args :=
        invoke_composed_of trivial (fun _ => rfl) (fun _ => rfl) (fun _ _ _ => rfl)
          (fun d _ => d.bindable) site args
      obtain ⟨c', m', hloop', hcalls, hcut'⟩ := hinvoke.exists_calls (by simp) hcut
      have hgood := hc.calls (hcalls.callValue ha hlt)
      have hdepth' : c'.machine.depth = m₀.depth + 1 := hinvoke.depth_of_calls hcalls
      refine ⟨c', m', hgood, hloop', hdepth' ▸ hlt, ?_, hcut'⟩
      -- one call less may be made, which is worth more than any task
      have hweight := hgood.weight_le hR hloop'
      have hrest : Machine.maxDepth - m₀.depth = Machine.maxDepth - (m₀.depth + 1) + 1 := by omega
      unfold Config.need
      rw [hdepth', hrest, Nat.succ_mul]
      omega
    · rw [heq] at hcut
      cases hcut
    · rw [heq] at hcut
      cases hcut
  | loop => cases hloop

/-- With as much fuel as a configuration needs, its evaluation comes to an end. -/
theorem ended_of_good (hR : Bounded R bound) {c : Config} (hc : Good R c)
    (hloop : c.task.isLoop = false) (hdepth : c.machine.depth ≤ Machine.maxDepth) {fuel : Nat}
    (hfuel : c.need bound ≤ fuel) : Ended (run fuel c.task c.machine) := by
  induction fuel generalizing c with
  | zero =>
    have hpos := Task.weight_pos hloop
    unfold Config.need at hfuel
    omega
  | succ fuel ih =>
    intro m hcut
    obtain ⟨c', m', hc', hloop', hdepth', hneed, hcut'⟩ := hc.exists_cut hR hloop hdepth hcut
    exact ih hc' hloop' hdepth' (by omega) m' hcut'

end

end Evaluation

/-! ### Sessions -/

namespace Session

open Evaluation

variable {s : Session} {name source : String}

/-- What is scanned ends in an end mark. -/
theorem scanSource_marked {tokens : List Token} {s₁ : Session}
    (h : s.scanSource name source = (.ok tokens, s₁)) : ∃ t ∈ tokens, t.kind = .endMark := by
  obtain ⟨leading, s₂, own, -, hown, rfl⟩ := scanSource_ok (congrArg Prod.fst h)
  obtain ⟨mark, hmem, hmark⟩ := endMark_mem_shift hown leading.length
  exact ⟨mark, List.mem_append_right _ hmem, hmark⟩

/-- Loading a source comes to an end. -/
theorem load_ne_unfinished (s : Session) (name source : String) :
    (s.load name source).1 ≠ .error .unfinished := by
  have hload := load_loaded s name source
  intro heq
  generalize s.load name source = r at hload heq
  cases hload with
  | unfinished hscan hparse hfailure =>
    obtain ⟨e, he⟩ := parseFrom_decides (scanSource_marked hscan) hparse
    exact hfailure e he
  | scan | parse | scope | accepted => cases heq

/-- The programs of a likeness bound its nodes. -/
theorem bounded_ofPrograms {programs : List Program} {bound : Nat} {D : Distances}
    (hfree : ∀ p ∈ programs, Program.LoopFree p)
    (hbound : ∀ p ∈ programs, ∀ q ∈ Program.places p, q.node.size ≤ bound) :
    Bounded (.ofPrograms programs D) bound := by
  rintro ctx n n' ⟨⟨p, hp, hplace⟩, -, -⟩
  exact ⟨hbound p hp _ hplace, hfree p hp _ hplace⟩

/-- A program without loops comes to an end in a session that has run no loops. -/
theorem Sound.execute_ends {programs : List Program} (h : s.Sound programs)
    (hdepth : s.machine.depth = 0) (hfree : ∀ p ∈ programs, Program.LoopFree p) {program : Program}
    (hp : stmtsAlike (Likeness.ofPrograms programs s.machine.distances).toTreeLikeness true .top
      program program) :
    ∃ bound outcome s₁, outcome ≠ .unfinished ∧
      ∀ fuel, bound ≤ fuel → s.execute fuel program = (outcome, s₁) := by
  obtain ⟨bound, hbound⟩ := exists_size_le programs
  have hR := bounded_ofPrograms (D := s.machine.distances) hfree hbound
  have hcomposed : Composed (fun t => t.isLoop = false) True False (fun _ => True) fun self =>
      runProgram @self program .undefined :=
    runProgram_composed_of (fun _ => rfl) (fun _ => rfl) program .undefined
  -- enough for all calls that may be under way, and for one more task
  obtain ⟨enough, henough⟩ : ∃ n, n = Machine.maxDepth * (bound + 4) + (bound + 3) := ⟨_, rfl⟩
  have hended : Ended (runProgram (Evaluation.run enough) program .undefined s.machine) := by
    intro m hcut
    obtain ⟨c, m', hloop, hcalls, hcut'⟩ := hcomposed.exists_calls (by simp) hcut
    have hgood : Good (.ofPrograms programs s.machine.distances) c :=
      good_of_visits (.call hcalls) (fun self => runProgram self program .undefined) h.machine
        fun hself => hself.runProgram (fun _ => h.aligned) Surroundings.not_inFunction_top hp
          .undefined
    have hzero : c.machine.depth = 0 := (hcomposed.depth_of_calls hcalls).trans hdepth
    have hneed : c.need bound ≤ enough := by
      have hweight := hgood.weight_le hR hloop
      rw [henough]
      unfold Config.need
      rw [hzero, Nat.sub_zero]
      omega
    exact ended_of_good hR hgood hloop (hzero ▸ Nat.zero_le _) hneed m' hcut'
  refine ⟨enough, (s.execute enough program).1, (s.execute enough program).2, ?_, fun fuel hle => ?_⟩
  · unfold Session.execute
    split
    · simp
    · simp
    · next m hcut => exact absurd hcut (hended m)
  · have hsame := hcomposed.stable (fun t m ht => run_le hle t m ht) hended
    unfold Session.execute
    rw [hsame]

/-- In a session without the prelude, in which no program has a loop, every run comes to an end: from
some bound on it has one and the same result, which is a value or an error.  So does the writing and
the comparison of values, whatever is on the heap. -/
theorem loop_free_runs_end (input : List UInt8) (limit : Option Nat) (clock : Clock)
    (history : List Action) (name source : String)
    (hfree : ∀ p ∈ (start false input limit clock).programs history ++
      loaded (((start false input limit clock).after history).load name source).1,
      Program.LoopFree p) :
    (∃ bound outcome s, outcome ≠ .unfinished ∧ ∀ fuel, bound ≤ fuel →
      ((start false input limit clock).after history).run fuel name source = (outcome, s)) ∧
    (∀ (h : Heap) (v : Value), Value.Printing h [] v (v.text h)) ∧
    ∀ (h : Heap) (v w : Value), Value.Comparison h [] v w (v.equal h w) := by
  refine ⟨?_, Value.printing_text, Value.comparison_equal⟩
  have hsound := sound_after false input limit clock history
  have hdepth : ((start false input limit clock).after history).machine.depth = 0 :=
    (after_stays _ history).2
  generalize (start false input limit clock).programs history = programs at hfree hsound
  generalize (start false input limit clock).after history = s at hfree hsound hdepth
  have hfinished := s.load_ne_unfinished name source
  have hloaded := hsound.load name source
  have hstays := s.load_stays name source
  unfold Session.run
  cases hload : s.load name source with
  | mk r s₁ =>
    rw [hload] at hfree hfinished hloaded hstays
    cases r with
    | error outcome =>
      exact ⟨0, outcome, s₁, fun heq => hfinished (congrArg Except.error heq), fun _ _ => rfl⟩
    | ok program =>
      exact hloaded.execute_ends (hstays.2.trans hdepth) hfree (hsound.accepted_alike hload)

/-- A function that calls itself without end comes to one: the stack overflows. -/
theorem endless_recursion_ends : ∃ bound outcome s, outcome ≠ .unfinished ∧
    ∀ fuel, bound ≤ fuel → ((start false [] none (.still 0)).after []).run fuel "main"
      "function f()\x7bf()\x7d\nf()" = (outcome, s) := by
  obtain ⟨s, hload⟩ := endlessRecursion_loaded
  refine (loop_free_runs_end [] none (.still 0) [] "main" _ fun p hp => ?_).1
  rw [hload] at hp
  obtain rfl := List.mem_singleton.1 hp
  decide

end Session

end ScopedScript
