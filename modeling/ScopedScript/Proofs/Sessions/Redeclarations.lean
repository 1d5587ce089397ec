import Mathlib
import ScopedScript.Proofs.Evaluation.Redeclaration
import ScopedScript.Proofs.Sessions.Histories

/-! # Where a name can be declared again

The scope analysis makes sure that no block and no function declares a name twice, so of the
faults about declarations one is left: a declaration that is executed again in the same frame.
Among the globals that is a declaration of a name that an earlier program has declared.  Elsewhere
only the body of a loop is executed again, and only the names that it declares itself, outside any
block of its own, can meet themselves (`Session.redeclared_globally_or_in_loop`).  Parameters never
do.

That a loop can do so is a gap in the analysis: `{while(true)let x=true}` is accepted and fails in
the second turn (`Session.redeclared_in_loop`), although the same declaration in braces would be a
new variable each time. -/

namespace ScopedScript

open Evaluation

/-! ### Regions -/

section

variable {programs : List Program} {D : Distances} {ctx : Surroundings}

theorem Parameter.map_name_eq {L : TreeLikeness} (hspelled : L.spelled) {ps ps' : List Parameter}
    (h : List.Forall₂ (Parameter.Alike L) ps ps') :
    ps.map Parameter.name = ps.map fun p => p.left.lexeme := by
  induction h with
  | nil => rfl
  | cons hp _ ih => rw [List.map_cons, List.map_cons, hp.spelled hspelled, ih]

/-- A function that the analysis has passed declares no name twice. -/
theorem FunctionDecl.Alike.declared_nodup {d d' : FunctionDecl}
    (h : d.Alike (Likeness.ofPrograms programs D).toTreeLikeness ctx d') :
    (Region.function d).declared.Nodup := by
  have hparams := Parameter.map_name_eq trivial h.params
  obtain ⟨name, params, body, result⟩ := d
  obtain ⟨name', params', body', result', rfl, _, _, _, hnodup, _⟩ := h
  have hnames : (Region.function (.mk name params body result)).declared =
      (Region.function (.mk name params body result)).binders.map Binder.name := by
    simp only [Region.declared, Region.binders, List.map_append, List.map_map]
    rw [hparams]
    rfl
  rw [hnames]
  exact hnodup

theorem methods_declared_nodup {ms ms' : List FunctionDecl}
    (h : methodsAlike (Likeness.ofPrograms programs D).toTreeLikeness ctx ms ms') :
    ∀ d ∈ ms, (Region.function d).declared.Nodup := by
  have hrows := methodsAlike_iff.1 h
  clear h
  induction hrows with
  | nil => simp
  | cons hm _ ih => exact List.forall_mem_cons.2 ⟨hm.declared_nodup, ih⟩

theorem ClassDecl.Alike.methods_nodup {c c' : ClassDecl}
    (h : c.Alike (Likeness.ofPrograms programs D).toTreeLikeness ctx c') :
    ∀ d ∈ c.methods, (Region.function d).declared.Nodup := by
  obtain ⟨name, methods, fields⟩ := c
  obtain ⟨name', methods', fields', rfl, _, _, hmethods⟩ := h
  exact methods_declared_nodup hmethods

theorem Value.Alike.functions_nodup {fr : Array Frame} {v v' : Value}
    (h : v.Alike (.ofPrograms programs D) fr v') :
    ∀ d ∈ v.functions, (Region.function d).declared.Nodup := by
  cases h with
  | function hk =>
    obtain ⟨ctx, -, hd⟩ := hk.declaration
    exact List.forall_mem_singleton.2 hd.declared_nodup
  | method hb =>
    obtain ⟨ctx, -, hd⟩ := hb.declaration
    exact List.forall_mem_singleton.2 hd.declared_nodup
  | cls hk =>
    obtain ⟨ctx, -, hd⟩ := hk.declaration
    exact hd.methods_nodup
  | _ => exact fun d hd => by cases hd

/-- Whatever region is entered declares no name twice. -/
theorem Evaluation.Good.regions_nodup {c : Config} (h : Good (.ofPrograms programs D) c) :
    ∀ r ∈ c.task.regions, r.declared.Nodup := by
  have hplaced := fun n => h.placed (n := n)
  obtain ⟨t', post, m', -, ht⟩ := h
  obtain ⟨task, machine⟩ := c
  cases ht with
  | call hv _ _ =>
    intro r hr
    obtain ⟨d, hd, rfl⟩ := List.mem_map.1 hr
    exact hv.functions_nodup d hd
  | @stmt _ _ s _ _ _ =>
    cases s with
    | block ss =>
      obtain ⟨ctx, n', hnode, -⟩ := hplaced _ rfl
      exact List.forall_mem_singleton.2 hnode.2.1.block
    | _ => exact fun r hr => by cases hr
  | _ => exact fun r hr => by cases hr

end

/-! ### Faults about declarations -/

namespace Session

/-- The statements of a program declare their names among the globals. -/
theorem Sound.admitted_of_calls {programs : List Program} {s : Session} (h : s.Sound programs)
    {program : Program} {fuel : Nat} {c : Config}
    (hc : Calls (fun self => runProgram @self program .undefined) (Evaluation.run fuel) s.machine c) :
    c.Admitted := by
  have hprogram : Composed (fun _ => True) False False (fun _ => False)
      fun self => runProgram @self program .undefined :=
    runProgram_composed_of (fun _ => trivial) (fun _ => trivial) program .undefined
  obtain ⟨-, hframe⟩ := hprogram.where_called (run_stays fuel) hc
  exact .globals ((hframe id).trans h.frame)

theorem execute_failed {s : Session} {fuel : Nat} {program : Program} {error : RuntimeError}
    (h : (s.execute fuel program).1 = .failed (.runtime error)) :
    ∃ m, runProgram (Evaluation.run fuel) program .undefined s.machine =
      .error (.raised error) m := by
  unfold execute at h
  split at h
  · cases h
  · next m hrun =>
    obtain rfl := Error.runtime.inj (Outcome.failed.inj h)
    exact ⟨m, hrun⟩
  · cases h

section

variable (prelude : Bool) (input : List UInt8) (limit : Option Nat) (clock : Clock)

/-- Whatever a session has done before, a run that stops because a name is declared already stops
at a statement that declares a variable, function or class, never at a parameter.  The frame that
the name is to be declared in is that of the globals, or one of a region in which the body of a loop
declares the name. -/
theorem redeclared_globally_or_in_loop (history : List Action) {name source : String}
    {program : Program} {s : Session}
    (hload : ((start prelude input limit clock).after history).load name source = (.ok program, s))
    {fuel : Nat} {error : RuntimeError}
    (hfail : (s.execute fuel program).1 = .failed (.runtime error))
    (hfault : error.fault.IsRedeclaration) :
    ∃ d m, Visits fuel (fun self => runProgram self program .undefined) s.machine ⟨.stmt d, m⟩ ∧
      d.Redeclares m error ∧
      (m.frame = Machine.globalFrame ∨ ∃ frame, m.frames[m.frame]? = some frame ∧
        error.token.lexeme ∈ frame.region.repeats) := by
  have hsound := sound_after prelude input limit clock history
  have hloaded := hsound.load name source
  rw [hload] at hloaded
  have hgood : ∀ c, Visits fuel (fun self => runProgram self program .undefined) s.machine c →
      Good _ c := fun c hv => hloaded.good (hsound.accepted_alike hload) hv
  have hregions := fun c hv => (hgood c hv).regions_nodup
  have hprogram : Composed (fun _ => True) False False (fun _ => False)
      fun self => runProgram @self program .undefined :=
    runProgram_composed_of (fun _ => trivial) (fun _ => trivial) program .undefined
  obtain ⟨m', hrun⟩ := execute_failed hfail
  obtain ⟨d, m, hv, hd⟩ := hprogram.visits_redeclaration hfault hregions hrun
  refine ⟨d, m, hv, hd, ?_⟩
  obtain ⟨rest, hdeclared, m₁, hframe, hgrows, hadds, hhas⟩ := hd.bound
  have hadmitted : Machine.Admits m d.declared d.repeats :=
    admitted_of_visits (fun _ _ hc => hloaded.admitted_of_calls hc) hregions hv
  rw [hdeclared] at hadmitted
  generalize hrepeats : d.repeats = repeated at hadmitted
  cases hadmitted with
  | globals hglobal => exact .inl hglobal
  | @region _ _ frame hregion hnodup _ hbound =>
    refine .inr ⟨frame, hregion, ?_⟩
    -- while the initialiser was evaluated, the frame has got other names at most
    obtain ⟨frame₁, hregion₁, -, -, -⟩ := hgrows _ _ hregion
    rw [hframe, Machine.vars, hregion₁] at hhas
    rcases hadds _ _ _ hregion hregion₁ _ hhas with hold | ⟨-, hrest⟩
    · exact hbound _ List.mem_cons_self hold
    · exact absurd hrest (List.nodup_cons.1 hnodup).1

end

/-- The body of the loop in `redeclaring`. -/
def redeclaration : Stmt :=
  .variable (.make .name "x" 1 17 6 none) .let_ none
    (some (.expression (.literal .trueLit (.bool true)) (.make .assign "=" 1 18 7 none)))

/-- The statements of a block with a loop that declares a variable in every turn. -/
def redeclaring : List Stmt :=
  [.loop (.literal .trueLit (.bool true)) redeclaration (.make .kwWhile "while" 1 2 1 none)]

set_option maxRecDepth 100000 in
theorem redeclaring_spelled : ∃ tokens,
    tokenizeFrom 1 "\x7bwhile(true)let x=true\x7d" = .ok tokens ∧
    parseFrom 0 tokens = .ok ([.block redeclaring], 0) :=
  ⟨_, by cbv, by cbv⟩

/-- The second turn finds the variable of the first one. -/
theorem redeclaring_fails :
    ((start false [] none (.still 0)).execute 6 [.block redeclaring]).1 =
      .failed (.runtime ⟨.alreadyDeclared "x", .make .name "x" 1 17 6 none⟩) := rfl

/-- The analysis accepts a loop whose body is a declaration, which fails in the second turn.  The
frame in which it does so is that of the block. -/
theorem redeclared_in_loop : ∃ s,
    (start false [] none (.still 0)).load "main" "\x7bwhile(true)let x=true\x7d" =
      (.ok [.block redeclaring], s) ∧
    (s.execute 6 [.block redeclaring]).1 =
      .failed (.runtime ⟨.alreadyDeclared "x", .make .name "x" 1 17 6 none⟩) ∧
    ∃ d m, Visits 6 (fun self => runProgram self [.block redeclaring] .undefined) s.machine
        ⟨.stmt d, m⟩ ∧
      d.Redeclares m ⟨.alreadyDeclared "x", .make .name "x" 1 17 6 none⟩ ∧
      (m.frame = Machine.globalFrame ∨ ∃ frame, m.frames[m.frame]? = some frame ∧
        "x" ∈ frame.region.repeats) := by
  obtain ⟨tokens, htokens, hparse⟩ := redeclaring_spelled
  obtain ⟨s, hload, hmachine⟩ :=
    load_of_ready (s := start false [] none (.still 0)) rfl "main" htokens
    hparse rfl
  have hfail : (s.execute 6 [.block redeclaring]).1 =
      .failed (.runtime ⟨.alreadyDeclared "x", .make .name "x" 1 17 6 none⟩) := by
    unfold execute
    rw [hmachine]
    exact redeclaring_fails
  exact ⟨s, hload, hfail, redeclared_globally_or_in_loop false [] none (.still 0) [] hload hfail trivial⟩

end Session

end ScopedScript
