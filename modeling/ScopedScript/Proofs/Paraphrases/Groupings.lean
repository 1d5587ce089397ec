import ScopedScript.Proofs.Paraphrases.Tasks
import ScopedScript.Proofs.Sessions.Termination

/-! # Groupings cost nothing

An evaluation spends a level of tasks on each grouping.  `runBare` is the interpreter that does not:
it looks through groupings before each step.  With the same bound it is in step with itself on trees
that say the same (`corresponding_runBare`).

It comes to the same as `run`: what `run` finishes with some bound, it finishes with that bound
(`runBare_of_run`), and what it finishes, `run` finishes with some larger one
(`exists_run_of_runBare`).  So programs that say the same are run alike (`runProgram_paraphrase`). -/

namespace ScopedScript

namespace Evaluation

open Eval

/-- The task without the groupings around its expression. -/
def Task.bare : {α : Type} → Task α → Task α
  | _, .expr e => .expr e.bare
  | _, .property target name => .property target name
  | _, .call callee site args => .call callee site args
  | _, .stmt s => .stmt s
  | _, .loop condition body token => .loop condition body token

/-- Carries out a task, and counts no groupings. -/
def runBare : Nat → Interpreter
  | 0, _, _ => throw .outOfFuel
  | fuel + 1, _, t => step (runBare fuel) t.bare

theorem corresponding_runBare (link : NodeId → NodeId → Prop) (fuel : Nat) :
    Corresponding link (runBare fuel) (runBare fuel) := by
  induction fuel with
  | zero => exact fun _ => .outOfFuel
  | succ fuel ih =>
    intro α t t' post h
    cases h with
    | expr he => exact Corresponding.evalExpr ih _ he
    | property hv ht => exact Corresponding.property ih hv ht
    | call hv ht hvs => exact Corresponding.callValue ih ht hv hvs
    | stmt hs => exact Corresponding.exec ih hs
    | loop he hs ht => exact Corresponding.execLoop ih he hs ht

/-! ### What one finishes, the other finishes -/

section

variable {α : Type} {m : Machine}

theorem runBare_succ (fuel : Nat) (t : Task α) (m : Machine) (h : Ended (runBare fuel t m)) :
    runBare (fuel + 1) t m = runBare fuel t m := by
  induction fuel generalizing α m with
  | zero => exact absurd rfl (h m)
  | succ fuel ih => exact step_stable ih t.bare m h

/-- A step on a task is the same as on the task without its groupings. -/
theorem step_runBare (fuel : Nat) (t : Task α) (h : Ended (step (runBare fuel) t m)) :
    step (runBare fuel) t.bare m = step (runBare fuel) t m := by
  cases t with
  | expr e =>
    cases e with
    | grouping inner =>
      cases fuel with
      | zero => exact absurd rfl (h m)
      | succ fuel => exact runBare_succ (fuel + 1) (.expr inner) m h
    | _ => rfl
  | _ => rfl

/-- What has come to an end counting groupings does so with the same bound without. -/
theorem runBare_of_run (fuel : Nat) (t : Task α) (m : Machine) (h : Ended (run fuel t m)) :
    runBare fuel t m = run fuel t m := by
  induction fuel generalizing α m with
  | zero => rfl
  | succ fuel ih =>
    have hstep : step (runBare fuel) t m = step (run fuel) t m := step_stable ih t m h
    exact (step_runBare fuel t (hstep ▸ h)).trans hstep

end

/-! ### With a larger bound -/

section

variable {self : Interpreter}
  (hself : ∀ {β : Type} (t : Task β) m, Ended (self t m) → ∃ fuel, run fuel t m = self t m)

include hself

/-- If each task that ends can be run to that end, so can what is composed of such tasks. -/
theorem Composed.reached {Q : {α : Type} → Task α → Prop} {moves watched : Prop}
    {risks : RuntimeFault → Prop} {α : Type} {x : Interpreter → Eval α}
    (h : Composed Q moves watched risks x) {m : Machine} (hended : Ended (x @self m)) :
    ∃ fuel, x (run fuel) m = x @self m := by
  induction h generalizing m with
  | elementary => exact ⟨0, rfl⟩
  | task => exact hself _ m hended
  | @bind β γ x k hx hk ihx ihk =>
    dsimp only at hended ⊢
    cases hr : x @self m with
    | error e m₁ =>
      rw [bind_error hr] at hended ⊢
      have hended' : Ended (x @self m) := by
        rw [hr]
        intro m₂ heq
        obtain ⟨rfl, -⟩ := EStateM.Result.error.inj heq
        exact hended m₁ rfl
      obtain ⟨fuel, hfuel⟩ := ihx hended'
      exact ⟨fuel, bind_error (hfuel.trans hr)⟩
    | ok a m₁ =>
      have hended' : Ended (x @self m) := by
        rw [hr]
        exact fun _ h => nomatch h
      rw [bind_ok hr] at hended ⊢
      obtain ⟨fuel, hfuel⟩ := ihx hended'
      obtain ⟨fuel', hfuel'⟩ := ihk a hended
      dsimp only at hfuel'
      -- with the larger of the two bounds both parts are what they were
      have hfirst := hx.stable (run_le (Nat.le_max_left fuel fuel')) (hfuel ▸ hended')
      have hrest := (hk a).stable (run_le (Nat.le_max_right fuel fuel')) (hfuel' ▸ hended)
      exact ⟨max fuel fuel', (bind_ok (hfirst.trans (hfuel.trans hr))).trans (hrest.trans hfuel')⟩
  | @inFrame β x g _ _ ih =>
    obtain ⟨fuel, hfuel⟩ := ih (m := { m with frame := g })
      fun m₁ hr => hended _ (inFrame_error hr)
    exact ⟨fuel, by simp only [Eval.inFrame, hfuel]⟩

theorem step_reached {α : Type} (t : Task α) (m : Machine) (h : Ended (step self t m)) :
    ∃ fuel, step (run fuel) t m = step self t m := by
  obtain ⟨x, hx, hstep | hstep⟩ | ⟨error, hstep⟩ := step_cases t m
  · rw [hstep] at h
    simp only [hstep]
    exact hx.reached hself h
  · rw [hstep] at h
    obtain ⟨fuel, hfuel⟩ := hx.reached hself (ended_of_asCall h)
    exact ⟨fuel, by simp only [hstep, asCall, hfuel]⟩
  · exact ⟨0, by rw [hstep, hstep]⟩

end

section

/-- Groupings around an expression need a larger bound, and make no other difference. -/
theorem exists_run_of_bare (fuel : Nat) (m : Machine) (e : Expr) :
    ∃ fuel', run fuel' (.expr e) m = run fuel (.expr e.bare) m := by
  cases e with
  | grouping inner =>
    obtain ⟨fuel', h⟩ := exists_run_of_bare fuel m inner
    exact ⟨fuel' + 1, h⟩
  | _ => exact ⟨fuel, rfl⟩
termination_by structural e

/-- What has come to an end without counting groupings does so counting them, with some bound. -/
theorem exists_run_of_runBare (fuel : Nat) {α : Type} (t : Task α) (m : Machine)
    (h : Ended (runBare fuel t m)) : ∃ fuel', run fuel' t m = runBare fuel t m := by
  induction fuel generalizing α m with
  | zero => exact absurd rfl (h m)
  | succ fuel ih =>
    obtain ⟨k, hk⟩ := step_reached (fun t' m' h' => ih t' m' h') t.bare m h
    cases t with
    | expr e =>
      obtain ⟨k', hk'⟩ := exists_run_of_bare (k + 1) m e
      exact ⟨k', hk'.trans hk⟩
    | property | call | stmt | loop => exact ⟨k + 1, hk⟩

end

/-! ### Evaluations that end alike -/

section

variable {link : NodeId → NodeId → Prop} {α : Type} {post : α → α → Prop}

/-- Results that correspond are both results of evaluations that have come to an end, or neither. -/
theorem ended_iff_of_agreed {r r' : EStateM.Result Stop Machine α} (h : Agreed link post r r') :
    Ended r' ↔ Ended r := by
  cases h with
  | ok => exact ⟨fun _ _ h => (nomatch h), fun _ _ h => (nomatch h)⟩
  | @error e e' m m' _ he =>
    cases he with
    | raised => exact ⟨fun _ _ h => (nomatch h), fun _ _ h => (nomatch h)⟩
    | outOfFuel => exact ⟨fun h => absurd rfl (h m'), fun h => absurd rfl (h m)⟩

/-- What one of two evaluations finishes with some bound, so does the other, with results that
correspond. -/
structure EndAlike (link : NodeId → NodeId → Prop) (post : α → α → Prop)
    (r r' : Nat → EStateM.Result Stop Machine α) : Prop where
  second : ∀ fuel, Ended (r fuel) → ∃ fuel', Agreed link post (r fuel) (r' fuel')
  first : ∀ fuel', Ended (r' fuel') → ∃ fuel, Agreed link post (r fuel) (r' fuel')

/-- Two evaluations in step, when no groupings are counted, end alike when they are. -/
theorem endAlike_of_inStep {x x' : Interpreter → Eval α} {Q : {β : Type} → Task β → Prop}
    {moves watched : Prop} {risks : RuntimeFault → Prop} (hx : Composed Q moves watched risks x)
    (hx' : Composed Q moves watched risks x')
    (h : ∀ fuel, InStep link (x (runBare fuel)) (x' (runBare fuel)) post) {m m' : Machine}
    (hm : m.Matches link m') :
    EndAlike link post (fun fuel => x (run fuel) m) fun fuel => x' (run fuel) m' := by
  refine ⟨fun fuel hended => ?_, fun fuel hended => ?_⟩
  · have hbare := hx.stable (runBare_of_run fuel) hended
    have hagreed := h fuel hm
    rw [hbare] at hagreed
    obtain ⟨fuel', hfuel'⟩ := hx'.reached (fun t m => exists_run_of_runBare fuel t m)
      ((ended_iff_of_agreed hagreed).2 hended)
    exact ⟨fuel', hfuel' ▸ hagreed⟩
  · have hbare := hx'.stable (runBare_of_run fuel) hended
    have hagreed := h fuel hm
    rw [hbare] at hagreed
    obtain ⟨fuel', hfuel'⟩ := hx.reached (fun t m => exists_run_of_runBare fuel t m)
      ((ended_iff_of_agreed hagreed).1 hended)
    exact ⟨fuel', hfuel' ▸ hagreed⟩

/-- Programs that say the same are run alike. -/
theorem runProgram_paraphrase {p p' : Program} (hp : stmtsParaphrase link p p') {v v' : Value}
    (hv : v.Matches link v') {m m' : Machine} (hm : m.Matches link m') :
    EndAlike link (Value.Matches link) (fun fuel => runProgram (run fuel) p v m)
      fun fuel => runProgram (run fuel) p' v' m' :=
  endAlike_of_inStep (runProgram_composed p v) (runProgram_composed p' v')
    (fun fuel =>
      Corresponding.runProgram (corresponding_runBare link fuel) (stmtsParaphrase_iff.1 hp) hv) hm

/-- Expressions that say the same have values that correspond. -/
theorem evaluation_paraphrase {e e' : Expr} (he : e.Paraphrases link e') {m m' : Machine}
    (hm : m.Matches link m') :
    EndAlike link (Value.Matches link) (fun fuel => run fuel (.expr e) m)
      fun fuel => run fuel (.expr e') m' :=
  have hcomposed (d : Expr) : Composed (fun _ => True) True False (fun _ => True)
      fun self => self (.expr d) := .task trivial
  endAlike_of_inStep (hcomposed e) (hcomposed e')
    (fun fuel => corresponding_runBare link fuel (.expr he)) hm

end

end Evaluation

end ScopedScript
