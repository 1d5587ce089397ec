import ScopedScript.Proofs.Places

/-! # Frames and the regions they were made for

Frames are only ever added, and a frame keeps its region, the frame around it and its variables;
`Grows` says so of two stages of a machine.  `Adds` bounds the variables that they get.

A frame is *aligned* with surroundings if, going outwards from it, one meets a frame for each of
the regions that surround the place, in order and ending with the globals, and if each of these
frames has the variables that the surroundings say are settled.  Alignment survives growth, so it
is also true later of the frame that a function was made in (`Aligned.grow`).  The distance that
the surroundings give a name leads from an aligned frame to the frame of the region that declares
the name (`Aligned.outward?`). -/

namespace ScopedScript

/-! ### Records -/

namespace Record

variable {α : Type}

theorem has_set (r : Record α) (name other : String) (value : α) :
    (r.set name value).has other = (other == name || r.has other) := by
  unfold has
  by_cases h : other = name
  · subst h
    simp [get?_set_self]
  · simp [get?_set_of_ne r value h, h]

theorem has_set_self (r : Record α) (name : String) (value : α) :
    (r.set name value).has name = true := by
  rw [has_set]
  simp

theorem has_set_of_has {r : Record α} {other : String} (name : String) (value : α)
    (h : r.has other = true) : (r.set name value).has other = true := by
  rw [has_set, h, Bool.or_true]

end Record

/-! ### Growth -/

/-- Every frame is still there, for the same region and inside the same frame, with at least the
variables it had. -/
def Grows (fr fr' : Array Frame) : Prop :=
  ∀ (f : FrameId) (frame : Frame), fr[f]? = some frame → ∃ frame', fr'[f]? = some frame' ∧
    frame'.region = frame.region ∧ frame'.parent = frame.parent ∧
    ∀ x, frame.vars.has x = true → frame'.vars.has x = true

namespace Grows

variable {fr fr' fr'' : Array Frame}

theorem refl (fr : Array Frame) : Grows fr fr := fun _ frame h =>
  ⟨frame, h, rfl, rfl, fun _ hx => hx⟩

theorem trans (h : Grows fr fr') (h' : Grows fr' fr'') : Grows fr fr'' := by
  intro f frame hf
  obtain ⟨g, hg, hr, hp, hv⟩ := h f frame hf
  obtain ⟨k, hk, hr', hp', hv'⟩ := h' f g hg
  exact ⟨k, hk, hr'.trans hr, hp'.trans hp, fun x hx => hv' x (hv x hx)⟩

theorem push (fr : Array Frame) (frame : Frame) : Grows fr (fr.push frame) := by
  intro f g hf
  have hlt : f < fr.size := (Array.getElem?_eq_some_iff.1 hf).1
  refine ⟨g, ?_, rfl, rfl, fun _ hx => hx⟩
  rw [Array.getElem?_push_lt hlt]
  exact (Array.getElem?_eq_some_iff.1 hf).2 ▸ rfl

theorem setVariable (fr : Array Frame) (f : FrameId) (name : String) (value : Value) :
    Grows fr (fr.modify f fun g => { g with vars := g.vars.set name value }) := by
  intro k g hk
  rw [Array.getElem?_modify]
  by_cases hkf : f = k
  · subst hkf
    rw [if_pos rfl, hk]
    exact ⟨_, rfl, rfl, rfl, fun x hx => Record.has_set_of_has _ _ hx⟩
  · rw [if_neg hkf]
    exact ⟨g, hk, rfl, rfl, fun _ hx => hx⟩

/-- A frame of globals stays one. -/
theorem globals (hg : Grows fr fr')
    (h : ∃ vars, fr[Machine.globalFrame]? = some ⟨.globals, none, vars⟩) :
    ∃ vars, fr'[Machine.globalFrame]? = some ⟨.globals, none, vars⟩ := by
  obtain ⟨vars, hvars⟩ := h
  obtain ⟨⟨_, _, vars'⟩, hf', rfl, rfl, _⟩ := hg _ _ hvars
  exact ⟨vars', hf'⟩

end Grows

/-- No frame that was there has more variables, apart from one of them, which may have more of the
names. -/
def Adds (names : String → Prop) (f : FrameId) (fr fr' : Array Frame) : Prop :=
  ∀ (g : FrameId) (frame frame' : Frame), fr[g]? = some frame → fr'[g]? = some frame' →
    ∀ x, frame'.vars.has x = true → frame.vars.has x = true ∨ g = f ∧ names x

namespace Adds

variable {names names' : String → Prop} {fr fr' fr'' : Array Frame} {f : FrameId}

theorem refl (fr : Array Frame) : Adds names f fr fr := by
  intro g frame frame' hg hg' x hx
  obtain rfl := Option.some.inj (hg.symm.trans hg')
  exact .inl hx

theorem trans (h : Adds names f fr fr') (hg : Grows fr fr') (h' : Adds names f fr' fr'') :
    Adds names f fr fr'' := by
  intro g frame frame'' hfr hfr'' x hx
  obtain ⟨frame', hfr', -, -, -⟩ := hg g frame hfr
  rcases h' g frame' frame'' hfr' hfr'' x hx with hx | hnew
  · exact h g frame frame' hfr hfr' x hx
  · exact .inr hnew

theorem mono (h : Adds names f fr fr') (hnames : ∀ x, names x → names' x) : Adds names' f fr fr' :=
  fun g frame frame' hg hg' x hx => (h g frame frame' hg hg' x hx).imp_right
    fun hnew => ⟨hnew.1, hnames x hnew.2⟩

/-- If no frame has more variables, it does not matter which one might. -/
theorem elsewhere (h : Adds names f fr fr') (hnames : ∀ x, ¬names x) (k : FrameId) :
    Adds names' k fr fr' :=
  fun g frame frame' hg hg' x hx => (h g frame frame' hg hg' x hx).imp_right
    fun hnew => absurd hnew.2 (hnames x)

theorem push (fr : Array Frame) (frame : Frame) : Adds names f fr (fr.push frame) := by
  intro g frame₁ frame₂ hg hg' x hx
  have hlt : g < fr.size := (Array.getElem?_eq_some_iff.1 hg).1
  rw [Array.getElem?_push_lt hlt, ← Array.getElem?_eq_getElem hlt] at hg'
  obtain rfl := Option.some.inj (hg.symm.trans hg')
  exact .inl hx

/-- What is added to a frame that is new does not count. -/
theorem of_push {frame : Frame} (h : Adds names fr.size (fr.push frame) fr') :
    Adds names' f fr fr' := by
  intro g frame₁ frame₂ hg hg' x hx
  have hlt : g < fr.size := (Array.getElem?_eq_some_iff.1 hg).1
  have hpush : (fr.push frame)[g]? = some frame₁ := by
    rw [Array.getElem?_push_lt hlt, ← Array.getElem?_eq_getElem hlt, hg]
  exact (h g frame₁ frame₂ hpush hg' x hx).imp_right
    fun hnew => absurd hnew.1 (Nat.ne_of_lt hlt)

theorem setVariable (fr : Array Frame) {k : FrameId} {name : String} (value : Value)
    (h : (∃ frame, fr[k]? = some frame ∧ frame.vars.has name = true) ∨ k = f ∧ names name) :
    Adds names f fr (fr.modify k fun g => { g with vars := g.vars.set name value }) := by
  intro g frame frame' hg hg' x hx
  rw [Array.getElem?_modify] at hg'
  by_cases hkg : k = g
  · subst hkg
    rw [if_pos rfl, hg] at hg'
    obtain rfl := Option.some.inj hg'
    rw [Record.has_set, Bool.or_eq_true, beq_iff_eq] at hx
    rcases hx with rfl | hx
    · rcases h with ⟨frame₁, hframe₁, hhas⟩ | h
      · obtain rfl := Option.some.inj (hg.symm.trans hframe₁)
        exact .inl hhas
      · exact .inr h
    · exact .inl hx
  · rw [if_neg hkg] at hg'
    obtain rfl := Option.some.inj (hg.symm.trans hg')
    exact .inl hx

end Adds

/-- A frame that has a variable is there. -/
theorem Machine.frame_of_has {m : Machine} {f : FrameId} {x : String}
    (h : (m.vars f).has x = true) : ∃ frame, m.frames[f]? = some frame := by
  unfold Machine.vars at h
  split at h
  · next frame hframe => exact ⟨frame, hframe⟩
  · cases h

/-! ### Where a variable is -/

/-- The frame in which a variable node finds its variable, seen from a frame. -/
def homeFrom (distances : Distances) (fr : Array Frame) (f : FrameId) (id : NodeId) :
    Option FrameId :=
  match distances[id]? with
  | some d => Machine.outward? fr d f
  | none => some Machine.globalFrame

theorem Machine.home?_eq (m : Machine) (id : NodeId) :
    m.home? id = homeFrom m.distances m.frames m.frame id := rfl

/-! ### Alignment -/

/-- The frame and the frames around it stand for the surroundings. -/
inductive Aligned (fr : Array Frame) : FrameId → Surroundings → Prop
  | globals {names : List (String × Standing)} {vars : Record Value} :
      fr[Machine.globalFrame]? = some ⟨.globals, none, vars⟩ →
      (∀ x, (x, .settled) ∈ names → vars.has x = true) →
      Aligned fr Machine.globalFrame [⟨.globals, names⟩]
  | inside {f parent : FrameId} {region : Region} {names : List (String × Standing)}
      {vars : Record Value} {ctx : Surroundings} :
      fr[f]? = some ⟨region, some parent, vars⟩ →
      (∀ x, (x, .settled) ∈ names → vars.has x = true) →
      Aligned fr parent ctx → Aligned fr f (⟨region, names⟩ :: ctx)

namespace Aligned

variable {fr fr' : Array Frame} {f : FrameId} {ctx : Surroundings}

theorem grow (h : Aligned fr f ctx) (hg : Grows fr fr') : Aligned fr' f ctx := by
  induction h with
  | globals hf hv =>
    obtain ⟨⟨_, _, vars'⟩, hf', rfl, rfl, hv'⟩ := hg _ _ hf
    exact .globals hf' fun x hx => hv' x (hv x hx)
  | inside hf hv _ ih =>
    obtain ⟨⟨region', parent', vars'⟩, hf', hr, hp, hv'⟩ := hg _ _ hf
    obtain rfl : region' = _ := hr
    obtain rfl : parent' = some _ := hp
    exact .inside hf' (fun x hx => hv' x (hv x hx)) ih

/-- A name may be added if the frame has it, or if it is not settled. -/
theorem declare (h : Aligned fr f ctx) (name : String) (standing : Standing)
    (hn : standing = .settled → ∀ frame, fr[f]? = some frame → frame.vars.has name = true) :
    Aligned fr f (ctx.declare name standing) := by
  cases h with
  | globals hf hv =>
    refine .globals hf fun x hx => ?_
    rcases List.mem_cons.1 hx with hx | hx
    · obtain ⟨rfl, rfl⟩ := Prod.mk.inj hx
      exact hn rfl _ hf
    · exact hv x hx
  | inside hf hv hp =>
    refine .inside hf (fun x hx => ?_) hp
    rcases List.mem_cons.1 hx with hx | hx
    · obtain ⟨rfl, rfl⟩ := Prod.mk.inj hx
      exact hn rfl _ hf
    · exact hv x hx

/-- Every region is met, and its frame has what is settled in it. -/
theorem outward? (h : Aligned fr f ctx) {d : Nat} {s : Surrounding} (hd : ctx[d]? = some s) :
    ∃ g frame, Machine.outward? fr d f = some g ∧ fr[g]? = some frame ∧
      frame.region = s.region ∧ ∀ x, (x, .settled) ∈ s.names → frame.vars.has x = true := by
  induction h generalizing d with
  | @globals names vars hf hv =>
    obtain ⟨rfl, rfl⟩ : d = 0 ∧ ⟨.globals, names⟩ = s := by
      cases d with
      | zero => exact ⟨rfl, by simpa using hd⟩
      | succ d => simp at hd
    exact ⟨_, _, rfl, hf, rfl, hv⟩
  | @inside f parent region names vars ctx hf hv _ ih =>
    cases d with
    | zero =>
      obtain rfl : ⟨region, names⟩ = s := by simpa using hd
      exact ⟨f, _, rfl, hf, rfl, hv⟩
    | succ d =>
      obtain ⟨g, frame, hg, hrest⟩ := ih (by simpa using hd)
      refine ⟨g, frame, ?_, hrest⟩
      rw [Machine.outward?, hf]
      exact hg

/-- The outermost frame is that of the globals. -/
theorem outward?_last (h : Aligned fr f ctx) :
    Machine.outward? fr (ctx.length - 1) f = some Machine.globalFrame := by
  induction h with
  | globals _ _ => rfl
  | @inside f parent region names vars ctx hf _ hp ih =>
    have hpos : 0 < ctx.length := by cases hp <;> simp
    have hlen : (⟨region, names⟩ :: ctx : Surroundings).length - 1 = (ctx.length - 1) + 1 := by
      simp only [List.length_cons]
      omega
    rw [hlen, Machine.outward?, hf]
    exact ih

/-- Outside the outermost frame there is none. -/
theorem outward?_none (h : Aligned fr f ctx) {d : Nat} (hd : ctx.length ≤ d) :
    Machine.outward? fr d f = none := by
  induction h generalizing d with
  | globals hf _ =>
    cases d with
    | zero => simp at hd
    | succ d => rw [Machine.outward?, hf]
  | inside hf _ _ ih =>
    cases d with
    | zero => simp at hd
    | succ d =>
      rw [Machine.outward?, hf]
      exact ih (by simpa using hd)

theorem introduceParams (h : Aligned fr f ctx) (ps : List Parameter)
    (hps : ∀ p ∈ ps, ∀ frame, fr[f]? = some frame → frame.vars.has p.left.lexeme = true) :
    Aligned fr f (ctx.introduceParams ps) := by
  induction ps generalizing ctx with
  | nil => exact h
  | cons p ps ih =>
    refine ih ?_ fun q hq => hps q (List.mem_cons_of_mem p hq)
    refine (h.declare _ .pending (by simp)).declare _ _ fun _ => hps p List.mem_cons_self

/-- In the frame of a call the parameters are there. -/
theorem enterFunction {d : FunctionDecl} {g : FrameId} {vars : Record Value}
    (h : Aligned fr f ctx) (hg : fr[g]? = some ⟨.function d, some f, vars⟩)
    (hps : ∀ p ∈ d.params, vars.has p.left.lexeme = true) :
    Aligned fr g (ctx.enterFunction d) := by
  have hin : Aligned fr g (⟨.function d, []⟩ :: ctx) := .inside hg (fun x hx => by simp at hx) h
  refine hin.introduceParams _ fun p hp frame hframe => ?_
  obtain rfl := Option.some.inj (hg.symm.trans hframe)
  exact hps p hp

theorem enterBlock {ss : List Stmt} {g : FrameId} {vars : Record Value} (h : Aligned fr f ctx)
    (hg : fr[g]? = some ⟨.block ss, some f, vars⟩) : Aligned fr g (ctx.enterBlock ss) :=
  .inside hg (fun x hx => by simp at hx) h

theorem enterClass {d : ClassDecl} {g : FrameId} {vars : Record Value} (h : Aligned fr f ctx)
    (hg : fr[g]? = some ⟨.receiver d, some f, vars⟩) (hthis : vars.has "this" = true) :
    Aligned fr g (ctx.enterClass d) := by
  refine .inside hg (fun x hx => ?_) h
  obtain rfl : x = "this" := by simpa using hx
  exact hthis

mutual

/-- What may have been skipped asks for nothing. -/
theorem after_unsure {ctx : Surroundings} (h : Aligned fr f ctx) :
    (s : Stmt) → Aligned fr f (s.after false ctx)
  | .variable name _ _ init => by
    simp only [Stmt.after]
    exact (optionAfter_unsure (h.declare _ .pending (by simp)) init).declare _ .skippable (by simp)
  | .functionDecl declaration => by
    simp only [Stmt.after]
    exact (h.declare _ .pending (by simp)).declare _ .skippable (by simp)
  | .classDecl declaration => by
    simp only [Stmt.after]
    exact (h.declare _ .pending (by simp)).declare _ .skippable (by simp)
  | .cond _ _ thenBranch elseBranch => by
    simp only [Stmt.after]
    exact optionAfter_unsure (after_unsure h thenBranch) elseBranch
  | .loop _ body _ => by
    simp only [Stmt.after]
    exact after_unsure h body
  | .returns _ value => by
    simp only [Stmt.after]
    exact after_unsure h value
  | .object properties => by
    simp only [Stmt.after]
    exact propertiesAfter_unsure h properties
  | .empty => by simpa only [Stmt.after] using h
  | .block _ => by simpa only [Stmt.after] using h
  | .expression _ _ => by simpa only [Stmt.after] using h
  | .indexAssign _ _ _ _ => by simpa only [Stmt.after] using h

theorem optionAfter_unsure {ctx : Surroundings} (h : Aligned fr f ctx) :
    (o : Option Stmt) → Aligned fr f (optionAfter false ctx o)
  | none => by simpa only [optionAfter] using h
  | some s => by
    simp only [optionAfter]
    exact after_unsure h s

theorem propertiesAfter_unsure {ctx : Surroundings} (h : Aligned fr f ctx) :
    (ps : List StmtEntry) → Aligned fr f (propertiesAfter false ctx ps)
  | [] => by simpa only [propertiesAfter] using h
  | .mk _ s :: ps => by
    simp only [propertiesAfter]
    exact propertiesAfter_unsure (after_unsure h s) ps

end

theorem top {vars : Record Value}
    (h : fr[Machine.globalFrame]? = some ⟨.globals, none, vars⟩) :
    Aligned fr Machine.globalFrame .top :=
  .globals h fun _ hx => by simp at hx

end Aligned

end ScopedScript
