import ScopedScript.Proofs.Frames

/-! # Receivers

What `this` is, in the text and among the frames.

* A frame around the members of a class *holds* an instance of the class, as the variable `this`
  (`Frame.Holds`).  What such frames hold stays the same as long as nothing declares `this` or
  assigns to it; `Keeps` says so of two stages of a machine, and `Later` that frames have grown
  besides.
* The instance that the first of these frames holds, outwards from a frame, is the one that the
  frame *serves* (`Serves`).
* In the text `this` belongs to the innermost class around a place (`Surroundings.class?`), if no
  other region declares that name (`Surroundings.ThisInClasses`).  From an aligned frame the distance
  of `this` leads to the frame that holds the instance which the aligned frame serves
  (`Aligned.serves`). -/

namespace ScopedScript

/-! ### Instances that frames hold -/

/-- The frame is one around the members of a class, and `this` is an instance of the class. -/
structure Frame.Holds (frame : Frame) (i : Instance) : Prop where
  region : frame.region = .receiver i.cls.declaration
  parent : frame.parent = some i.cls.frame
  this : frame.vars.get? "this" = some (.instance i)

/-- The frame with the number holds the instance. -/
def HeldAt (fr : Array Frame) (f : FrameId) (i : Instance) : Prop :=
  ∃ frame, fr[f]? = some frame ∧ frame.Holds i

/-- A frame that is not one around the members of a class, or holds an instance of the class. -/
def Frame.Proper (frame : Frame) : Prop :=
  ∀ d, frame.region = .receiver d → ∃ i, frame.Holds i

/-- The frame that is made for an instance. -/
theorem Frame.holds_receiver (i : Instance) :
    Frame.Holds ⟨.receiver i.cls.declaration, some i.cls.frame, [("this", .instance i)]⟩ i :=
  ⟨rfl, rfl, by simp [Record.get?_cons]⟩

theorem Frame.Proper.receiver (i : Instance) :
    Frame.Proper ⟨.receiver i.cls.declaration, some i.cls.frame, [("this", .instance i)]⟩ :=
  fun _ _ => ⟨i, Frame.holds_receiver i⟩

/-- All of the frames are proper. -/
def AllProper (fr : Array Frame) : Prop :=
  ∀ (f : FrameId) (frame : Frame), fr[f]? = some frame → frame.Proper

theorem AllProper.push {fr : Array Frame} (h : AllProper fr) {frame : Frame}
    (hframe : frame.Proper) : AllProper (fr.push frame) := by
  intro f g hg
  rw [Array.getElem?_push] at hg
  split at hg
  · obtain rfl := Option.some.inj hg
    exact hframe
  · exact h f g hg

/-- Frames still hold what they held, and all of them are proper if they were. -/
structure Keeps (fr fr' : Array Frame) : Prop where
  held : ∀ f i, HeldAt fr f i → HeldAt fr' f i
  proper : AllProper fr → AllProper fr'

namespace Keeps

variable {fr fr' fr'' : Array Frame}

theorem refl (fr : Array Frame) : Keeps fr fr := ⟨fun _ _ h => h, fun h => h⟩

theorem trans (h : Keeps fr fr') (h' : Keeps fr' fr'') : Keeps fr fr'' :=
  ⟨fun f i hi => h'.held f i (h.held f i hi), fun hp => h'.proper (h.proper hp)⟩

theorem push (fr : Array Frame) {frame : Frame} (hframe : frame.Proper) :
    Keeps fr (fr.push frame) where
  held f i := by
    rintro ⟨g, hg, hi⟩
    have hlt : f < fr.size := (Array.getElem?_eq_some_iff.1 hg).1
    refine ⟨g, ?_, hi⟩
    rw [Array.getElem?_push_lt hlt]
    exact (Array.getElem?_eq_some_iff.1 hg).2 ▸ rfl
  proper h := h.push hframe

/-- A variable may be set, if it is not called `this` or is in another kind of frame. -/
theorem setVariable (fr : Array Frame) {f : FrameId} {name : String} (value : Value)
    (h : name ≠ "this" ∨ ∀ frame, fr[f]? = some frame → ∀ d, frame.region ≠ .receiver d) :
    Keeps fr (fr.modify f fun g => { g with vars := g.vars.set name value }) := by
  have hset : ∀ g, fr[f]? = some g → ∀ i, g.Holds i →
      Frame.Holds { g with vars := g.vars.set name value } i := by
    intro g hg i hi
    refine ⟨hi.region, hi.parent, ?_⟩
    rcases h with hname | hregion
    · exact (Record.get?_set_of_ne _ _ (Ne.symm hname)).trans hi.this
    · exact absurd hi.region (hregion g hg _)
  constructor
  · rintro k i ⟨g, hg, hi⟩
    unfold HeldAt
    rw [Array.getElem?_modify]
    by_cases hkf : f = k
    · subst hkf
      rw [if_pos rfl, hg]
      exact ⟨_, rfl, hset g hg i hi⟩
    · rw [if_neg hkf]
      exact ⟨g, hg, hi⟩
  · intro hproper k g hg
    rw [Array.getElem?_modify] at hg
    split at hg
    · next hfk =>
      subst hfk
      obtain ⟨g₀, hg₀, rfl⟩ := Option.map_eq_some_iff.1 hg
      intro d hd
      obtain ⟨i, hi⟩ := hproper f g₀ hg₀ d hd
      exact ⟨i, hset g₀ hg₀ i hi⟩
    · exact hproper k g hg

end Keeps

/-- A later stage of a machine: frames have been added to, and they go on holding what they held if
that is `watched`. -/
structure Later (watched : Prop) (fr fr' : Array Frame) : Prop where
  frames : Grows fr fr'
  keeps : watched → Keeps fr fr'

namespace Later

variable {watched : Prop} {fr fr' fr'' : Array Frame}

theorem refl (fr : Array Frame) : Later watched fr fr := ⟨.refl fr, fun _ => .refl fr⟩

theorem trans (h : Later watched fr fr') (h' : Later watched fr' fr'') : Later watched fr fr'' :=
  ⟨h.frames.trans h'.frames, fun hw => (h.keeps hw).trans (h'.keeps hw)⟩

theorem push (fr : Array Frame) {frame : Frame} (hframe : watched → frame.Proper) :
    Later watched fr (fr.push frame) :=
  ⟨.push fr frame, fun hw => .push fr (hframe hw)⟩

theorem setVariable (fr : Array Frame) {f : FrameId} {name : String} (value : Value)
    (h : watched → name ≠ "this" ∨
      ∀ frame, fr[f]? = some frame → ∀ d, frame.region ≠ .receiver d) :
    Later watched fr (fr.modify f fun g => { g with vars := g.vars.set name value }) :=
  ⟨.setVariable fr f name value, fun hw => .setVariable fr value (h hw)⟩

end Later

/-- Outwards from the frame, the first one around the members of a class holds the instance. -/
inductive Serves (fr : Array Frame) : FrameId → Instance → Prop
  | here {f : FrameId} {i : Instance} : HeldAt fr f i → Serves fr f i
  | outwards {f parent : FrameId} {region : Region} {vars : Record Value} {i : Instance} :
      fr[f]? = some ⟨region, some parent, vars⟩ → (∀ d, region ≠ .receiver d) →
      Serves fr parent i → Serves fr f i

namespace Serves

variable {fr fr' : Array Frame} {f : FrameId} {i j : Instance}

theorem grow (h : Serves fr f i) (hl : Later True fr fr') : Serves fr' f i := by
  induction h with
  | here hi => exact .here ((hl.keeps trivial).held _ _ hi)
  | outwards hf hr _ ih =>
    obtain ⟨⟨region', parent', vars'⟩, hf', hregion, hparent, _⟩ := hl.frames _ _ hf
    obtain rfl : region' = _ := hregion
    obtain rfl : parent' = some _ := hparent
    exact .outwards hf' hr ih

/-- No frame serves two instances. -/
theorem unique (h : Serves fr f i) (h' : Serves fr f j) : i = j := by
  induction h with
  | here hi =>
    obtain ⟨frame, hframe, hi⟩ := hi
    cases h' with
    | here hj =>
      obtain ⟨frame', hframe', hj⟩ := hj
      obtain rfl := Option.some.inj (hframe.symm.trans hframe')
      exact Value.instance.inj (Option.some.inj (hi.this.symm.trans hj.this))
    | outwards hf hr _ =>
      obtain rfl := Option.some.inj (hframe.symm.trans hf)
      exact absurd hi.region (hr _)
  | outwards hf hr _ ih =>
    cases h' with
    | here hj =>
      obtain ⟨frame', hframe', hj⟩ := hj
      obtain rfl := Option.some.inj (hf.symm.trans hframe')
      exact absurd hj.region (hr _)
    | outwards hf' _ hs =>
      obtain ⟨-, hp, -⟩ := Frame.mk.inj (Option.some.inj (hf.symm.trans hf'))
      obtain rfl := Option.some.inj hp
      exact ih hs

end Serves

/-- The frame is one of a block or a function, inside the other frame. -/
def Inside (fr : Array Frame) (f parent : FrameId) : Prop :=
  ∃ region vars, fr[f]? = some ⟨region, some parent, vars⟩ ∧ ∀ d, region ≠ .receiver d

namespace Inside

variable {fr fr' : Array Frame} {f parent : FrameId} {i : Instance}

theorem grow (h : Inside fr f parent) (hg : Grows fr fr') : Inside fr' f parent := by
  obtain ⟨region, vars, hf, hr⟩ := h
  obtain ⟨⟨region', parent', vars'⟩, hf', hregion, hparent, _⟩ := hg _ _ hf
  obtain rfl : region' = _ := hregion
  obtain rfl : parent' = some _ := hparent
  exact ⟨_, _, hf', hr⟩

/-- What the outer frame serves the inner one serves as well. -/
theorem serves (h : Inside fr f parent) (hs : Serves fr parent i) : Serves fr f i := by
  obtain ⟨region, vars, hf, hr⟩ := h
  exact .outwards hf hr hs

end Inside

/-! ### Classes around a place -/

/-- The node does not declare `this` or assign to it. -/
structure Node.SparesThis (n : Node) : Prop where
  declares : ∀ t, n.declares? = some t → t.lexeme ≠ "this"
  assigns : ∀ id t value, n = .expr (.assign id t value) → t.lexeme ≠ "this"

/-- Besides, if it is `this` it is called so. -/
structure Node.MindsThis (n : Node) : Prop extends n.SparesThis where
  this : ∀ id t, n = .expr (.this id t) → t.lexeme = "this"

namespace Surrounding

theorem declares_cons (r : Region) (p : String × Standing) (names : List (String × Standing))
    (x : String) :
    declares ⟨r, p :: names⟩ x = (p.1 == x || declares ⟨r, names⟩ x) := List.any_cons

/-- The class, if the region is one. -/
def class? (s : Surrounding) : Option ClassDecl :=
  match s.region with
  | .receiver d => some d
  | _ => none

theorem class?_eq_some_iff {s : Surrounding} {d : ClassDecl} :
    s.class? = some d ↔ s.region = .receiver d := by
  obtain ⟨region, names⟩ := s
  cases region <;> simp [class?]

end Surrounding

namespace Surroundings

/-- The innermost class around. -/
def class? (ctx : Surroundings) : Option ClassDecl := ctx.findSome? Surrounding.class?

/-- The name `this` is declared by classes and by nothing else. -/
def ThisInClasses (ctx : Surroundings) : Prop :=
  ∀ s ∈ ctx, s.declares "this" = s.class?.isSome

namespace ThisInClasses

variable {ctx : Surroundings}

theorem top : ThisInClasses .top := List.forall_mem_singleton.2 rfl

theorem push {s : Surrounding} (hs : s.Fresh) (h : ThisInClasses ctx) : ThisInClasses (s :: ctx) :=
  List.forall_mem_cons.2 ⟨by cases hs <;> rfl, h⟩

theorem declare {name : String} (hname : name ≠ "this") (standing : Standing)
    (h : ThisInClasses ctx) : ThisInClasses (ctx.declare name standing) := by
  cases ctx with
  | nil => exact h
  | cons s ctx =>
    obtain ⟨hs, hctx⟩ := List.forall_mem_cons.1 h
    refine List.forall_mem_cons.2 ⟨?_, hctx⟩
    rw [Surrounding.declares_cons, beq_false_of_ne hname, Bool.false_or]
    exact hs

end ThisInClasses

end Surroundings

/-- In an aligned frame the distance of `this` leads to the frame that holds the instance which the
aligned frame serves, and that is one of the innermost class around. -/
theorem Aligned.serves {fr : Array Frame} {f : FrameId} {ctx : Surroundings}
    (h : Aligned fr f ctx)
    (hproper : AllProper fr)
    (hthis : ctx.ThisInClasses) (hin : ctx.InClass) :
    ∃ d g i, ctx.distance? "this" = some d ∧ Machine.outward? fr d f = some g ∧ HeldAt fr g i ∧
      ctx.class? = some i.cls.declaration ∧ Serves fr f i := by
  induction h with
  | globals _ _ =>
    obtain ⟨d, hd⟩ := hin
    cases List.mem_singleton.1 hd
  | @inside f parent region names vars ctx hf _ _ ih =>
    obtain ⟨hs, hctx⟩ := List.forall_mem_cons.1 hthis
    cases hc : Surrounding.class? ⟨region, names⟩ with
    | some d =>
      -- this is the region of the class
      obtain rfl : region = .receiver d := Surrounding.class?_eq_some_iff.1 hc
      obtain ⟨i, hi⟩ := hproper f _ hf d rfl
      have hheld : HeldAt fr f i := ⟨_, hf, hi⟩
      have hcls : i.cls.declaration = d := (Region.receiver.inj hi.region).symm
      refine ⟨0, f, i, ?_, rfl, hheld, ?_, .here hheld⟩
      · rw [hc] at hs
        simp [Surroundings.distance?, List.findIdx?_cons, hs]
      · rw [Surroundings.class?, List.findSome?_cons, hc, hcls]
    | none =>
      have hregion : ∀ d, region ≠ .receiver d := by
        rintro d rfl
        cases hc
      have hin' : ctx.InClass := by
        obtain ⟨d, hd⟩ := hin
        rcases List.mem_cons.1 hd with hd | hd
        · exact absurd hd.symm (hregion d)
        · exact ⟨d, hd⟩
      obtain ⟨d, g, i, hdist, hout, hheld, hcls, hserves⟩ := ih hctx hin'
      refine ⟨d + 1, g, i, ?_, ?_, hheld, ?_, .outwards hf hregion hserves⟩
      · rw [hc] at hs
        have hdeclares : Surrounding.declares ⟨region, names⟩ "this" = false := by simpa using hs
        rw [Surroundings.distance?] at hdist ⊢
        simp [List.findIdx?_cons, hdeclares, hdist]
      · rw [Machine.outward?, hf]
        exact hout
      · rw [Surroundings.class?, List.findSome?_cons, hc]
        exact hcls

end ScopedScript
