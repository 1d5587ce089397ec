import ScopedScript.Proofs.Simulation.Values

/-! # Steps in lockstep

Two steps *simulate* each other if, from alike machines, both yield related results or both stop
for the same reason, and leave alike machines behind in either case.  Along the way frames only
grow, and the current frame is the same before and after.

`Sim R fr f x x' post` says so of the steps `x` and `x'`, taken in the frame `f` when at least the
frames `fr` are there; `post` relates the results, and may speak of the frames that there are
then.  There is one rule for each way to put steps together and for each elementary step of the
machine. -/

namespace ScopedScript

/-- Results that two simulating steps may have. -/
inductive Agree (R : Likeness) (fr : Array Frame) (f : FrameId) {α β : Type}
    (post : Array Frame → α → β → Prop) :
    EStateM.Result Stop Machine α → EStateM.Result Stop Machine β → Prop
  | ok {a : α} {b : β} {m m' : Machine} : m.Alike R m' → R.Grows fr m.frames → m.frame = f →
      post m.frames a b → Agree R fr f post (.ok a m) (.ok b m')
  | error {e e' : Stop} {m m' : Machine} : m.Alike R m' → R.Grows fr m.frames → m.frame = f →
      e.Alike R e' → Agree R fr f post (.error e m) (.error e' m')

/-- The steps simulate each other in the frame `f`, once there are the frames `fr`. -/
def Sim (R : Likeness) (fr : Array Frame) (f : FrameId) {α β : Type} (x : Eval α) (x' : Eval β)
    (post : Array Frame → α → β → Prop) : Prop :=
  ∀ ⦃m m' : Machine⦄, m.Alike R m' → R.Grows fr m.frames → m.frame = f →
    Agree R m.frames f post (x m) (x' m')

/-! ### Machines -/

namespace Machine.Alike

variable {R : Likeness} {m m' : Machine}

theorem withFrame (h : m.Alike R m') (f : FrameId) :
    Machine.Alike R { m with frame := f } { m' with frame := f } :=
  { h with frame := rfl }

theorem withDepth (h : m.Alike R m') {d d' : Nat} (hd : d' = d) :
    Machine.Alike R { m with depth := d } { m' with depth := d' } :=
  { h with depth := hd }

theorem withHeap (h : m.Alike R m') {k k' : Heap} (hk : k.Alike R m.frames k') :
    Machine.Alike R { m with heap := k } { m' with heap := k' } :=
  { h with heap := hk }

theorem withInput (h : m.Alike R m') (input : List UInt8) :
    Machine.Alike R { m with input := input } { m' with input := input } :=
  { h with input := rfl }

theorem withTicks (h : m.Alike R m') (ticks : Nat) :
    Machine.Alike R { m with ticks := ticks } { m' with ticks := ticks } :=
  { h with ticks := rfl }

theorem withSink (h : m.Alike R m') (sink : Sink) :
    Machine.Alike R { m with sink := sink } { m' with sink := sink } :=
  { h with sink := rfl }

theorem withIdentity (h : m.Alike R m') (n : Nat) :
    Machine.Alike R { m with nextIdentity := n } { m' with nextIdentity := n } :=
  { h with nextIdentity := rfl }

theorem pushFrame (h : m.Alike R m') (region region' : Region) (parent : FrameId)
    {vars vars' : Record Value} (hproper : R.watched → Frame.Proper ⟨region, some parent, vars⟩)
    (hv : Record.Alike R m.frames (R.renamed region) vars vars') :
    Machine.Alike R (m.pushFrame region parent vars) (m'.pushFrame region' parent vars') := by
  have hg : R.Grows m.frames (m.pushFrame region parent vars).frames := .push _ hproper
  refine { h with frames := ?_, globals := hg.frames.globals h.globals, heap := h.heap.grow hg,
                  proper := fun hw => (hg.keeps hw).proper (h.proper hw) }
  exact (frames_grow h.frames hg).push ⟨rfl, hv.grow hg⟩

theorem setVariable (h : m.Alike R m') {f : FrameId} {name name' : String}
    (hname : ∀ frame, m.frames[f]? = some frame → name' = R.renamed frame.region name)
    (hset : R.watched → name ≠ "this" ∨
      ∀ frame, m.frames[f]? = some frame → ∀ d, frame.region ≠ .receiver d)
    {v v' : Value} (hv : v.Alike R (m.setVariable f name v).frames v') :
    Machine.Alike R (m.setVariable f name v) (m'.setVariable f name' v') := by
  have hg : R.Grows m.frames (m.setVariable f name v).frames := .setVariable _ _ hset
  refine { h with frames := ?_, globals := hg.frames.globals h.globals, heap := h.heap.grow hg,
                  proper := fun hw => (hg.keeps hw).proper (h.proper hw) }
  refine (frames_grow h.frames hg).modify f fun k k' hk hkk => ?_
  obtain rfl := hname k hk
  exact ⟨hkk.parent, hkk.vars.set (R.injective _) name hv⟩

end Machine.Alike

/-! ### Putting steps together -/

namespace Sim

variable {R : Likeness} {fr fr' : Array Frame} {f : FrameId} {α β γ δ : Type}
variable {x : Eval α} {x' : Eval β} {P : Array Frame → α → β → Prop}

theorem grow (h : Sim R fr f x x' P) (hg : R.Grows fr fr') : Sim R fr' f x x' P :=
  fun _ _ hm hfr hf => h hm (hg.trans hfr) hf

theorem weaken {Q : Array Frame → α → β → Prop} (h : Sim R fr f x x' P)
    (hp : ∀ fr₁ a b, R.Grows fr fr₁ → P fr₁ a b → Q fr₁ a b) : Sim R fr f x x' Q := by
  intro m m' hm hfr hf
  generalize hr : x m = r, hr' : x' m' = r'
  have ha := h hm hfr hf
  rw [hr, hr'] at ha
  cases ha with
  | ok hm₁ hg hf₁ hpost => exact .ok hm₁ hg hf₁ (hp _ _ _ (hfr.trans hg) hpost)
  | error hm₁ hg hf₁ he => exact .error hm₁ hg hf₁ he

theorem pure {a : α} {b : β} (h : ∀ fr₁, R.Grows fr fr₁ → P fr₁ a b) :
    Sim R fr f (Pure.pure a) (Pure.pure b) P :=
  fun _ _ hm hfr hf => .ok hm (.refl _) hf (h _ hfr)

theorem bind {k : α → Eval γ} {k' : β → Eval δ} {Q : Array Frame → γ → δ → Prop}
    (h : Sim R fr f x x' P)
    (hk : ∀ fr₁ a b, R.Grows fr fr₁ → P fr₁ a b → Sim R fr₁ f (k a) (k' b) Q) :
    Sim R fr f (x >>= k) (x' >>= k') Q := by
  intro m m' hm hfr hf
  have ha := h hm hfr hf
  change Agree R m.frames f Q (EStateM.bind x k m) (EStateM.bind x' k' m')
  unfold EStateM.bind
  generalize x m = r, x' m' = r' at ha
  cases ha with
  | error hm₁ hg hf₁ he => exact .error hm₁ hg hf₁ he
  | @ok a b m₁ m₁' hm₁ hg hf₁ hpost =>
    have hb := hk _ a b (hfr.trans hg) hpost hm₁ (.refl _) hf₁
    change Agree R m.frames f Q (k a m₁) (k' b m₁')
    generalize k a m₁ = s, k' b m₁' = s' at hb
    cases hb with
    | ok hm₂ hg₂ hf₂ hpost₂ => exact .ok hm₂ (hg.trans hg₂) hf₂ hpost₂
    | error hm₂ hg₂ hf₂ he => exact .error hm₂ (hg.trans hg₂) hf₂ he

theorem outOfFuel : Sim R fr f (throw .outOfFuel : Eval α) (throw .outOfFuel : Eval β) P :=
  fun _ _ hm _ hf => .error hm (.refl _) hf .outOfFuel

theorem raise {t t' : Token} (ht : R.token t t') (fault : RuntimeFault) :
    Sim R fr f (Eval.raise t fault : Eval α) (Eval.raise t' fault : Eval β) P :=
  fun _ _ hm _ hf => .error hm (.refl _) hf (.raised fault ht)

/-- A fault that is about the variable that its token names. -/
theorem raiseNamed {t t' : Token} (ht : R.name t t') (fault : RuntimeFault) :
    Sim R fr f (Eval.raise t (fault.about t.lexeme) : Eval α)
      (Eval.raise t' (fault.about t'.lexeme) : Eval β) P :=
  fun _ _ hm _ hf => .error hm (.refl _) hf (.named fault ht)

theorem orRaise {Q : α → β → Prop} {t t' : Token} {fault fault' : RuntimeFault}
    (hraise : Sim R fr f (Eval.raise t fault : Eval α) (Eval.raise t' fault' : Eval β) fun _ => Q)
    {a : Option α} {b : Option β} (h : Option.Rel Q a b) :
    Sim R fr f (Eval.orRaise t fault a) (Eval.orRaise t' fault' b) (fun _ => Q) := by
  cases h with
  | none => exact hraise
  | some hab => exact pure fun _ _ => hab

theorem inspect {g : Machine → α} {g' : Machine → β}
    (h : ∀ m m', m.Alike R m' → R.Grows fr m.frames → m.frame = f → P m.frames (g m) (g' m')) :
    Sim R fr f (Eval.inspect g) (Eval.inspect g') P :=
  fun m m' hm hfr hf => .ok hm (.refl _) hf (h m m' hm hfr hf)

/-- What is the same in alike machines may be looked at. -/
theorem inspect_eq {g : Machine → α} (h : ∀ m m', m.Alike R m' → g m' = g m) :
    Sim R fr f (Eval.inspect g) (Eval.inspect g) (fun _ a b => b = a) :=
  inspect fun m m' hm _ _ => h m m' hm

theorem frame : Sim R fr f (Eval.inspect (·.frame)) (Eval.inspect (·.frame))
    (fun _ a b => a = f ∧ b = f) :=
  inspect fun _ _ hm _ hf => ⟨hf, hm.frame.trans hf⟩

theorem update {u u' : Machine → Machine}
    (h : ∀ m m', m.Alike R m' → R.Grows fr m.frames → m.frame = f →
      (u m).Alike R (u' m') ∧ R.Grows m.frames (u m).frames ∧ (u m).frame = f) :
    Sim R fr f (modify u : Eval PUnit) (modify u' : Eval PUnit) (fun _ _ _ => True) := by
  intro m m' hm hfr hf
  obtain ⟨hm₁, hg, hf₁⟩ := h m m' hm hfr hf
  exact .ok hm₁ hg hf₁ trivial

/-- A step in another frame leaves the current frame as it is. -/
theorem inFrame {g : FrameId} (h : Sim R fr g x x' P) :
    Sim R fr f (Eval.inFrame g x) (Eval.inFrame g x') P := by
  intro m m' hm hfr hf
  have ha := h (hm.withFrame g) hfr rfl
  unfold Eval.inFrame
  generalize x { m with frame := g } = r, x' { m' with frame := g } = r' at ha
  cases ha with
  | ok hm₁ hg _ hpost =>
    exact .ok (hm.frame ▸ hm₁.withFrame m.frame) hg hf hpost
  | error hm₁ hg _ he => exact .error (hm.frame ▸ hm₁.withFrame m.frame) hg hf he

theorem asCall (h : Sim R fr f x x' P) :
    Sim R fr f (Eval.asCall x) (Eval.asCall x') P := by
  intro m m' hm hfr hf
  have ha := h (hm.withDepth (congrArg (· + 1) hm.depth)) hfr hf
  unfold Eval.asCall
  generalize x { m with depth := m.depth + 1 } = r, x' { m' with depth := m'.depth + 1 } = r' at ha
  cases ha with
  | ok hm₁ hg hf₁ hpost => exact .ok (hm₁.withDepth (by rw [hm₁.depth])) hg hf₁ hpost
  | error hm₁ hg hf₁ he => exact .error (hm₁.withDepth (by rw [hm₁.depth])) hg hf₁ he

/-! ### Elementary steps -/

theorem newList {xs xs' : Array Value} (h : ArrayAlike (Value.Alike R fr) xs xs') :
    Sim R fr f (Eval.newList xs) (Eval.newList xs') (Value.Alike R) := by
  intro m m' hm hfr hf
  unfold Eval.newList
  rw [hm.heap.lists.size_eq]
  refine .ok (hm.withHeap ⟨?_, hm.heap.records⟩) (.refl _) hf (.list _)
  exact hm.heap.lists.push (h.imp fun _ _ hv => hv.grow hfr)

theorem newRecord {r r' : Record Value} (h : Record.Alike R fr id r r') :
    Sim R fr f (Eval.newRecord r) (Eval.newRecord r') (fun _ ref ref' => ref' = ref) := by
  intro m m' hm hfr hf
  refine .ok (hm.withHeap ⟨hm.heap.lists, ?_⟩) (.refl _) hf hm.heap.records.size_eq
  exact hm.heap.records.push (h.grow hfr)

theorem newFrame (region region' : Region) (parent : FrameId) {vars vars' : Record Value}
    (hproper : R.watched → Frame.Proper ⟨region, some parent, vars⟩)
    (h : Record.Alike R fr (R.renamed region) vars vars') :
    Sim R fr f (Eval.newFrame region parent vars) (Eval.newFrame region' parent vars')
      (fun fr₁ g g' => g' = g ∧ fr₁[g]? = some ⟨region, some parent, vars⟩) := by
  intro m m' hm hfr hf
  refine .ok (hm.pushFrame region region' parent hproper (h.grow hfr)) (.push _ hproper) hf
    ⟨hm.frames.size_eq, ?_⟩
  exact Array.getElem?_push_size

theorem newIdentity : Sim R fr f Eval.newIdentity Eval.newIdentity (fun _ n n' => n' = n) := by
  intro m m' hm hfr hf
  unfold Eval.newIdentity
  rw [hm.nextIdentity]
  exact .ok (hm.withIdentity _) (.refl _) hf rfl

section

variable {ctx : Surroundings} {n n' : Node} {id id' : NodeId} {t t' : Token}

/-- The name goes with the frame that the variable is in. -/
theorem named {m : Machine} (hctx : R.At m.frames m.frame ctx) (hn : R.node ctx n n')
    (hr : n.reference? = some (id, t)) (hr' : n'.reference? = some (id', t')) (ht : R.name t t')
    (hm : m.distances = R.left) {g : FrameId} (hg : m.home? id = some g) :
    ∀ frame, m.frames[g]? = some frame → t'.lexeme = R.renamed frame.region t.lexeme := by
  rw [Machine.home?_eq, hm] at hg
  exact fun frame hframe => R.found hn hr ht ⟨id', hr'⟩ hctx hg hframe

theorem lookup? {m m' : Machine} (hm : m.Alike R m') (hctx : R.At m.frames m.frame ctx)
    (hn : R.node ctx n n') (hr : n.reference? = some (id, t))
    (hr' : n'.reference? = some (id', t')) (ht : R.name t t') :
    Option.Rel (Value.Alike R m.frames) (m.lookup? id t.lexeme) (m'.lookup? id' t'.lexeme) := by
  unfold Machine.lookup?
  rw [hm.home? hctx hn hr hr']
  cases hhome : m.home? id with
  | none => exact .none
  | some g => exact hm.get? (named hctx hn hr hr' ht hm.left hhome)

/-- Reading a variable: both find it, with alike values, or neither does. -/
theorem readVariable (hctx : R.At fr f ctx) (hn : R.node ctx n n')
    (hr : n.reference? = some (id, t)) (hr' : n'.reference? = some (id', t'))
    (ht : R.name t t') :
    Sim R fr f (Eval.readVariable id t) (Eval.readVariable id' t') (Value.Alike R) := by
  refine bind (P := fun fr₁ => Option.Rel (Value.Alike R fr₁)) (inspect ?_)
    fun fr₁ a b hg hab => ?_
  · intro m m' hm hfr hf
    subst hf
    exact lookup? hm (hctx.grow hfr) hn hr hr' ht
  · have hread : Sim R fr₁ f (Eval.orRaise t (.undefinedVariable t.lexeme) a)
        (Eval.orRaise t' (.undefinedVariable t'.lexeme) b) (fun _ => Value.Alike R fr₁) :=
      orRaise (raiseNamed ht (.undefinedVariable "")) hab
    exact hread.weaken fun fr₂ _ _ hg₂ hv => hv.grow hg₂

/-- Giving a value to a variable: both do, in the same frame, or neither does. -/
theorem writeVariable (hctx : R.At fr f ctx) (hn : R.node ctx n n')
    (hr : n.reference? = some (id, t)) (hr' : n'.reference? = some (id', t'))
    (ht : R.name t t') (hthis : R.watched → t.lexeme ≠ "this") {v v' : Value}
    (hv : v.Alike R fr v') :
    Sim R fr f (Eval.writeVariable id t v) (Eval.writeVariable id' t' v')
      (fun _ _ _ => True) := by
  -- the frame that both find is one where the name goes with it, from now on
  let Home (fr₁ : Array Frame) (g g' : FrameId) : Prop := g' = g ∧ ∃ frame, fr₁[g]? = some frame ∧
    t'.lexeme = R.renamed frame.region t.lexeme
  refine bind (P := fun fr₁ => Option.Rel (Home fr₁)) (inspect ?_) fun fr₁ a b hg hab => ?_
  · intro m m' hm hfr hf
    subst hf
    rw [hm.home? (hctx.grow hfr) hn hr hr']
    cases hhome : m.home? id with
    | none => exact .none
    | some g =>
      have hname := named (hctx.grow hfr) hn hr hr' ht hm.left hhome
      simp only [hm.has hname]
      split
      · next hhas =>
        obtain ⟨frame, hframe⟩ := Machine.frame_of_has hhas
        exact .some ⟨rfl, frame, hframe, hname frame hframe⟩
      · exact .none
  · refine bind (orRaise (raiseNamed ht (.undefinedVariable "")) hab) fun fr₂ g g' hg₂ hgg => ?_
    obtain ⟨rfl, frame, hframe, hname⟩ := hgg
    have hset : ∀ m : Machine, R.Grows m.frames (m.setVariable g' t.lexeme v).frames :=
      fun m => .setVariable _ _ fun hw => .inl (hthis hw)
    refine update fun m m' hm hfr hf => ⟨?_, hset m, hf⟩
    obtain ⟨frame₁, hframe₁, hregion, -⟩ := (hg₂.trans hfr).frames _ _ hframe
    refine hm.setVariable (fun k hk => ?_) (fun hw => .inl (hthis hw))
      (hv.grow (hg.trans (hg₂.trans (hfr.trans (hset m)))))
    obtain rfl := Option.some.inj (hframe₁.symm.trans hk)
    rw [hregion]
    exact hname

end

/-- Declaring a variable: afterwards the current frame has it.  The values need to be alike only
then. -/
theorem declareVariable {t t' : Token} (ht : R.name t t') (hthis : R.watched → t.lexeme ≠ "this")
    (hname : ∀ fr₁, R.Grows fr fr₁ → ∀ frame, fr₁[f]? = some frame →
      t'.lexeme = R.renamed frame.region t.lexeme) {v v' : Value}
    (hv : ∀ fr₁, R.Grows fr fr₁ →
      (∀ frame, fr₁[f]? = some frame → frame.vars.has t.lexeme = true) → v.Alike R fr₁ v') :
    Sim R fr f (Eval.declareVariable t v) (Eval.declareVariable t' v')
      (fun fr₁ _ _ => ∀ frame, fr₁[f]? = some frame → frame.vars.has t.lexeme = true) := by
  unfold Eval.declareVariable
  refine bind (P := fun _ a b => b = a) (inspect fun m m' hm hfr hf => ?_) fun fr₁ a b hg hab => ?_
  · subst hf
    rw [hm.frame]
    exact hm.has (hname _ hfr)
  subst hab
  cases b with
  | true =>
    exact bind (P := fun _ _ _ => False) (raiseNamed ht (.alreadyDeclared ""))
      fun _ _ _ _ h => h.elim
  | false =>
    intro m m' hm hfr hf
    subst hf
    change Agree R m.frames m.frame _ (.ok () (m.setVariable m.frame t.lexeme v))
      (.ok () (m'.setVariable m'.frame t'.lexeme v'))
    rw [hm.frame]
    have hset : R.Grows m.frames (m.setVariable m.frame t.lexeme v).frames :=
      .setVariable _ _ fun hw => .inl (hthis hw)
    have hhas : ∀ frame, (m.setVariable m.frame t.lexeme v).frames[m.frame]? = some frame →
        frame.vars.has t.lexeme = true := by
      intro frame hframe
      rw [Machine.setVariable, Array.getElem?_modify, if_pos rfl] at hframe
      obtain ⟨k, _, rfl⟩ := Option.map_eq_some_iff.1 hframe
      exact Record.has_set_self _ _ _
    exact .ok (hm.setVariable (hname _ (hg.trans hfr)) (fun hw => .inl (hthis hw))
      (hv _ (hg.trans (hfr.trans hset)) hhas)) hset rfl hhas

theorem write {t t' : Token} (ht : R.token t t') (text : String) :
    Sim R fr f (Eval.write t text) (Eval.write t' text) (fun _ _ _ => True) := by
  intro m m' hm hfr hf
  unfold Eval.write
  rw [hm.sink]
  cases m.sink.write text with
  | none => exact raise ht _ hm hfr hf
  | some sink => exact .ok (hm.withSink sink) (.refl _) hf trivial

end Sim

end ScopedScript
