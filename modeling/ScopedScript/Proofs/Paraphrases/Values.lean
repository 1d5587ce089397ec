import ScopedScript.Evaluation
import ScopedScript.Proofs.Paraphrases.Trees
import ScopedScript.Proofs.Simulation.Values

/-! # Values and steps that correspond

Two runs of programs that say the same go in step: they make the same frames, lists, records and
identities in the same order, and stop for the same reason.  What functions and classes carry are
trees that paraphrase each other.  Nothing is asked of the frames that functions were made in, since
linked nodes look for their variables at the same distance wherever they are.

* Values that correspond (`Value.Matches`) have the same type and the same text, and comparing them
  gives the same answer.  So no host can tell them apart (`Value.matches_indiscernible`).
* A function of the host does the same when it is called with another token of the same word
  (`HostFunction.ReadsWord`); this is asked of the machine (`Machine.Matches.fits`).
* Steps that correspond (`InStep`) take matching machines to matching machines, with results as
  `post` says or with faults at the same word.  There is one rule for each way to put steps together
  and for each elementary step of the machine. -/

namespace ScopedScript

/-- The function sees of the token of a call at most the word, and reports errors at that word. -/
abbrev HostFunction.ReadsWord (f : HostFunction) : Prop := f.Respects Token.SameWord Token.SameWord

/-! ### Values -/

section

variable (link : NodeId → NodeId → Prop)

/-- Functions that say the same, made in the same frame. -/
structure Closure.Matches (c c' : Closure) : Prop where
  identity : c'.identity = c.identity
  frame : c'.frame = c.frame
  anonymous : c'.anonymous = c.anonymous
  declaration : c.declaration.Paraphrases link c'.declaration

/-- Classes that say the same, declared in the same frame. -/
structure Class.Matches (c c' : Class) : Prop where
  identity : c'.identity = c.identity
  frame : c'.frame = c.frame
  declaration : c.declaration.Paraphrases link c'.declaration

/-- Instances of classes that say the same, with the same fields. -/
structure Instance.Matches (i i' : Instance) : Prop where
  cls : i.cls.Matches link i'.cls
  fields : i'.fields = i.fields

/-- Methods that say the same, bound in the same frame. -/
structure Method.Matches (b b' : Method) : Prop where
  identity : b'.identity = b.identity
  frame : b'.frame = b.frame
  receiver : b.receiver.Matches link b'.receiver
  declaration : b.declaration.Paraphrases link b'.declaration

/-- Values that correspond. -/
inductive Value.Matches : Value → Value → Prop
  | num (x : Float) : Value.Matches (.num x) (.num x)
  | str (s : String) : Value.Matches (.str s) (.str s)
  | bool (b : Bool) : Value.Matches (.bool b) (.bool b)
  | null : Value.Matches .null .null
  | undefined : Value.Matches .undefined .undefined
  | list (ref : Ref) : Value.Matches (.list ref) (.list ref)
  | object (ref : Ref) : Value.Matches (.object ref) (.object ref)
  | function {c c' : Closure} : c.Matches link c' → Value.Matches (.function c) (.function c')
  | method {b b' : Method} : b.Matches link b' → Value.Matches (.method b) (.method b')
  | native {n : Native} : n.action.isPlain = true → Value.Matches (.native n) (.native n)
  | host {identity arity index : Nat} {name : String} {v v' : Value} : Value.Matches v v' →
      Value.Matches (.native (.mk identity name arity (.host index v)))
        (.native (.mk identity name arity (.host index v')))
  | cls {c c' : Class} : c.Matches link c' → Value.Matches (.cls c) (.cls c')
  | instance {i i' : Instance} : i.Matches link i' → Value.Matches (.instance i) (.instance i')

/-- Records with the same names and values that correspond. -/
def Record.Matches (r r' : Record Value) : Prop :=
  List.Forall₂ (fun p p' => p'.1 = p.1 ∧ Value.Matches link p.2 p'.2) r r'

/-- Heaps whose lists and records correspond. -/
structure Heap.Matches (h h' : Heap) : Prop where
  lists : ArrayAlike (ArrayAlike (Value.Matches link)) h.lists h'.lists
  records : ArrayAlike (Record.Matches link) h.records h'.records

/-- Frames inside the same frame, with variables that correspond. -/
structure Frame.Matches (f f' : Frame) : Prop where
  parent : f'.parent = f.parent
  vars : Record.Matches link f.vars f'.vars

/-- Machines that are at the same point of two runs. -/
structure Machine.Matches (m m' : Machine) : Prop where
  frames : ArrayAlike (Frame.Matches link) m.frames m'.frames
  heap : m.heap.Matches link m'.heap
  nextIdentity : m'.nextIdentity = m.nextIdentity
  linked : ∀ {id id' : NodeId}, link id id' → m'.distances[id']? = m.distances[id]?
  frame : m'.frame = m.frame
  depth : m'.depth = m.depth
  sink : m'.sink = m.sink
  input : m'.input = m.input
  clock : m'.clock = m.clock
  ticks : m'.ticks = m.ticks
  hosts : m'.hosts = m.hosts
  fits : ∀ f ∈ m.hosts, f.ReadsWord

end

/-! ### Records -/

namespace Record.Matches

variable {link : NodeId → NodeId → Prop} {r r' : Record Value}

theorem get? (h : Record.Matches link r r') (name : String) :
    Option.Rel (Value.Matches link) (r.get? name) (r'.get? name) := by
  induction h with
  | nil => exact .none
  | @cons p p' r r' hp _ ih =>
    obtain ⟨k, v⟩ := p
    obtain ⟨k', v'⟩ := p'
    obtain ⟨rfl, hv⟩ := hp
    simp only [Record.get?_cons]
    split
    · exact .some hv
    · exact ih

theorem has (h : Record.Matches link r r') (name : String) : r'.has name = r.has name := by
  have hg := h.get? name
  unfold Record.has
  generalize r.get? name = a, r'.get? name = b at hg
  cases hg <;> rfl

theorem set (h : Record.Matches link r r') (name : String) {v v' : Value}
    (hv : v.Matches link v') : Record.Matches link (r.set name v) (r'.set name v') := by
  induction h with
  | nil => exact .cons ⟨rfl, hv⟩ .nil
  | @cons p p' r r' hp hr ih =>
    obtain ⟨k, w⟩ := p
    obtain ⟨k', w'⟩ := p'
    obtain ⟨rfl, hw⟩ := hp
    simp only [Record.set]
    split
    · exact .cons ⟨rfl, hv⟩ hr
    · exact .cons ⟨rfl, hw⟩ ih

end Record.Matches

/-! ### What can be seen of a value -/

section

variable {link : NodeId → NodeId → Prop}

/-- Looking up a method finds two that say the same, or none. -/
theorem ClassDecl.Paraphrases.method? {d d' : ClassDecl} (h : d.Paraphrases link d')
    (name : String) :
    Option.Rel (FunctionDecl.Paraphrases link) (d.method? name) (d'.method? name) := by
  refine forall₂_find? (List.rel_reverse h.methods) fun m m' hm => ?_
  rw [hm.name.lexeme]

theorem ClassDecl.Paraphrases.arity {d d' : ClassDecl} (h : d.Paraphrases link d') :
    d'.arity = d.arity := by
  have hm := h.method? ClassDecl.constructorName
  unfold ClassDecl.arity
  generalize d.method? _ = a, d'.method? _ = b at hm
  cases hm with
  | none => rfl
  | some hm => exact hm.arity

variable {h h' : Heap} {v v' w w' : Value}

theorem Heap.Matches.elements (hh : h.Matches link h') (ref : Ref) :
    ArrayAlike (Value.Matches link) (h.elements ref) (h'.elements ref) :=
  hh.lists.getD ref .nil

theorem Heap.Matches.record (hh : h.Matches link h') (ref : Ref) :
    Record.Matches link (h.record ref) (h'.record ref) :=
  hh.records.getD ref .nil

namespace Value.Matches

theorem typeName (hv : v.Matches link v') : v'.typeName = v.typeName := by
  cases hv <;> rfl

theorem arity? (hv : v.Matches link v') : v'.arity? = v.arity? := by
  cases hv with
  | function hc => exact congrArg some hc.declaration.arity
  | method hb => exact congrArg some hb.declaration.arity
  | cls hc => exact congrArg some hc.declaration.arity
  | _ => rfl

theorem closedText (hv : v.Matches link v') : v'.closedText = v.closedText := by
  cases hv with
  | function hc => simp only [Value.closedText, hc.anonymous, hc.declaration.name.lexeme]
  | method hb => simp only [Value.closedText, hb.declaration.name.lexeme]
  | cls hc => simp only [Value.closedText, hc.declaration.name.lexeme]
  | «instance» hi => simp only [Value.closedText, hi.cls.declaration.name.lexeme]
  | _ => rfl

theorem sameClosed (hv : v.Matches link v') (hw : w.Matches link w') :
    Value.sameClosed v' w' = Value.sameClosed v w := by
  cases hv with
  | function hc =>
    cases hw with
    | function hd => simp only [Value.sameClosed, hc.identity, hd.identity]
    | _ => rfl
  | method hc =>
    cases hw with
    | method hd => simp only [Value.sameClosed, hc.identity, hd.identity]
    | _ => rfl
  | cls hc =>
    cases hw with
    | cls hd => simp only [Value.sameClosed, hc.identity, hd.identity]
    | _ => rfl
  | «instance» hc =>
    cases hw with
    | «instance» hd => simp only [Value.sameClosed, hc.fields, hd.fields]
    | _ => rfl
  | _ => cases hw <;> rfl

end Value.Matches

/-- No host can tell values that correspond apart. -/
theorem Value.matches_indiscernible (link : NodeId → NodeId → Prop) :
    Indiscernible (Value.Matches link) where
  plain {v} hv := by
    cases v with
    | num x => exact .num x
    | str s => exact .str s
    | bool b => exact .bool b
    | null => exact .null
    | undefined => exact .undefined
    | list ref => exact .list ref
    | object ref => exact .object ref
    | _ => cases hv
  eq_of_plain hv hs := by
    cases hv <;> first | rfl | cases hs
  typeName hv := hv.typeName
  closedText hv := hv.closedText
  same hv hw := hv.sameClosed hw

theorem Heap.matches_iff_related : h.Matches link h' ↔ h.Related (Value.Matches link) h' := by
  rw [Heap.related_iff]
  exact ⟨fun hh => ⟨hh.lists, hh.records⟩, fun hh => ⟨hh.1, hh.2⟩⟩

/-- Values that correspond have the same text. -/
theorem Value.Matches.text (hh : h.Matches link h') (hv : v.Matches link v') :
    v'.text h' = v.text h :=
  (Value.matches_indiscernible link).text (Heap.matches_iff_related.1 hh) hv

/-- Comparing values that correspond gives the same answer. -/
theorem Value.Matches.equal (hh : h.Matches link h') (hv : v.Matches link v')
    (hw : w.Matches link w') : v'.equal h' w' = v.equal h w :=
  (Value.matches_indiscernible link).equal (Heap.matches_iff_related.1 hh) hv hw

end

/-! ### Machines -/

namespace Machine.Matches

variable {link : NodeId → NodeId → Prop} {m m' : Machine}

/-- Looking up a variable of a frame: both machines have it, with values that correspond, or
neither has. -/
theorem get? (h : m.Matches link m') (f : FrameId) (x : String) :
    Option.Rel (Value.Matches link) ((m.vars f).get? x) ((m'.vars f).get? x) := by
  have hf := h.frames.getElem? f
  unfold Machine.vars
  generalize m.frames[f]? = a, m'.frames[f]? = b at hf
  cases hf with
  | none => exact .none
  | some hf => exact hf.vars.get? x

theorem has (h : m.Matches link m') (f : FrameId) (x : String) :
    (m'.vars f).has x = (m.vars f).has x := by
  have hg := h.get? f x
  unfold Record.has
  generalize (m.vars f).get? x = a, (m'.vars f).get? x = b at hg
  cases hg <;> rfl

/-- Linked nodes find their variables in the same frame. -/
theorem home? (h : m.Matches link m') {id id' : NodeId} (hid : link id id') :
    m'.home? id' = m.home? id := by
  unfold Machine.home?
  rw [h.linked hid, h.frame]
  split
  · exact outward?_congr (fun _ _ hf => hf.parent) h.frames _ _
  · rfl

theorem withFrame (h : m.Matches link m') (f : FrameId) :
    Machine.Matches link { m with frame := f } { m' with frame := f } :=
  { h with frame := rfl }

theorem withDepth (h : m.Matches link m') {d d' : Nat} (hd : d' = d) :
    Machine.Matches link { m with depth := d } { m' with depth := d' } :=
  { h with depth := hd }

theorem withHeap (h : m.Matches link m') {k k' : Heap} (hk : k.Matches link k') :
    Machine.Matches link { m with heap := k } { m' with heap := k' } :=
  { h with heap := hk }

theorem withInput (h : m.Matches link m') (input : List UInt8) :
    Machine.Matches link { m with input := input } { m' with input := input } :=
  { h with input := rfl }

theorem withTicks (h : m.Matches link m') (ticks : Nat) :
    Machine.Matches link { m with ticks := ticks } { m' with ticks := ticks } :=
  { h with ticks := rfl }

theorem withSink (h : m.Matches link m') (sink : Sink) :
    Machine.Matches link { m with sink := sink } { m' with sink := sink } :=
  { h with sink := rfl }

theorem withIdentity (h : m.Matches link m') (n : Nat) :
    Machine.Matches link { m with nextIdentity := n } { m' with nextIdentity := n } :=
  { h with nextIdentity := rfl }

theorem pushFrame (h : m.Matches link m') (region region' : Region) (parent : FrameId)
    {vars vars' : Record Value} (hv : Record.Matches link vars vars') :
    Machine.Matches link (m.pushFrame region parent vars) (m'.pushFrame region' parent vars') :=
  { h with frames := h.frames.push ⟨rfl, hv⟩ }

theorem setVariable (h : m.Matches link m') (f : FrameId) (name : String) {v v' : Value}
    (hv : v.Matches link v') :
    Machine.Matches link (m.setVariable f name v) (m'.setVariable f name v') :=
  { h with frames := h.frames.modify f fun _ _ _ hk => ⟨hk.parent, hk.vars.set name hv⟩ }

end Machine.Matches

/-! ### Steps -/

/-- Stops for the same reason at the same word. -/
inductive Stop.Matches : Stop → Stop → Prop
  | raised (fault : RuntimeFault) {t t' : Token} : t.SameWord t' →
      Stop.Matches (.raised ⟨fault, t⟩) (.raised ⟨fault, t'⟩)
  | outOfFuel : Stop.Matches .outOfFuel .outOfFuel

/-- Results that two steps may have. -/
inductive Agreed (link : NodeId → NodeId → Prop) {α β : Type} (post : α → β → Prop) :
    EStateM.Result Stop Machine α → EStateM.Result Stop Machine β → Prop
  | ok {a : α} {b : β} {m m' : Machine} : m.Matches link m' → post a b →
      Agreed link post (.ok a m) (.ok b m')
  | error {e e' : Stop} {m m' : Machine} : m.Matches link m' → e.Matches e' →
      Agreed link post (.error e m) (.error e' m')

/-- The steps correspond. -/
def InStep (link : NodeId → NodeId → Prop) {α β : Type} (x : Eval α) (x' : Eval β)
    (post : α → β → Prop) : Prop :=
  ∀ ⦃m m' : Machine⦄, m.Matches link m' → Agreed link post (x m) (x' m')

namespace InStep

variable {link : NodeId → NodeId → Prop} {α β γ δ : Type}
variable {x : Eval α} {x' : Eval β} {P : α → β → Prop}

theorem pure {a : α} {b : β} (h : P a b) : InStep link (Pure.pure a) (Pure.pure b) P :=
  fun _ _ hm => .ok hm h

theorem bind {k : α → Eval γ} {k' : β → Eval δ} {Q : γ → δ → Prop} (h : InStep link x x' P)
    (hk : ∀ a b, P a b → InStep link (k a) (k' b) Q) : InStep link (x >>= k) (x' >>= k') Q := by
  intro m m' hm
  have ha := h hm
  change Agreed link Q (EStateM.bind x k m) (EStateM.bind x' k' m')
  unfold EStateM.bind
  generalize x m = r, x' m' = r' at ha
  cases ha with
  | error hm₁ he => exact .error hm₁ he
  | ok hm₁ hpost => exact hk _ _ hpost hm₁

theorem outOfFuel : InStep link (throw .outOfFuel : Eval α) (throw .outOfFuel : Eval β) P :=
  fun _ _ hm => .error hm .outOfFuel

theorem raise {t t' : Token} (ht : t.SameWord t') (fault : RuntimeFault) :
    InStep link (Eval.raise t fault : Eval α) (Eval.raise t' fault : Eval β) P :=
  fun _ _ hm => .error hm (.raised fault ht)

/-- A fault that says what its token and a value are. -/
theorem raise_eq {t t' : Token} (ht : t.SameWord t') {fault fault' : RuntimeFault}
    (hfault : fault' = fault) :
    InStep link (Eval.raise t fault : Eval α) (Eval.raise t' fault' : Eval β) P := by
  subst hfault
  exact raise ht _

theorem orRaise {t t' : Token} (ht : t.SameWord t') {fault fault' : RuntimeFault}
    (hfault : fault' = fault) {a : Option α} {b : Option β} (h : Option.Rel P a b) :
    InStep link (Eval.orRaise t fault a) (Eval.orRaise t' fault' b) P := by
  cases h with
  | none => exact raise_eq ht hfault
  | some hab => exact pure hab

theorem inspect {g : Machine → α} {g' : Machine → β}
    (h : ∀ m m', m.Matches link m' → P (g m) (g' m')) :
    InStep link (Eval.inspect g) (Eval.inspect g') P :=
  fun m m' hm => .ok hm (h m m' hm)

/-- What is the same in matching machines may be looked at. -/
theorem inspect_eq {g g' : Machine → α} (h : ∀ m m', m.Matches link m' → g' m' = g m) :
    InStep link (Eval.inspect g) (Eval.inspect g') (fun a b => b = a) :=
  inspect h

theorem update {u u' : Machine → Machine}
    (h : ∀ m m', m.Matches link m' → (u m).Matches link (u' m')) :
    InStep link (modify u : Eval PUnit) (modify u' : Eval PUnit) (fun _ _ => True) :=
  fun m m' hm => .ok (h m m' hm) trivial

theorem inFrame (g : FrameId) (h : InStep link x x' P) :
    InStep link (Eval.inFrame g x) (Eval.inFrame g x') P := by
  intro m m' hm
  have ha := h (hm.withFrame g)
  unfold Eval.inFrame
  generalize x { m with frame := g } = r, x' { m' with frame := g } = r' at ha
  cases ha with
  | ok hm₁ hpost => exact .ok (hm.frame ▸ hm₁.withFrame m.frame) hpost
  | error hm₁ he => exact .error (hm.frame ▸ hm₁.withFrame m.frame) he

theorem asCall (h : InStep link x x' P) : InStep link (Eval.asCall x) (Eval.asCall x') P := by
  intro m m' hm
  have ha := h (hm.withDepth (congrArg (· + 1) hm.depth))
  unfold Eval.asCall
  generalize x { m with depth := m.depth + 1 } = r, x' { m' with depth := m'.depth + 1 } = r' at ha
  cases ha with
  | ok hm₁ hpost => exact .ok (hm₁.withDepth (by rw [hm₁.depth])) hpost
  | error hm₁ he => exact .error (hm₁.withDepth (by rw [hm₁.depth])) he

/-! ### Elementary steps -/

theorem newList {xs xs' : Array Value} (h : ArrayAlike (Value.Matches link) xs xs') :
    InStep link (Eval.newList xs) (Eval.newList xs') (Value.Matches link) := by
  intro m m' hm
  unfold Eval.newList
  rw [hm.heap.lists.size_eq]
  exact .ok (hm.withHeap ⟨hm.heap.lists.push h, hm.heap.records⟩) (.list _)

theorem newRecord {r r' : Record Value} (h : Record.Matches link r r') :
    InStep link (Eval.newRecord r) (Eval.newRecord r') (fun ref ref' => ref' = ref) :=
  fun _ _ hm => .ok (hm.withHeap ⟨hm.heap.lists, hm.heap.records.push h⟩) hm.heap.records.size_eq

theorem newFrame (region region' : Region) (parent : FrameId) {vars vars' : Record Value}
    (h : Record.Matches link vars vars') :
    InStep link (Eval.newFrame region parent vars) (Eval.newFrame region' parent vars')
      (fun g g' => g' = g) :=
  fun _ _ hm => .ok (hm.pushFrame region region' parent h) hm.frames.size_eq

theorem newIdentity : InStep link Eval.newIdentity Eval.newIdentity (fun n n' => n' = n) := by
  intro m m' hm
  unfold Eval.newIdentity
  rw [hm.nextIdentity]
  exact .ok (hm.withIdentity _) rfl

theorem frame : InStep link (Eval.inspect (·.frame)) (Eval.inspect (·.frame))
    (fun f f' => f' = f) :=
  inspect_eq fun _ _ hm => hm.frame

section

variable {id id' : NodeId} {t t' : Token}

/-- Reading a variable: both find it, or neither does. -/
theorem readVariable (hid : link id id') (ht : t.SameWord t') :
    InStep link (Eval.readVariable id t) (Eval.readVariable id' t') (Value.Matches link) := by
  unfold Eval.readVariable
  rw [ht.lexeme]
  refine bind (P := Option.Rel (Value.Matches link)) (inspect fun m m' hm => ?_)
    fun a b hab => orRaise ht rfl hab
  unfold Machine.lookup?
  rw [hm.home? hid]
  cases m.home? id with
  | none => exact .none
  | some f => exact hm.get? f t.lexeme

/-- Giving a value to a variable: both do, in the same frame, or neither does. -/
theorem writeVariable (hid : link id id') (ht : t.SameWord t') {v v' : Value}
    (hv : v.Matches link v') :
    InStep link (Eval.writeVariable id t v) (Eval.writeVariable id' t' v') (fun _ _ => True) := by
  unfold Eval.writeVariable
  rw [ht.lexeme]
  refine bind (P := fun a b => b = a) (inspect fun m m' hm => ?_) fun a b hab => ?_
  · rw [hm.home? hid]
    cases m.home? id with
    | none => rfl
    | some f => simp only [hm.has]
  subst hab
  refine bind (P := fun f f' => f' = f) (orRaise ht rfl ?_) fun f f' hf => ?_
  · cases b with
    | none => exact .none
    | some f => exact .some rfl
  · subst hf
    exact update fun m m' hm => hm.setVariable f' t.lexeme hv

/-- Declaring a variable. -/
theorem declareVariable (ht : t.SameWord t') {v v' : Value} (hv : v.Matches link v') :
    InStep link (Eval.declareVariable t v) (Eval.declareVariable t' v') (fun _ _ => True) := by
  unfold Eval.declareVariable
  rw [ht.lexeme]
  refine bind (inspect_eq fun m m' hm => by rw [hm.frame, hm.has]) fun a b hab => ?_
  subst hab
  cases b with
  | true => exact bind (P := fun _ _ => False) (raise ht _) fun _ _ h => h.elim
  | false =>
    refine update fun m m' hm => ?_
    rw [hm.frame]
    exact hm.setVariable m.frame t.lexeme hv

theorem write (ht : t.SameWord t') (text : String) :
    InStep link (Eval.write t text) (Eval.write t' text) (fun _ _ => True) := by
  intro m m' hm
  unfold Eval.write
  rw [hm.sink]
  cases m.sink.write text with
  | none => exact raise ht _ hm
  | some sink => exact .ok (hm.withSink sink) trivial

end

end InStep

end ScopedScript
