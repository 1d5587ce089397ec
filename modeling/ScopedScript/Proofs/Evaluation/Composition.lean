import ScopedScript.Proofs.Simulation.Visits

/-! # How evaluations are put together

Every part of the evaluator is put together in the same few ways, and this module says so once, so
that a property of all evaluations is an induction over these ways and not over the evaluator.

* An *elementary* step hands nothing to an interpreter.  It stays in the current frame, leaves the
  frames at a later stage, does not look at the depth of calls, and stops only for faults other than
  a stack overflow (`Eval.Elementary`).
* An evaluation is *composed* of elementary steps and tasks, one after the other, some of them in
  another frame (`Composed`).  Which tasks it hands to the interpreter is bounded by a predicate.
* Carrying out any task other than a call is composed, and the tasks inside are smaller, loops apart
  (`step_composed`).  A call checks the number of arguments and the depth, and then does something
  composed one level deeper (`callValue_allowed`, `invoke_composed`).

What follows for a composed evaluation is what its interpreter gives: the current frame and the
depth stay if they do in every task, and hence they do (`run_stays`); a failure that is not
elementary is that of a task that was called, and the other way round. -/

namespace ScopedScript

namespace Eval

variable {α β : Type}

/-- The machine that a step leaves behind. -/
def leaves : EStateM.Result Stop Machine α → Machine
  | .ok _ m => m
  | .error _ m => m

/-- A result with another depth in the machine. -/
def atDepth (depth : Nat) : EStateM.Result Stop Machine α → EStateM.Result Stop Machine α
  | .ok a m => .ok a { m with depth := depth }
  | .error e m => .error e { m with depth := depth }

/-- The step stays in its frame and at its depth. -/
def Stays (x : Eval α) : Prop :=
  ∀ m, (leaves (x m)).frame = m.frame ∧ (leaves (x m)).depth = m.depth

section

variable {x : Eval α} {k : α → Eval β} {m m₁ : Machine}

theorem bind_ok {a : α} (h : x m = .ok a m₁) : (x >>= k) m = k a m₁ := by
  change EStateM.bind x k m = _
  rw [EStateM.bind, h]

theorem bind_error {e : Stop} (h : x m = .error e m₁) : (x >>= k) m = .error e m₁ := by
  change EStateM.bind x k m = _
  rw [EStateM.bind, h]

theorem inFrame_ok {g : FrameId} {a : α} (h : x { m with frame := g } = .ok a m₁) :
    inFrame g x m = .ok a { m₁ with frame := m.frame } := by
  simp only [inFrame, h]

theorem inFrame_error {g : FrameId} {e : Stop} (h : x { m with frame := g } = .error e m₁) :
    inFrame g x m = .error e { m₁ with frame := m.frame } := by
  simp only [inFrame, h]

theorem asCall_error {e : Stop} (h : x { m with depth := m.depth + 1 } = .error e m₁) :
    asCall x m = .error e { m₁ with depth := m₁.depth - 1 } := by
  simp only [asCall, h]

theorem error_of_asCall {e : Stop} (h : asCall x m = .error e m₁) :
    ∃ m₂, x { m with depth := m.depth + 1 } = .error e m₂ := by
  unfold asCall at h
  split at h
  · cases h
  · next m₂ heq =>
    obtain ⟨rfl, -⟩ := EStateM.Result.error.inj h
    exact ⟨m₂, heq⟩

/-- Reading a variable that is there. -/
theorem readVariable_of_lookup? {id : NodeId} {t : Token} {v : Value}
    (h : m.lookup? id t.lexeme = some v) : readVariable id t m = .ok v m := by
  have hinspect : inspect (·.lookup? id t.lexeme) m = .ok (some v) m :=
    congrArg (EStateM.Result.ok · m) h
  exact (bind_ok hinspect).trans rfl

theorem writeVariable_bound {id : NodeId} {g : FrameId} {t : Token} (value : Value)
    (hg : m.home? id = some g) (hv : (m.vars g).has t.lexeme = true) :
    writeVariable id t value m = .ok () (m.setVariable g t.lexeme value) := by
  refine (bind_ok (a := some g) (?_ : _ = EStateM.Result.ok _ m)).trans rfl
  simp [inspect, hg, hv]

theorem writeVariable_unbound {id : NodeId} {g : FrameId} {t : Token} (value : Value)
    (hg : m.home? id = some g) (hv : (m.vars g).has t.lexeme = false) :
    writeVariable id t value m = .error (.raised ⟨.undefinedVariable t.lexeme, t⟩) m := by
  refine (bind_ok (a := none) (?_ : _ = EStateM.Result.ok _ m)).trans rfl
  simp [inspect, hg, hv]

theorem writeVariable_homeless {id : NodeId} {t : Token} (value : Value)
    (hg : m.home? id = none) :
    writeVariable id t value m = .error (.raised ⟨.undefinedVariable t.lexeme, t⟩) m := by
  refine (bind_ok (a := none) (?_ : _ = EStateM.Result.ok _ m)).trans rfl
  simp [inspect, hg]

/-- Writing a variable gives a value to one that is there, or fails. -/
theorem writeVariable_cases (id : NodeId) (t : Token) (value : Value) (m : Machine) :
    writeVariable id t value m = .error (.raised ⟨.undefinedVariable t.lexeme, t⟩) m ∨
      ∃ g, (m.vars g).has t.lexeme = true ∧
        writeVariable id t value m = .ok () (m.setVariable g t.lexeme value) := by
  cases hg : m.home? id with
  | none => exact .inl (writeVariable_homeless value hg)
  | some g =>
    cases hv : (m.vars g).has t.lexeme with
    | true => exact .inr ⟨g, hv, writeVariable_bound value hg hv⟩
    | false => exact .inl (writeVariable_unbound value hg hv)

/-- A declaration that succeeds sets the variable. -/
theorem declareVariable_ok {name : Token} {v : Value} {m' : Machine} {u : Unit}
    (h : declareVariable name v m = .ok u m') : m' = m.setVariable m.frame name.lexeme v := by
  have hlook : inspect (fun m => (m.vars m.frame).has name.lexeme) m =
      .ok ((m.vars m.frame).has name.lexeme) m := rfl
  unfold declareVariable at h
  rw [bind_ok hlook] at h
  cases hhas : (m.vars m.frame).has name.lexeme with
  | true =>
    rw [hhas] at h
    cases h
  | false =>
    rw [hhas] at h
    exact (EStateM.Result.ok.inj h).2.symm

/-- A declaration of a name that the frame does not have succeeds. -/
theorem declareVariable_free {name : Token} (v : Value)
    (h : (m.vars m.frame).has name.lexeme = false) :
    declareVariable name v m = .ok () (m.setVariable m.frame name.lexeme v) := by
  have hlook : inspect (fun m => (m.vars m.frame).has name.lexeme) m =
      .ok ((m.vars m.frame).has name.lexeme) m := rfl
  unfold declareVariable
  rw [bind_ok hlook, h]
  rfl

/-- A call comes back to the depth it was made at. -/
theorem Stays.asCall (h : x.Stays) : (asCall x).Stays := by
  intro m
  have hx := h { m with depth := m.depth + 1 }
  unfold Eval.asCall
  cases hr : x { m with depth := m.depth + 1 } with
  | ok a m₁ =>
    rw [hr] at hx
    exact ⟨hx.1, congrArg (· - 1) hx.2⟩
  | error e m₁ =>
    rw [hr] at hx
    exact ⟨hx.1, congrArg (· - 1) hx.2⟩

/-- A step in another frame comes back. -/
theorem leaves_inFrame (g : FrameId) (x : Eval α) (m : Machine) :
    leaves (inFrame g x m) = { leaves (x { m with frame := g }) with frame := m.frame } := by
  cases h : x { m with frame := g } with
  | ok a m₁ => rw [inFrame_ok h, leaves, leaves]
  | error e m₁ => rw [inFrame_error h, leaves, leaves]

end

/-! ### Elementary steps -/

end Eval

/-- A fault that an elementary step may have, if it takes certain risks. -/
@[simp] def RuntimeFault.Plain (risks : RuntimeFault → Prop) : RuntimeFault → Prop
  | .stackOverflow => False
  | .alreadyDeclared name => risks (.alreadyDeclared name)
  | .parameterDeclared name => risks (.parameterDeclared name)
  | _ => True

/-- The names of the parameters are distinct, or else a fault may come of it. -/
def FunctionDecl.Bindable (risks : RuntimeFault → Prop) (d : FunctionDecl) : Prop :=
  (d.params.map Parameter.name).Nodup ∨ ∀ name, risks (.parameterDeclared name)

theorem FunctionDecl.bindable (d : FunctionDecl) : d.Bindable fun _ => True := .inr fun _ => trivial

/-- The functions that a call of the value may run: of a class, the methods. -/
def Value.functions : Value → List FunctionDecl
  | .function k => [k.declaration]
  | .method b => [b.declaration]
  | .cls k => k.declaration.methods
  | _ => []

namespace Eval

variable {α β : Type}

/-- A step that hands nothing to an interpreter.  If it is `watched`, it leaves alone what frames
hold.  It declares a name only if it `risks` that the name is declared already. -/
structure Elementary (x : Eval α) (watched : Prop) (risks : RuntimeFault → Prop) : Prop where
  frame : ∀ m, (leaves (x m)).frame = m.frame
  later : ∀ m, Later watched m.frames (leaves (x m)).frames
  adds : ∀ m, Adds (fun name => risks (.alreadyDeclared name)) m.frame m.frames
    (leaves (x m)).frames
  /-- It makes no use of the depth. -/
  blind : ∀ m depth, x { m with depth := depth } = atDepth depth (x m)
  fault : ∀ m e m', x m = .error e m' → ∃ error, e = .raised error ∧ error.fault.Plain risks

namespace Elementary

variable {watched : Prop} {risks : RuntimeFault → Prop}

theorem stays {x : Eval α} (h : x.Elementary watched risks) : x.Stays := by
  refine fun m => ⟨h.frame m, ?_⟩
  -- the step does the same if the depth is set to what it is anyway
  have hblind : x m = atDepth m.depth (x m) := h.blind m m.depth
  rw [hblind]
  cases x m <;> rfl

theorem pure (a : α) : (Pure.pure a : Eval α).Elementary watched risks where
  frame _ := rfl
  later _ := .refl _
  adds _ := .refl _
  blind _ _ := rfl
  fault _ _ _ h := by cases h

theorem raise (token : Token) {fault : RuntimeFault} (h : fault.Plain risks) :
    (Eval.raise token fault : Eval α).Elementary watched risks where
  frame _ := rfl
  later _ := .refl _
  adds _ := .refl _
  blind _ _ := rfl
  fault _ _ _ heq := by
    cases heq
    exact ⟨_, rfl, h⟩

theorem bind {x : Eval α} {k : α → Eval β} (hx : x.Elementary watched risks)
    (hk : ∀ m a m', x m = .ok a m' → (k a).Elementary watched risks) :
    (x >>= k).Elementary watched risks where
  frame m := by
    cases h : x m with
    | ok a m₁ =>
      have hf := hx.frame m
      rw [bind_ok h, (hk m a m₁ h).frame]
      rwa [h] at hf
    | error e m₁ =>
      have hf := hx.frame m
      rw [bind_error h]
      rwa [h] at hf
  later m := by
    have hl := hx.later m
    cases h : x m with
    | ok a m₁ =>
      rw [h] at hl
      rw [bind_ok h]
      exact hl.trans ((hk m a m₁ h).later m₁)
    | error e m₁ =>
      rw [h] at hl
      rwa [bind_error h]
  adds m := by
    have hf := hx.frame m
    have hl := hx.later m
    have ha := hx.adds m
    cases h : x m with
    | ok a m₁ =>
      rw [h] at hf hl ha
      rw [bind_ok h]
      have hrest := (hk m a m₁ h).adds m₁
      rw [show m₁.frame = m.frame from hf] at hrest
      exact ha.trans hl.frames hrest
    | error e m₁ =>
      rw [h] at ha
      rwa [bind_error h]
  blind m depth := by
    have hblind := hx.blind m depth
    cases h : x m with
    | ok a m₁ =>
      rw [h] at hblind
      rw [bind_ok h, bind_ok hblind, (hk m a m₁ h).blind]
    | error e m₁ =>
      rw [h] at hblind
      rw [bind_error h, bind_error hblind]
      rfl
  fault m e m' heq := by
    cases h : x m with
    | ok a m₁ =>
      rw [bind_ok h] at heq
      exact (hk m a m₁ h).fault _ _ _ heq
    | error e₁ m₁ =>
      rw [bind_error h] at heq
      obtain ⟨rfl, -⟩ := EStateM.Result.error.inj heq
      exact hx.fault m _ _ h

theorem orRaise (token : Token) {fault : RuntimeFault} (h : fault.Plain risks)
    (o : Option α) : (Eval.orRaise token fault o).Elementary watched risks := by
  cases o with
  | none => exact .raise token h
  | some a => exact .pure a

/-- Looking at anything but the depth. -/
theorem inspect {f : Machine → α} (h : ∀ m depth, f { m with depth := depth } = f m) :
    (Eval.inspect f).Elementary watched risks where
  frame _ := rfl
  later _ := .refl _
  adds _ := .refl _
  blind m depth := by simp only [Eval.inspect, atDepth, h]
  fault _ _ _ heq := by cases heq

/-- Changing anything but the current frame and the depth. -/
theorem update {u : Machine → Machine} (hf : ∀ m, (u m).frame = m.frame)
    (hl : ∀ m, Later watched m.frames (u m).frames)
    (ha : ∀ m, Adds (fun name => risks (.alreadyDeclared name)) m.frame m.frames (u m).frames)
    (h : ∀ m depth, u { m with depth := depth } = { u m with depth := depth }) :
    (modify u : Eval PUnit).Elementary watched risks where
  frame m := hf m
  later m := hl m
  adds m := ha m
  blind m depth := by
    change EStateM.Result.ok _ (u { m with depth := depth }) = .ok _ { u m with depth := depth }
    rw [h]
  fault _ _ _ heq := by cases heq

theorem newList (elements : Array Value) : (Eval.newList elements).Elementary watched risks :=
  ⟨fun _ => rfl, fun _ => .refl _, fun _ => .refl _, fun _ _ => rfl, fun _ _ _ h => by cases h⟩

theorem newRecord (record : Record Value) : (Eval.newRecord record).Elementary watched risks :=
  ⟨fun _ => rfl, fun _ => .refl _, fun _ => .refl _, fun _ _ => rfl, fun _ _ _ h => by cases h⟩

theorem newFrame (region : Region) (parent : FrameId) (vars : Record Value)
    (hproper : watched → Frame.Proper ⟨region, some parent, vars⟩) :
    (Eval.newFrame region parent vars).Elementary watched risks :=
  ⟨fun _ => rfl, fun _ => .push _ hproper, fun _ => .push _ _, fun _ _ => rfl,
    fun _ _ _ h => by cases h⟩

theorem newIdentity : Eval.newIdentity.Elementary watched risks :=
  ⟨fun _ => rfl, fun _ => .refl _, fun _ => .refl _, fun _ _ => rfl, fun _ _ _ h => by cases h⟩

theorem readVariable (id : NodeId) (name : Token) :
    (Eval.readVariable id name).Elementary watched risks :=
  (inspect fun _ _ => rfl).bind fun _ _ _ _ => .orRaise _ (by simp) _

theorem writeVariable (id : NodeId) (name : Token) (value : Value)
    (hthis : watched → name.lexeme ≠ "this") :
    (Eval.writeVariable id name value).Elementary watched risks where
  frame m := by
    rcases writeVariable_cases id name value m with h | ⟨g, _, h⟩ <;> rw [h] <;> rfl
  later m := by
    rcases writeVariable_cases id name value m with h | ⟨g, _, h⟩ <;> rw [h]
    · exact .refl _
    · exact .setVariable _ _ fun hw => .inl (hthis hw)
  adds m := by
    rcases writeVariable_cases id name value m with h | ⟨g, hhas, h⟩ <;> rw [h]
    · exact .refl _
    · obtain ⟨frame, hframe⟩ := Machine.frame_of_has hhas
      rw [Machine.vars, hframe] at hhas
      exact .setVariable _ _ (.inl ⟨frame, hframe, hhas⟩)
  blind m depth := by
    have hhome : Machine.home? { m with depth := depth } id = m.home? id := rfl
    cases hg : m.home? id with
    | none => rw [writeVariable_homeless _ hg, writeVariable_homeless _ (hhome.trans hg), atDepth]
    | some g =>
      cases hv : (m.vars g).has name.lexeme with
      | true => rw [writeVariable_bound _ hg hv, writeVariable_bound _ (hhome.trans hg) hv]; rfl
      | false =>
        rw [writeVariable_unbound _ hg hv, writeVariable_unbound _ (hhome.trans hg) hv, atDepth]
  fault m e m' heq := by
    rcases writeVariable_cases id name value m with h | ⟨g, _, h⟩ <;> rw [h] at heq
    · obtain ⟨rfl, -⟩ := EStateM.Result.error.inj heq
      exact ⟨_, rfl, by simp⟩
    · cases heq

theorem declareVariable (name : Token) (value : Value)
    (hthis : watched → name.lexeme ≠ "this") (hname : risks (.alreadyDeclared name.lexeme)) :
    (Eval.declareVariable name value).Elementary watched risks := by
  refine (inspect fun _ _ => rfl).bind fun _ declared _ _ => ?_
  have hset : (modify fun m => m.setVariable m.frame name.lexeme value :
      Eval PUnit).Elementary watched risks :=
    .update (fun _ => rfl) (fun _ => .setVariable _ _ fun hw => .inl (hthis hw))
      (fun _ => .setVariable _ _ (.inr ⟨rfl, hname⟩)) fun _ _ => rfl
  have hraise : (Eval.raise name (.alreadyDeclared name.lexeme) : Eval PUnit).Elementary watched risks :=
    raise name hname
  cases declared with
  | true => exact hraise.bind fun _ _ _ _ => hset
  | false => exact hset

theorem write (site : Token) (text : String) : (Eval.write site text).Elementary watched risks where
  frame m := by
    unfold Eval.write
    split <;> rfl
  later m := by
    unfold Eval.write
    split <;> exact .refl _
  adds m := by
    unfold Eval.write
    split <;> exact .refl _
  blind m depth := by
    unfold Eval.write
    dsimp only
    split <;> rfl
  fault m e m' h := by
    unfold Eval.write at h
    split at h
    · cases h
    · have hraise : (Eval.raise site .sinkFull : Eval Unit).Elementary watched risks :=
        raise site (by simp)
      exact hraise.fault _ _ _ h

end Elementary

end Eval

/-! ### Parts of statements -/

/-- The statement of a property of an object statement. -/
def StmtEntry.stmt : StmtEntry → Stmt
  | .mk _ s => s

/-- The statements that executing a statement may execute.  The body of a loop is not among them,
but belongs to the task of the loop. -/
def Stmt.parts : Stmt → List Stmt
  | .block statements => statements
  | .variable _ _ _ init => init.toList
  | .cond _ _ thenBranch elseBranch => thenBranch :: elseBranch.toList
  | .object properties => properties.map StmtEntry.stmt
  | _ => []

theorem Stmt.sizeOf_part {s s' : Stmt} (h : s' ∈ s.parts) : sizeOf s' < sizeOf s := by
  cases s with
  | block ss =>
    have hlt : sizeOf s' < sizeOf ss := List.sizeOf_lt_of_mem h
    simp only [Stmt.block.sizeOf_spec]
    omega
  | «variable» name kind ty init =>
    obtain rfl := Option.mem_toList.1 h
    simp only [Stmt.variable.sizeOf_spec, Option.some.sizeOf_spec]
    omega
  | cond keyword condition thenBranch elseBranch =>
    rcases List.mem_cons.1 h with rfl | h
    · simp only [Stmt.cond.sizeOf_spec]
      omega
    · obtain rfl := Option.mem_toList.1 h
      simp only [Stmt.cond.sizeOf_spec, Option.some.sizeOf_spec]
      omega
  | object properties =>
    obtain ⟨⟨key, s⟩, hmem, rfl⟩ := List.mem_map.1 h
    have hlt := List.sizeOf_lt_of_mem hmem
    simp only [StmtEntry.mk.sizeOf_spec] at hlt
    simp only [Stmt.object.sizeOf_spec, StmtEntry.stmt]
    omega
  | _ => cases h

namespace Evaluation

open Eval

/-! ### Elementary parts of the evaluator -/

section

variable {watched : Prop} {risks : RuntimeFault → Prop}

theorem liftAt_elementary {α : Type} (token : Token) {r : Except RuntimeFault α}
    (h : ∀ fault, r = .error fault → fault.Plain risks) :
    (liftAt token r).Elementary watched risks := by
  cases r with
  | ok a => exact .pure a
  | error fault => exact .raise token (h fault rfl)

theorem numbers_fault {operator : Token} {v w : Value} {k : Float × Float → Except RuntimeFault Value}
    {fault : RuntimeFault} (hk : ∀ p, k p = .error fault → fault.Plain risks)
    (h : numbers operator v w >>= k = .error fault) : fault.Plain risks := by
  cases hn : numbers operator v w with
  | ok p =>
    rw [hn] at h
    exact hk p h
  | error fault₁ =>
    rw [hn] at h
    obtain rfl : fault₁ = fault := Except.error.inj h
    unfold numbers at hn
    split at hn
    · cases hn
    · cases hn
      simp

theorem applyBinary_fault {h : Heap} {operator : Token} {v w : Value} {fault : RuntimeFault}
    (heq : applyBinary h operator v w = .error fault) : fault.Plain risks := by
  unfold applyBinary at heq
  split at heq
  case h_1 =>
    unfold add at heq
    split at heq <;> cases heq
    simp
  case h_4 =>
    refine numbers_fault (fun p hp => ?_) heq
    simp only [divide] at hp
    split at hp <;> cases hp
    simp
  case h_9 | h_10 => cases heq
  case h_11 =>
    cases heq
    simp
  all_goals
    refine numbers_fault (fun p hp => ?_) heq
    cases hp

theorem applyUnary_fault {operator : Token} {v : Value} {fault : RuntimeFault}
    (heq : applyUnary operator v = .error fault) : fault.Plain risks := by
  unfold applyUnary at heq
  split at heq <;> cases heq <;> simp

theorem logicalOperand_elementary (operator : Token) (v : Value) :
    (logicalOperand operator v).Elementary watched risks := by
  unfold logicalOperand
  split
  · exact .pure _
  · exact .raise _ (by simp)

theorem position_elementary (name : Token) (index : Value) :
    (position name index).Elementary watched risks := by
  unfold position
  split
  · split
    · exact .pure _
    · exact .raise _ (by simp)
  · exact (Elementary.inspect fun _ _ => rfl).bind fun _ _ _ _ => .raise _ (by simp)

theorem readElement_elementary (name : Token) (target index : Value) :
    (readElement name target index).Elementary watched risks := by
  unfold readElement
  split
  · refine (position_elementary name index).bind fun _ place _ _ => ?_
    cases place with
    | none => exact .pure _
    | some i => exact .inspect fun _ _ => rfl
  · exact .raise _ (by simp)

theorem writeElement_elementary (name : Token) (target index value : Value) :
    (writeElement name target index value).Elementary watched risks := by
  unfold writeElement
  split
  · refine (position_elementary name index).bind fun _ place _ _ => ?_
    refine (Elementary.inspect fun _ _ => rfl).bind fun _ length _ _ => ?_
    split
    · exact .update (fun _ => rfl) (fun _ => .refl _) (fun _ => .refl _) fun _ _ => rfl
    · exact (Elementary.inspect fun _ _ => rfl).bind fun _ _ _ _ => .raise _ (by simp)
  · exact .raise _ (by simp)

theorem writeRecord_elementary (ref : Ref) (name : String) (value : Value) :
    (writeRecord ref name value).Elementary watched risks :=
  .update (fun _ => rfl) (fun _ => .refl _) (fun _ => .refl _) fun _ _ => rfl

theorem fieldsOf_elementary (name : Token) (v : Value) :
    (fieldsOf name v).Elementary watched risks := by
  unfold fieldsOf
  split
  · exact .pure _
  · exact .pure _
  · exact .raise _ (by simp)

theorem bindThis_elementary (i : Instance) : (bindThis i).Elementary watched risks :=
  .newFrame _ _ _ fun _ => .receiver i

theorem bindMethod_elementary (i : Instance) (declaration : FunctionDecl) :
    (bindMethod i declaration).Elementary watched risks :=
  (bindThis_elementary i).bind fun _ _ _ _ => Elementary.newIdentity.bind fun _ _ _ _ => .pure _

theorem instanceProperty_elementary (i : Instance) (name : Token) :
    (instanceProperty i name).Elementary watched risks := by
  unfold instanceProperty
  refine (Elementary.inspect fun _ _ => rfl).bind fun _ found _ _ => ?_
  cases found with
  | some v => exact .pure v
  | none =>
    dsimp only
    split
    · exact (bindMethod_elementary i _).bind fun _ _ _ _ => .pure _
    · exact .raise _ (by simp)

theorem objectProperty_elementary (ref : Ref) (name : Token) :
    (objectProperty ref name).Elementary watched risks :=
  (Elementary.inspect fun _ _ => rfl).bind fun _ _ _ _ => .orRaise _ (by simp) _

theorem bindParameters_elementary {ps : List Parameter} {vars : Record Value} (vs : List Value)
    (h : ((ps.map Parameter.name).Nodup ∧ ∀ p ∈ ps, vars.has p.name = false) ∨
      ∀ name, risks (.parameterDeclared name)) :
    (bindParameters ps vs vars).Elementary watched risks := by
  fun_induction bindParameters ps vs vars with
  | case1 p ps v vs vars hhas =>
    refine .raise _ (h.elim (fun h => ?_) fun h => h p.name)
    rw [h.2 p List.mem_cons_self] at hhas
    cases hhas
  | case2 p ps v vs vars _ ih =>
    refine ih (h.imp_left fun ⟨hnodup, hfree⟩ => ?_)
    obtain ⟨hp, hps⟩ := List.nodup_cons.1 hnodup
    refine ⟨hps, fun q hq => ?_⟩
    have hne : (q.name == p.name) = false :=
      beq_false_of_ne fun heq => hp (heq ▸ List.mem_map_of_mem hq)
    rw [Record.has_set, hne, Bool.false_or, hfree q (List.mem_cons_of_mem p hq)]
  | case3 => exact .pure _

theorem readLine_elementary (site : Token) : (readLine site).Elementary watched risks := by
  refine (Elementary.inspect fun _ _ => rfl).bind fun _ (line, rest) _ _ => ?_
  refine .bind (.update (fun _ => rfl) (fun _ => .refl _) (fun _ => .refl _) fun _ _ => rfl)
    fun _ _ _ _ => ?_
  split
  · exact .raise _ (by simp)
  · exact .pure _

theorem printLine_elementary (site : Token) (text : String) :
    (printLine site text).Elementary watched risks := by
  have hfeed : (do Eval.write site "\n"; return Value.undefined : Eval Value).Elementary watched risks :=
    (Elementary.write site _).bind fun _ _ _ _ => .pure _
  simp only [printLine]
  split
  · exact (Elementary.write site text).bind fun _ _ _ _ => hfeed
  · exact hfeed

theorem lengthOf_elementary (site : Token) (v : Value) :
    (lengthOf site v).Elementary watched risks := by
  unfold lengthOf
  split
  · exact (Elementary.inspect fun _ _ => rfl).bind fun _ _ _ _ => .pure _
  · exact .pure _
  · exact .raise _ (by simp)

theorem pushElement_elementary (site : Token) (target value : Value) :
    (pushElement site target value).Elementary watched risks := by
  unfold pushElement
  split
  · refine .bind (.update (fun _ => rfl) (fun _ => .refl _) (fun _ => .refl _) fun _ _ => rfl)
      fun _ _ _ _ => ?_
    exact lengthOf_elementary _ _
  · exact .raise _ (by simp)

theorem readClock_elementary (site : Token) : (readClock site).Elementary watched risks :=
  (Elementary.inspect fun _ _ => rfl).bind fun _ _ _ _ =>
    .bind (.update (fun _ => rfl) (fun _ => .refl _) (fun _ => .refl _) fun _ _ => rfl)
      fun _ _ _ _ => .bind (.orRaise _ (by simp) _) fun _ _ _ _ => .pure _

theorem deliver_elementary (answer : HostAnswer) : (deliver answer).Elementary watched risks := by
  obtain ⟨result, heap⟩ := answer
  cases result with
  | ok v =>
    exact ⟨fun _ => rfl, fun _ => .refl _, fun _ => .refl _, fun _ _ => rfl, fun _ _ _ h => by cases h⟩
  | error e =>
    refine ⟨fun _ => rfl, fun _ => .refl _, fun _ => .refl _, fun _ _ => rfl, fun _ _ _ h => ?_⟩
    obtain ⟨rfl, -⟩ := EStateM.Result.error.inj h
    exact ⟨_, rfl, trivial⟩

theorem callHost_elementary (index : Nat) (held : Value) (site : Token) (args : List Value) :
    (callHost index held site args).Elementary watched risks := by
  refine (Elementary.inspect fun _ _ => rfl).bind fun _ f _ _ => ?_
  cases f with
  | none => exact .pure _
  | some f => exact (Elementary.inspect fun _ _ => rfl).bind fun _ _ _ _ => deliver_elementary _

theorem runNative_elementary (action : NativeAction) (site : Token) (args : List Value) :
    (runNative action site args).Elementary watched risks := by
  unfold runNative
  split
  · exact (Elementary.inspect fun _ _ => rfl).bind fun _ _ _ _ => printLine_elementary _ _
  · exact readLine_elementary site
  · exact lengthOf_elementary _ _
  · exact pushElement_elementary _ _ _
  · exact readClock_elementary site
  · exact callHost_elementary _ _ site _
  · exact .pure _

theorem evalFunction_elementary (declaration : FunctionDecl) :
    (evalFunction declaration).Elementary watched risks :=
  Elementary.newIdentity.bind fun _ _ _ _ =>
    (Elementary.inspect fun _ _ => rfl).bind fun _ _ _ _ => .pure _

theorem execFunction_elementary (declaration : FunctionDecl)
    (hthis : watched → declaration.name.lexeme ≠ "this")
    (hname : risks (.alreadyDeclared declaration.name.lexeme)) :
    (execFunction declaration).Elementary watched risks :=
  Elementary.newIdentity.bind fun _ _ _ _ =>
    (Elementary.inspect fun _ _ => rfl).bind fun _ _ _ _ =>
      (Elementary.declareVariable _ _ hthis hname).bind fun _ _ _ _ => .pure _

theorem execClass_elementary (declaration : ClassDecl)
    (hthis : watched → declaration.name.lexeme ≠ "this")
    (hname : risks (.alreadyDeclared declaration.name.lexeme)) :
    (execClass declaration).Elementary watched risks :=
  Elementary.newIdentity.bind fun _ _ _ _ =>
    (Elementary.inspect fun _ _ => rfl).bind fun _ _ _ _ =>
      (Elementary.declareVariable _ _ hthis hname).bind fun _ _ _ _ => .pure _

end

/-! ### Composed evaluations -/

/-- Is the task to call a value? -/
def Task.isCall : {α : Type} → Task α → Bool
  | _, .call _ _ _ => true
  | _, _ => false

/-- An evaluation that is put together from elementary steps and from tasks among `Q`.  `moves` says
whether some of it may be carried out in another frame, `watched` whether its steps leave alone what
frames hold, and `risks` which faults of declarations they may have. -/
inductive Composed (Q : {α : Type} → Task α → Prop) (moves watched : Prop)
    (risks : RuntimeFault → Prop) : {α : Type} → (Interpreter → Eval α) → Prop
  | elementary {α : Type} {x : Eval α} : x.Elementary watched risks →
      Composed Q moves watched risks fun _ => x
  | task {α : Type} {t : Task α} : Q t → Composed Q moves watched risks fun self => self t
  | bind {α β : Type} {x : Interpreter → Eval α} {k : Interpreter → α → Eval β} :
      Composed Q moves watched risks x → (∀ a, Composed Q moves watched risks fun self => k @self a) →
      Composed Q moves watched risks fun self => x @self >>= k @self
  | inFrame {α : Type} {x : Interpreter → Eval α} (g : FrameId) : moves →
      Composed Q moves watched risks x →
      Composed Q moves watched risks fun self => Eval.inFrame g (x @self)

section

variable {Q : {α : Type} → Task α → Prop} {moves watched : Prop} {risks : RuntimeFault → Prop}

theorem evalExprs_composed {es : List Expr} (h : ∀ e ∈ es, Q (.expr e)) :
    Composed Q moves watched risks fun self => evalExprs @self es := by
  induction es with
  | nil => exact .elementary (.pure [])
  | cons e es ih =>
    obtain ⟨he, hes⟩ := List.forall_mem_cons.1 h
    simp only [evalExprs]
    exact .bind (.task he) fun v => .bind (ih hes) fun vs => .elementary (.pure (v :: vs))

theorem evalEntries_composed {es : List Entry} (h : ∀ e ∈ es, Q (.expr e.value)) :
    Composed Q moves watched risks fun self => evalEntries @self es := by
  induction es with
  | nil => exact .elementary (.pure [])
  | cons entry es ih =>
    obtain ⟨key, value⟩ := entry
    obtain ⟨he, hes⟩ := List.forall_mem_cons.1 h
    simp only [evalEntries]
    exact .bind (.task he) fun v => .bind (ih hes) fun r => .elementary (.pure _)

theorem evalBinary_composed {left right : Expr} (operator : Token) (hl : Q (.expr left))
    (hr : Q (.expr right)) :
    Composed Q moves watched risks fun self => evalBinary @self left operator right := by
  refine .bind (.task hl) fun v => .bind (.task hr) fun w => .elementary ?_
  refine (Elementary.inspect fun _ _ => rfl).bind fun m r _ hr => ?_
  obtain ⟨rfl, -⟩ := EStateM.Result.ok.inj hr
  exact liftAt_elementary operator fun fault => applyBinary_fault

theorem evalLogical_composed {left right : Expr} (operator : Token) (hl : Q (.expr left))
    (hr : Q (.expr right)) :
    Composed Q moves watched risks fun self => evalLogical @self left operator right := by
  refine .bind (.task hl) fun v => ?_
  refine .bind (.elementary (logicalOperand_elementary operator v)) fun b => ?_
  split
  · exact .elementary (.pure _)
  · refine .bind (.task hr) fun w => ?_
    exact .bind (.elementary (logicalOperand_elementary operator w)) fun c =>
      .elementary (.pure _)

theorem evalLiteral_composed {v : LiteralValue}
    (h : ∀ es, v = .list es → ∀ e ∈ es, Q (.expr e)) :
    Composed Q moves watched risks fun self => evalLiteral @self v := by
  cases v with
  | list es =>
    exact .bind (evalExprs_composed (h es rfl)) fun vs => .elementary (.newList vs.toArray)
  | emptyObject => exact .elementary ((Elementary.newRecord []).bind fun _ _ _ _ => .pure _)
  | _ => exact .elementary (.pure _)

/-- An expression, by the expressions in it. -/
theorem evalExpr_composed (e : Expr) (hsub : ∀ e', sizeOf e' < sizeOf e → Q (.expr e'))
    (hcall : ∀ v site args, Q (.call v site args)) (hproperty : ∀ v name, Q (.property v name))
    (hthis : watched → (Node.expr e).SparesThis) :
    Composed Q moves watched risks fun self => evalExpr @self e := by
  cases e with
  | grouping inner => exact .task (hsub inner (by simp))
  | binary left operator right =>
    have hl := hsub left (by simp only [Expr.binary.sizeOf_spec]; omega)
    have hr := hsub right (by simp only [Expr.binary.sizeOf_spec]; omega)
    simp only [evalExpr]
    split
    · exact evalLogical_composed operator hl hr
    · exact evalBinary_composed operator hl hr
  | unary operator operand =>
    have hlt : sizeOf operand < sizeOf (Expr.unary operator operand) := by
      simp only [Expr.unary.sizeOf_spec]
      omega
    refine .bind (.task (hsub operand hlt)) fun v => .elementary ?_
    exact liftAt_elementary operator fun fault => applyUnary_fault
  | literal kind value =>
    refine evalLiteral_composed fun es hes e he => hsub e ?_
    have hmem := List.sizeOf_lt_of_mem he
    subst hes
    simp only [Expr.literal.sizeOf_spec, LiteralValue.list.sizeOf_spec]
    omega
  | name id token => exact .elementary (.readVariable id token)
  | this id keyword => exact .elementary (.readVariable id keyword)
  | function token declaration => exact .elementary (evalFunction_elementary declaration)
  | call callee paren args =>
    refine .bind (.task (hsub callee (by simp only [Expr.call.sizeOf_spec]; omega))) fun f => ?_
    refine .bind (evalExprs_composed fun e he => hsub e ?_) fun vs => .task (hcall f paren vs)
    have hmem := List.sizeOf_lt_of_mem he
    simp only [Expr.call.sizeOf_spec]
    omega
  | index id name index =>
    refine .bind (.elementary (.readVariable id name)) fun v => ?_
    exact .bind (.task (hsub index (by simp only [Expr.index.sizeOf_spec]; omega))) fun w =>
      .elementary (readElement_elementary name v w)
  | get object name =>
    have hlt : sizeOf object < sizeOf (Expr.get object name) := by
      simp only [Expr.get.sizeOf_spec]
      omega
    exact .bind (.task (hsub object hlt)) fun v => .task (hproperty v name)
  | set object name value =>
    refine .bind (.task (hsub object (by simp only [Expr.set.sizeOf_spec]; omega))) fun v => ?_
    refine .bind (.elementary (fieldsOf_elementary name v)) fun ref => ?_
    refine .bind (.task (hsub value (by simp only [Expr.set.sizeOf_spec]; omega))) fun w => ?_
    exact .bind (.elementary (writeRecord_elementary ref name.lexeme w)) fun _ =>
      .elementary (.pure w)
  | object brace entries =>
    refine .bind (evalEntries_composed fun entry he => hsub entry.value ?_) fun r => ?_
    · have hmem := List.sizeOf_lt_of_mem he
      obtain ⟨key, value⟩ := entry
      simp only [Entry.mk.sizeOf_spec] at hmem
      simp only [Entry.value, Expr.object.sizeOf_spec]
      omega
    · exact .bind (.elementary (.newRecord r)) fun _ => .elementary (.pure _)
  | assign id name value =>
    refine .bind (.task (hsub value (by simp only [Expr.assign.sizeOf_spec]; omega))) fun v => ?_
    exact .bind (.elementary (.writeVariable id name v fun hw => (hthis hw).assigns _ _ _ rfl))
      fun _ => .elementary (.pure v)

theorem property_composed (target : Value) (name : Token)
    (hcall : ∀ v site args, Q (.call v site args)) (hproperty : ∀ v name, Q (.property v name)) :
    Composed Q moves watched risks fun self => property @self target name := by
  unfold property
  split
  · exact .elementary (instanceProperty_elementary _ name)
  · exact .elementary (objectProperty_elementary _ name)
  · split
    · exact .elementary (.raise name (by simp))
    · refine .bind (.elementary (.inspect fun _ _ => rfl)) fun found => ?_
      cases found with
      | none => exact .elementary (.raise name (by simp))
      | some c => exact .bind (.task (hcall _ _ _)) fun w => .task (hproperty w name)

theorem execAll_composed {ss : List Stmt} (h : ∀ s ∈ ss, Q (.stmt s)) :
    Composed Q moves watched risks fun self => execAll @self ss := by
  induction ss with
  | nil => exact .elementary (.pure _)
  | cons s ss ih =>
    obtain ⟨hs, hss⟩ := List.forall_mem_cons.1 h
    simp only [execAll_cons]
    refine .bind (.task hs) fun signal => ?_
    cases signal with
    | returned v => exact .elementary (.pure _)
    | proceed => exact ih hss

theorem execBlock_composed {ss : List Stmt} (hmoves : moves) (h : ∀ s ∈ ss, Q (.stmt s)) :
    Composed Q moves watched risks fun self => execBlock @self ss :=
  .bind (.elementary (.inspect fun _ _ => rfl)) fun _ => .bind
    (.elementary (.newFrame _ _ _ fun _ _ h => by cases h))
    fun g => .inFrame g hmoves (execAll_composed h)

theorem evalInit_composed {init : Option Stmt} (h : ∀ s, init = some s → Q (.stmt s))
    (hexpr : ∀ e token, init = some (.expression e token) → Q (.expr e)) :
    Composed Q moves watched risks fun self => evalInit @self init := by
  cases init with
  | none => exact .elementary (.pure _)
  | some s =>
    by_cases hs : ∃ e token, s = .expression e token
    · obtain ⟨e, token, rfl⟩ := hs
      exact .task (hexpr e token rfl)
    · have hne : ∀ e token, s ≠ .expression e token := fun e token heq => hs ⟨e, token, heq⟩
      simp only [Sims.evalInit_of_ne _ hne]
      exact .bind (.task (h s rfl)) fun _ => .elementary (.pure _)

theorem evalCondition_composed {condition : Expr} (keyword : Token) (h : Q (.expr condition)) :
    Composed Q moves watched risks fun self => evalCondition @self condition keyword := by
  refine .bind (.task h) fun v => .elementary ?_
  split
  · exact .pure _
  · exact .raise keyword (by simp)

theorem execLoop_composed {condition : Expr} {body : Stmt} (token : Token)
    (he : Q (.expr condition)) (hs : Q (.stmt body)) (hloop : Q (.loop condition body token)) :
    Composed Q moves watched risks fun self => execLoop @self condition body token := by
  refine .bind (evalCondition_composed token he) fun holds => ?_
  cases holds with
  | false => exact .elementary (.pure _)
  | true =>
    refine .bind (.task hs) fun signal => ?_
    cases signal with
    | returned v => exact .elementary (.pure _)
    | proceed => exact .task hloop

theorem execProperties_composed {ps : List StmtEntry}
    (h : ∀ s ∈ ps.map StmtEntry.stmt, Q (.stmt s)) :
    Composed Q moves watched risks fun self => execProperties @self ps := by
  induction ps with
  | nil => exact .elementary (.pure _)
  | cons entry ps ih =>
    obtain ⟨key, s⟩ := entry
    obtain ⟨hs, hps⟩ := List.forall_mem_cons.1 h
    simp only [execProperties]
    exact .bind (.task hs) fun _ => ih hps

/-- A statement, by the statements and expressions in it. -/
theorem exec_composed (s : Stmt) (hstmt : ∀ s' ∈ s.parts, Q (.stmt s'))
    (hexpr : ∀ e, sizeOf e < sizeOf s → Q (.expr e))
    (hloop : ∀ condition body token, s = .loop condition body token →
      Q (.loop condition body token)) (hblock : ∀ ss, s = .block ss → moves)
    (hthis : watched → (Node.stmt s).SparesThis)
    (hdeclares : ∀ t, s.declares? = some t → risks (.alreadyDeclared t.lexeme)) :
    Composed Q moves watched risks fun self => exec @self s := by
  cases s with
  | empty => exact .elementary (.pure _)
  | block ss => exact execBlock_composed (hblock ss rfl) hstmt
  | expression e token =>
    have hlt : sizeOf e < sizeOf (Stmt.expression e token) := by
      simp only [Stmt.expression.sizeOf_spec]
      omega
    exact .bind (.task (hexpr e hlt)) fun _ => .elementary (.pure _)
  | «variable» name kind ty init =>
    refine .bind (evalInit_composed (fun s hs => hstmt s ?_) fun e token he => hexpr e ?_) fun v => ?_
    · exact Option.mem_toList.2 hs
    · subst he
      simp only [Stmt.variable.sizeOf_spec, Option.some.sizeOf_spec, Stmt.expression.sizeOf_spec]
      omega
    · exact .bind (.elementary (.declareVariable name v (fun hw => (hthis hw).declares _ rfl)
        (hdeclares _ rfl))) fun _ => .elementary (.pure _)
  | indexAssign id name index value =>
    refine .bind (.elementary (.readVariable id name)) fun v => ?_
    refine .bind (.task (hexpr index (by simp only [Stmt.indexAssign.sizeOf_spec]; omega))) fun i => ?_
    refine .bind (.task (hexpr value (by simp only [Stmt.indexAssign.sizeOf_spec]; omega))) fun w => ?_
    exact .bind (.elementary (writeElement_elementary name v i w)) fun _ => .elementary (.pure _)
  | functionDecl declaration =>
    exact .elementary (execFunction_elementary declaration (fun hw => (hthis hw).declares _ rfl)
      (hdeclares _ rfl))
  | cond keyword condition thenBranch elseBranch =>
    have hcondition := hexpr condition (by simp only [Stmt.cond.sizeOf_spec]; omega)
    refine .bind (evalCondition_composed keyword hcondition) fun holds => ?_
    cases holds with
    | true => exact .task (hstmt thenBranch List.mem_cons_self)
    | false =>
      cases elseBranch with
      | none => exact .elementary (.pure _)
      | some s => exact .task (hstmt s (List.mem_cons_of_mem _ (List.mem_singleton_self s)))
  | loop condition body token => exact .task (hloop condition body token rfl)
  | returns keyword value =>
    by_cases hs : ∃ e token, value = .expression e token
    · obtain ⟨e, token, rfl⟩ := hs
      have hlt : sizeOf e < sizeOf (Stmt.returns keyword (.expression e token)) := by
        simp only [Stmt.returns.sizeOf_spec, Stmt.expression.sizeOf_spec]
        omega
      exact .bind (.task (hexpr e hlt)) fun v => .elementary (.pure _)
    · have hne : ∀ e token, value ≠ .expression e token := fun e token heq => hs ⟨e, token, heq⟩
      simp only [exec, Sims.execReturn_of_ne _ hne]
      exact .elementary (.pure _)
  | object properties =>
    exact execProperties_composed hstmt
  | classDecl declaration =>
    exact .elementary (execClass_elementary declaration (fun hw => (hthis hw).declares _ rfl)
      (hdeclares _ rfl))

/-! ### Calls -/

theorem runBody_composed (hmoves : moves) (hstmt : ∀ s, Q (.stmt s)) {declaration : FunctionDecl}
    (hparams : declaration.Bindable risks) (g : FrameId) (args : List Value) :
    Composed Q moves watched risks fun self => runBody @self declaration g args := by
  have hfree : ∀ p ∈ declaration.params, Record.has ([] : Record Value) p.name = false :=
    fun _ _ => rfl
  have hbind := hparams.imp_left fun h => And.intro h hfree
  refine .bind (.elementary (bindParameters_elementary args hbind)) fun vars => ?_
  refine .bind (.elementary (.newFrame _ g vars fun _ _ h => by cases h)) fun own => ?_
  refine .bind (.inFrame own hmoves (execAll_composed fun s _ => hstmt s)) fun signal =>
    .elementary ?_
  cases signal <;> exact .pure _

theorem runMethod_composed (hmoves : moves) (hstmt : ∀ s, Q (.stmt s)) {b : Method}
    (hparams : b.declaration.Bindable risks) (args : List Value) :
    Composed Q moves watched risks fun self => runMethod @self b args :=
  .bind (runBody_composed hmoves hstmt hparams b.frame args) fun _ => .elementary (.pure _)

theorem initFields_composed (hmoves : moves) (hexpr : ∀ e, Q (.expr e)) (g : FrameId) (ref : Ref)
    (fields : List FieldDecl) :
    Composed Q moves watched risks fun self => initFields @self g ref fields := by
  induction fields with
  | nil => exact .elementary (.pure _)
  | cons field fields ih =>
    obtain ⟨name, ty, init⟩ := field
    simp only [initFields]
    refine .bind (.inFrame g hmoves (.task (hexpr init))) fun v => ?_
    exact .bind (.elementary (writeRecord_elementary ref _ v)) fun _ => ih

theorem construct_composed (hmoves : moves) (hstmt : ∀ s, Q (.stmt s)) {i : Instance}
    (hparams : ∀ d ∈ i.cls.declaration.methods, d.Bindable risks) (args : List Value) :
    Composed Q moves watched risks fun self => construct @self i args := by
  unfold construct
  split
  · next declaration hmethod =>
    have hmem : declaration ∈ i.cls.declaration.methods :=
      List.mem_reverse.1 (List.mem_of_find?_eq_some hmethod)
    simp only [bindMethod, bind_assoc, pure_bind]
    refine .bind (.elementary (bindThis_elementary _)) fun g => ?_
    refine .bind (.elementary .newIdentity) fun identity => ?_
    refine .bind (runMethod_composed hmoves hstmt ?_ args) fun _ => .elementary (.pure _)
    exact hparams declaration hmem
  · exact .elementary (.pure _)

theorem instantiate_composed (hmoves : moves) (hstmt : ∀ s, Q (.stmt s)) (hexpr : ∀ e, Q (.expr e))
    {c : Class} (hparams : ∀ d ∈ c.declaration.methods, d.Bindable risks) (args : List Value) :
    Composed Q moves watched risks fun self => instantiate @self c args := by
  simp only [instantiate_eq]
  refine .bind (.elementary (.newRecord [])) fun ref => ?_
  split
  · exact construct_composed hmoves hstmt hparams args
  · refine .bind (.elementary (bindThis_elementary _)) fun g => ?_
    exact .bind (initFields_composed hmoves hexpr g ref _) fun _ =>
      construct_composed hmoves hstmt hparams args

theorem callEach_composed (hcall : ∀ v site args, Q (.call v site args)) (f : Value) (site : Token)
    (vs : List Value) : Composed Q moves watched risks fun self => callEach @self f site vs := by
  induction vs with
  | nil => exact .elementary (.pure _)
  | cons v vs ih =>
    simp only [callEach]
    exact .bind (.task (hcall f site [v])) fun w => .bind ih fun ws => .elementary (.pure _)

theorem mapList_composed (hcall : ∀ v site args, Q (.call v site args)) (site : Token)
    (args : List Value) : Composed Q moves watched risks fun self => mapList @self site args := by
  unfold mapList
  split
  · refine .bind (.elementary (.inspect fun _ _ => rfl)) fun elements => ?_
    exact .bind (callEach_composed hcall _ site elements) fun ws => .elementary (.newList _)
  · exact .elementary (.raise site (by simp))
  · exact .elementary (.pure _)

/-- What the call of a native does, in the current frame. -/
theorem invokeNative_composed (hcall : ∀ v site args, Q (.call v site args)) (n : Native)
    (site : Token) (args : List Value) :
    Composed Q moves watched risks fun self => invoke @self (.native n) site args := by
  unfold invoke
  split
  case h_3 => exact mapList_composed hcall site args
  case h_4 => exact .elementary (runNative_elementary _ site args)
  case h_6 => exact .elementary (.pure _)
  all_goals contradiction

/-- What a call does, once it is allowed, by the kinds of tasks in it. -/
theorem invoke_composed_of (hmoves : moves) (hstmt : ∀ s, Q (.stmt s)) (hexpr : ∀ e, Q (.expr e))
    (hcall : ∀ v site args, Q (.call v site args)) {callee : Value}
    (hparams : ∀ d ∈ callee.functions, d.Bindable risks) (site : Token) (args : List Value) :
    Composed Q moves watched risks fun self => invoke @self callee site args := by
  cases callee with
  | function k => exact runBody_composed hmoves hstmt (hparams _ (List.mem_singleton_self _)) _ args
  | method b => exact runMethod_composed hmoves hstmt (hparams _ (List.mem_singleton_self _)) args
  | native n => exact invokeNative_composed hcall n site args
  | cls k => exact instantiate_composed hmoves hstmt hexpr hparams args
  | _ => exact .elementary (.pure _)

/-- The statements of a program, by the kinds of tasks in it. -/
theorem runProgram_composed_of (hstmt : ∀ s, Q (.stmt s)) (hexpr : ∀ e, Q (.expr e))
    (program : Program) (last : Value) :
    Composed Q moves watched risks fun self => runProgram @self program last := by
  induction program generalizing last with
  | nil => exact .elementary (.pure _)
  | cons s ss ih =>
    by_cases hs : ∃ e token, s = .expression e token
    · obtain ⟨e, token, rfl⟩ := hs
      simp only [runProgram]
      exact .bind (.task (hexpr e)) fun v => ih v
    · have hne : ∀ e token, s ≠ .expression e token := fun e token heq => hs ⟨e, token, heq⟩
      simp only [Sims.runProgram_of_ne _ hne]
      exact .bind (.task (hstmt s)) fun _ => ih last

theorem invoke_composed (callee : Value) (site : Token) (args : List Value) :
    Composed (fun _ => True) True False (fun _ => True) fun self => invoke @self callee site args :=
  invoke_composed_of trivial (fun _ => trivial) (fun _ => trivial) (fun _ _ _ => trivial)
    (fun d _ => d.bindable) site args

theorem runProgram_composed (program : Program) (last : Value) :
    Composed (fun _ => True) True False (fun _ => True) fun self => runProgram @self program last :=
  runProgram_composed_of (fun _ => trivial) (fun _ => trivial) program last

/-- Any task that is no call.  Blocks alone move to another frame. -/
theorem step_composed_of {α : Type} (t : Task α) (ht : t.isCall = false)
    (hmoves : ∀ ss, t.node? = some (.stmt (.block ss)) → moves)
    (hthis : watched → ∀ n, t.node? = some n → n.SparesThis)
    (hdeclares : ∀ n name, t.node? = some n → n.declares? = some name →
      risks (.alreadyDeclared name.lexeme)) :
    Composed (fun _ => True) moves watched risks fun self => step @self t := by
  cases t with
  | expr e =>
    exact evalExpr_composed e (fun _ _ => trivial) (fun _ _ _ => trivial) (fun _ _ => trivial)
      fun hw => hthis hw _ rfl
  | property target name =>
    exact property_composed target name (fun _ _ _ => trivial) fun _ _ => trivial
  | call callee site args => cases ht
  | stmt s =>
    refine exec_composed s (fun _ _ => trivial) (fun _ _ => trivial) (fun _ _ _ _ => trivial) ?_
      (fun hw => hthis hw _ rfl) fun name => hdeclares _ name rfl
    rintro ss rfl
    exact hmoves ss rfl
  | loop condition body token => exact execLoop_composed token trivial trivial trivial

theorem step_composed {α : Type} (t : Task α) (ht : t.isCall = false) :
    Composed (fun _ => True) True False (fun _ => True) fun self => step @self t :=
  step_composed_of t ht (fun _ _ => trivial) False.elim fun _ _ _ _ => trivial

end

section

variable {callee : Value} {args : List Value} {m : Machine}

/-- A call of something else than a function or class, or with another number of arguments: the
machine and the interpreter have no part in it. -/
theorem callValue_refused (h : callee.arity? ≠ some args.length) (site : Token) :
    ∃ error : RuntimeError, (∀ risks, error.fault.Plain risks) ∧
      ∀ (self : Interpreter) (m : Machine),
        callValue self callee site args m = .error (.raised error) m := by
  cases ha : callee.arity? with
  | none =>
    refine ⟨⟨.notCallable callee.typeName, site⟩, by simp, fun self m => ?_⟩
    simp only [callValue, ha]
    rfl
  | some arity =>
    have hargs : arity ≠ args.length := fun heq => h (by rw [ha, heq])
    refine ⟨⟨.wrongArity arity args.length, site⟩, by simp, fun self m => ?_⟩
    simp only [callValue, ha, if_pos hargs]
    rfl

/-- A call beyond the limit. -/
theorem callValue_overflow (ha : callee.arity? = some args.length)
    (hdepth : Machine.maxDepth ≤ m.depth) (site : Token) (self : Interpreter) :
    callValue self callee site args m = .error (.raised ⟨.stackOverflow, site⟩) m := by
  simp only [callValue, ha, ne_eq, not_true_eq_false, if_false]
  have hlook : inspect (·.depth) m = .ok m.depth m := rfl
  refine (bind_ok hlook).trans ?_
  rw [if_pos hdepth]
  rfl

/-- A call that is allowed goes one level deeper. -/
theorem callValue_allowed (ha : callee.arity? = some args.length)
    (hdepth : m.depth < Machine.maxDepth) (site : Token) (self : Interpreter) :
    callValue self callee site args m = asCall (invoke self callee site args) m := by
  simp only [callValue, ha, ne_eq, not_true_eq_false, if_false]
  have hlook : inspect (·.depth) m = .ok m.depth m := rfl
  refine (bind_ok hlook).trans ?_
  rw [if_neg (Nat.not_le.2 hdepth)]

/-- A call goes one level deeper, or is one too many, or is refused, whatever the machine. -/
theorem callValue_cases (callee : Value) (site : Token) (args : List Value) (m : Machine) :
    (callee.arity? = some args.length ∧ m.depth < Machine.maxDepth ∧
      ∀ self : Interpreter,
        callValue self callee site args m = asCall (invoke self callee site args) m) ∨
    (callee.arity? = some args.length ∧ Machine.maxDepth ≤ m.depth ∧
      ∀ self : Interpreter,
        callValue self callee site args m = .error (.raised ⟨.stackOverflow, site⟩) m) ∨
    (callee.arity? ≠ some args.length ∧
      ∃ error : RuntimeError, (∀ risks, error.fault.Plain risks) ∧
        ∀ (self : Interpreter) (m : Machine),
          callValue self callee site args m = .error (.raised error) m) := by
  by_cases ha : callee.arity? = some args.length
  · rcases Nat.lt_or_ge m.depth Machine.maxDepth with hdepth | hdepth
    · exact .inl ⟨ha, hdepth, callValue_allowed ha hdepth site⟩
    · exact .inr (.inl ⟨ha, hdepth, callValue_overflow ha hdepth site⟩)
  · exact .inr (.inr ⟨ha, callValue_refused ha site⟩)

end

/-! ### What composed evaluations do -/

namespace Composed

variable {Q : {α : Type} → Task α → Prop} {moves watched : Prop} {risks : RuntimeFault → Prop} {α : Type}
variable {x : Interpreter → Eval α} {self : Interpreter} {m : Machine} {c : Config}

/-- If no task moves to another frame or depth, the evaluation does not. -/
theorem stays (h : Composed Q moves watched risks x)
    (hself : ∀ {β : Type} (t : Task β), (self t).Stays) : (x @self).Stays := by
  induction h with
  | elementary hx => exact hx.stays
  | task => exact hself _
  | @bind β γ x k hx hk ihx ihk =>
    intro m
    have hx := ihx m
    dsimp only
    cases hr : x @self m with
    | ok a m₁ =>
      rw [hr] at hx
      obtain ⟨hf, hd⟩ := ihk a m₁
      rw [bind_ok hr]
      exact ⟨hf.trans hx.1, hd.trans hx.2⟩
    | error e m₁ =>
      rw [hr] at hx
      rw [bind_error hr]
      exact hx
  | inFrame g _ _ ih =>
    intro m
    dsimp only
    rw [leaves_inFrame]
    exact ⟨rfl, (ih { m with frame := g }).2⟩

/-- Stopping at a configuration makes no difference, or else the configuration is called, and then
the evaluation as it is fails if the interpreter fails there. -/
theorem halting_cases (h : Composed Q moves watched risks x) (self : Interpreter) (c : Config)
    (m : Machine) : (∀ stop, x (halting @self c stop) m = x @self m) ∨
      Calls x @self m c ∧
        ∀ e m₁, self c.task c.machine = .error e m₁ → ∃ m₂, x @self m = .error e m₂ := by
  induction h generalizing m with
  | elementary => exact .inl fun _ => rfl
  | @task β t _ =>
    by_cases heq : ⟨t, m⟩ = c
    · subst heq
      exact .inr ⟨.task self m t, fun e m₁ he => ⟨m₁, he⟩⟩
    · refine .inl fun stop => ?_
      unfold halting
      dsimp only
      rw [if_neg heq]
  | @bind β γ x k _ _ ihx ihk =>
    rcases ihx m with heq | ⟨hc, hfail⟩
    · cases hr : x @self m with
      | ok a m₁ =>
        simp only [bind_ok hr]
        rcases ihk a m₁ with heqk | ⟨hc, hfail⟩
        · exact .inl fun stop => (bind_ok ((heq stop).trans hr)).trans (heqk stop)
        · refine .inr ⟨fun stop => ?_, hfail⟩
          obtain ⟨m', hm'⟩ := hc stop
          exact ⟨m', (bind_ok ((heq stop).trans hr)).trans hm'⟩
      | error e m₁ =>
        exact .inl fun stop => (bind_error ((heq stop).trans hr)).trans (bind_error hr).symm
    · refine .inr ⟨hc.bind @k, fun e m₁ he => ?_⟩
      obtain ⟨m₂, hm₂⟩ := hfail e m₁ he
      exact ⟨m₂, bind_error hm₂⟩
  | @inFrame β x g _ _ ih =>
    rcases ih { m with frame := g } with heq | ⟨hc, hfail⟩
    · exact .inl fun stop => by simp only [Eval.inFrame, heq stop]
    · refine .inr ⟨hc.inFrame, fun e m₁ he => ?_⟩
      obtain ⟨m₂, hm₂⟩ := hfail e m₁ he
      exact ⟨_, inFrame_error hm₂⟩

/-- The failure of a task that is called is the failure of the evaluation. -/
theorem fails_of_calls (h : Composed Q moves watched risks x) (hc : Calls x @self m c) {e : Stop}
    {m₁ : Machine} (he : self c.task c.machine = .error e m₁) : ∃ m₂, x @self m = .error e m₂ := by
  obtain ⟨m', hm'⟩ := hc e
  rcases h.halting_cases self c m with heq | ⟨-, hfail⟩
  · exact ⟨m', heq e ▸ hm'⟩
  · exact hfail e m₁ he

section

variable {β : Type} {k : Interpreter → α → Eval β} {a : α} {m₁ : Machine}

/-- What is called by the second of two parts is called by both together. -/
theorem calls_rest (hx : Composed Q moves watched risks x) (hr : x @self m = .ok a m₁)
    (hc : Calls (fun self => k @self a) @self m₁ c) :
    Calls (fun self => x @self >>= k @self) @self m c := by
  -- the configuration may come up in the first part already
  rcases hx.halting_cases self c m with heq | ⟨hfirst, -⟩
  · intro stop
    obtain ⟨m', hm'⟩ := hc stop
    exact ⟨m', (bind_ok ((heq stop).trans hr)).trans hm'⟩
  · exact hfirst.bind @k

/-- What is called by two parts together is called by one of them. -/
theorem calls_bind (hx : Composed Q moves watched risks x)
    (hc : Calls (fun self => x @self >>= k @self) @self m c) :
    Calls x @self m c ∨
      ∃ a m₁, x @self m = .ok a m₁ ∧ Calls (fun self => k @self a) @self m₁ c := by
  rcases hx.halting_cases self c m with heq | ⟨hfirst, -⟩
  · cases hr : x @self m with
    | ok a m₁ =>
      refine .inr ⟨a, m₁, rfl, fun stop => ?_⟩
      obtain ⟨m', hm'⟩ := hc stop
      exact ⟨m', (bind_ok ((heq stop).trans hr)).symm.trans hm'⟩
    | error e m₁ =>
      refine absurd hc (Calls.not_of_const (.error e m₁) fun stop => ?_)
      exact bind_error ((heq stop).trans hr)
  · exact .inl hfirst

end

/-- Only the tasks among `Q` are called. -/
theorem of_calls (h : Composed Q moves watched risks x) (hc : Calls x @self m c) : Q c.task := by
  induction h generalizing m with
  | elementary => exact absurd hc (Calls.not_of_const _ fun _ => rfl)
  | task ht =>
    obtain rfl := hc.of_task
    exact ht
  | bind hx _ ihx ihk =>
    obtain hc | ⟨a, m₁, -, hc⟩ := hx.calls_bind hc
    · exact ihx hc
    · exact ihk a hc
  | inFrame g _ _ ih => exact ih hc.of_inFrame

/-- Tasks are called at the depth of the evaluation, and in its frame unless it moves to another. -/
theorem where_called (h : Composed Q moves watched risks x)
    (hself : ∀ {β : Type} (t : Task β), (self t).Stays) (hc : Calls x @self m c) :
    c.machine.depth = m.depth ∧ (¬moves → c.machine.frame = m.frame) := by
  induction h generalizing m with
  | elementary => exact absurd hc (Calls.not_of_const _ fun _ => rfl)
  | task =>
    obtain rfl := hc.of_task
    exact ⟨rfl, fun _ => rfl⟩
  | bind hx _ ihx ihk =>
    obtain hc | ⟨a, m₁, hr, hc⟩ := hx.calls_bind hc
    · exact ihx hc
    · obtain ⟨hframe, hdepth⟩ := hx.stays hself m
      rw [hr] at hframe hdepth
      obtain ⟨hd, hf⟩ := ihk a hc
      exact ⟨hd.trans hdepth, fun hm => (hf hm).trans hframe⟩
  | inFrame g hmoves _ ih => exact ⟨(ih hc.of_inFrame).1, fun hm => absurd hmoves hm⟩

/-- A failure that no elementary step has is that of a task that is called. -/
theorem exists_calls (h : Composed Q moves watched risks x) {e : Stop}
    (he : ∀ error, e = .raised error → ¬error.fault.Plain risks) {m' : Machine}
    (hfail : x @self m = .error e m') :
    ∃ c m₁, Q c.task ∧ Calls x @self m c ∧ self c.task c.machine = .error e m₁ := by
  induction h generalizing m m' with
  | elementary hx =>
    obtain ⟨error, rfl, hfault⟩ := hx.fault m e m' hfail
    exact absurd hfault (he error rfl)
  | @task β t ht => exact ⟨⟨t, m⟩, m', ht, Calls.task self m t, hfail⟩
  | @bind β γ x k hx _ ihx ihk =>
    dsimp only at hfail
    cases hr : x @self m with
    | error e₁ m₁ =>
      rw [bind_error hr] at hfail
      obtain ⟨rfl, -⟩ := EStateM.Result.error.inj hfail
      obtain ⟨c, m₂, hq, hc, hself⟩ := ihx hr
      exact ⟨c, m₂, hq, hc.bind _, hself⟩
    | ok a m₁ =>
      rw [bind_ok hr] at hfail
      obtain ⟨c, m₂, hq, hc, hself⟩ := ihk a hfail
      exact ⟨c, m₂, hq, hx.calls_rest hr hc, hself⟩
  | @inFrame β x g _ _ ih =>
    dsimp only at hfail
    cases hr : x @self { m with frame := g } with
    | ok a m₁ =>
      rw [inFrame_ok hr] at hfail
      cases hfail
    | error e₁ m₁ =>
      rw [inFrame_error hr] at hfail
      obtain ⟨rfl, -⟩ := EStateM.Result.error.inj hfail
      obtain ⟨c, m₂, hq, hc, hself⟩ := ih hr
      exact ⟨c, m₂, hq, hc.inFrame, hself⟩

end Composed

/-! ### Calls of values -/

section

variable {callee : Value} {site : Token} {args : List Value} {m : Machine}
variable {c : Config} {self : Interpreter}

/-- What a call calls, it calls one level deeper, after it has been allowed. -/
theorem calls_callValue
    (hc : Calls (fun self => step self (.call callee site args)) self m c) :
    callee.arity? = some args.length ∧ m.depth < Machine.maxDepth ∧
      Calls (fun self => invoke self callee site args) self { m with depth := m.depth + 1 } c := by
  obtain ⟨ha, hdepth, heq⟩ | ⟨-, -, heq⟩ | ⟨-, error, -, heq⟩ := callValue_cases callee site args m
  · refine ⟨ha, hdepth, fun stop => ?_⟩
    obtain ⟨m', hm'⟩ := hc stop
    change callValue (halting self c stop) callee site args m = _ at hm'
    rw [heq] at hm'
    exact error_of_asCall hm'
  · exact absurd hc (Calls.not_of_const _ fun stop => heq _)
  · exact absurd hc (Calls.not_of_const _ fun stop => heq _ m)

/-- The other way round. -/
theorem Calls.callValue (ha : callee.arity? = some args.length)
    (hdepth : m.depth < Machine.maxDepth)
    (hc : Calls (fun self => invoke self callee site args) self { m with depth := m.depth + 1 } c) :
    Calls (fun self => step self (.call callee site args)) self m c := by
  intro stop
  obtain ⟨m', hm'⟩ := hc stop
  exact ⟨_, (callValue_allowed ha hdepth site _).trans (asCall_error hm')⟩

end

/-! ### Coming back -/

/-- Every task comes back to its frame and its depth. -/
theorem run_stays (fuel : Nat) {α : Type} (t : Task α) : (run fuel t).Stays := by
  induction fuel generalizing α with
  | zero => exact fun m => ⟨rfl, rfl⟩
  | succ fuel ih =>
    cases hcall : t.isCall with
    | false => exact (step_composed t hcall).stays ih
    | true =>
      cases t with
      | call callee site args =>
        have hinvoke : (invoke (run fuel) callee site args).Stays :=
          (invoke_composed callee site args).stays ih
        intro m
        change (leaves (callValue (run fuel) callee site args m)).frame = _ ∧
          (leaves (callValue (run fuel) callee site args m)).depth = _
        obtain ⟨-, -, heq⟩ | ⟨-, -, heq⟩ | ⟨-, error, -, heq⟩ := callValue_cases callee site args m
        · rw [heq]
          exact hinvoke.asCall m
        · rw [heq]
          exact ⟨rfl, rfl⟩
        · rw [heq]
          exact ⟨rfl, rfl⟩
      | _ => cases hcall

/-- So does everything that is composed of tasks. -/
theorem Composed.run_stays {Q : {α : Type} → Task α → Prop} {moves watched : Prop}
  {risks : RuntimeFault → Prop} {α : Type}
    {x : Interpreter → Eval α} (h : Composed Q moves watched risks x) (fuel : Nat) :
    (x (run fuel)).Stays :=
  h.stays (Evaluation.run_stays fuel)

end Evaluation

end ScopedScript
