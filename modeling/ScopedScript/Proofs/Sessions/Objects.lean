import ScopedScript.Proofs.Evaluation.Composition
import ScopedScript.Proofs.Evaluation.Intact
import ScopedScript.Proofs.Sessions.Fallbacks

/-! # The properties of objects

Objects are rows of named values, and nothing in their form keeps the names apart.  All the same, in
every session and at every moment of a run the names in an object are distinct
(`Session.objects_keyed_and_ordered`).

* The machine of a session is intact, whatever has been done with it (`Session.intact_after`).  The
  functions of the host have to keep it so (`HostFunction.KeepsSound`): a host could put a name into
  an object twice.
* Setting a property is one write to one record (`SetsProperty`), after everything that the object
  and the value do.  The name keeps its place, or comes last if it is new.
* Between two moments a record changes by writes alone.  So reading a property yields what was
  written last, and the text of an object lists the names in the order of their first appearance. -/

namespace ScopedScript

open Evaluation

/-! ### Values from outside -/

/-- A function that looks at its arguments alone leaves the heap as it is. -/
theorem HostFunction.plain_keepsSound {g : List Sight → Except String Scalar} :
    (plain g).KeepsSound := by
  intro site held args h hsound _ _
  refine ⟨.refl h, hsound, fun v hv => ?_⟩
  rw [run_plain] at hv
  cases hg : g (args.map (Value.sight h)) with
  | error message =>
    rw [hg] at hv
    cases hv
  | ok s =>
    rw [hg] at hv
    obtain rfl := Except.ok.inj hv
    cases s <;> trivial

theorem Scalar.toValue_in (s : Scalar) (h : Heap) : s.toValue.In h := by
  cases s <;> constructor

/-- Loading a value leaves an intact machine, on which the value is. -/
structure Machine.Loads (m : Machine) (h : Heap) : Prop where
  evolves : m.heap.Evolves h
  intact : Machine.Intact { m with heap := h }

theorem Machine.Loads.refl {m : Machine} (hm : m.Intact) : m.Loads m.heap := ⟨.refl _, hm⟩

mutual

theorem Datum.load_loads {m : Machine} (hm : m.Intact) :
    (d : Datum) → m.Loads (d.load m.heap).2 ∧ (d.load m.heap).1.In (d.load m.heap).2
  | .scalar s => ⟨.refl hm, s.toValue_in m.heap⟩
  | .list elements => by
    obtain ⟨⟨hg, hm₁⟩, hvs⟩ := Datum.loadAll_loads hm elements
    simp only [Datum.load]
    generalize Datum.loadAll m.heap elements = r at hg hm₁ hvs
    obtain ⟨values, h⟩ := r
    obtain ⟨hg₁, hm₂⟩ := hm₁.newList fun v hv => hvs v (List.mem_toArray.1 hv)
    exact ⟨⟨hg.trans hg₁, hm₂⟩, .list (by simp)⟩
termination_by structural d => d

theorem Datum.loadAll_loads {m : Machine} (hm : m.Intact) :
    (ds : List Datum) → m.Loads (Datum.loadAll m.heap ds).2 ∧
      ∀ v ∈ (Datum.loadAll m.heap ds).1, v.In (Datum.loadAll m.heap ds).2
  | [] => ⟨.refl hm, by simp [Datum.loadAll]⟩
  | d :: ds => by
    obtain ⟨⟨hg, hm₁⟩, hv⟩ := Datum.load_loads hm d
    obtain ⟨⟨hg₁, hm₂⟩, hvs⟩ := Datum.loadAll_loads hm₁ ds
    simp only [Datum.loadAll]
    exact ⟨⟨hg.trans hg₁, hm₂⟩, List.forall_mem_cons.2 ⟨hv.grow hg₁, hvs⟩⟩
termination_by structural ds => ds

end

namespace Machine.Intact

variable {m : Machine}

theorem defineNative (hm : m.Intact) (name : String) (arity : Nat) {action : NativeAction}
    (ha : ∀ identity, (Value.native (.mk identity name arity action)).In m.heap) :
    (m.defineNative name arity action).Intact := by
  have hset := hm.setVariable Machine.globalFrame name (ha m.nextIdentity)
  exact ⟨hset.frames, hset.lists, hset.records, hset.keys, hset.hosts⟩

/-- A function of the host has been registered. -/
theorem withHost (hm : m.Intact) {f : HostFunction} (hf : f.KeepsSound) :
    Machine.Intact { m with hosts := m.hosts.push f } := by
  refine ⟨hm.frames, hm.lists, hm.records, hm.keys, fun g hg => ?_⟩
  rcases Array.mem_push.1 hg with hg | rfl
  · exact hm.hosts g hg
  · exact hf

theorem defineHost (hm : m.Intact) (name : String) (arity : Nat) {f : HostFunction}
    (hf : f.KeepsSound) (held : Datum) : (m.defineHost name arity f held).Intact ∧
      m.heap.Evolves (m.defineHost name arity f held).heap := by
  obtain ⟨⟨hg, hm₁⟩, hv⟩ := Datum.load_loads hm held
  exact ⟨(hm₁.withHost hf).defineNative name arity fun _ => .host hv, hg⟩

theorem initial (input : List UInt8) (limit : Option Nat) (clock : Clock) :
    (Machine.initial input limit clock).Intact := by
  have hdefine : ∀ (bs : List (String × Nat × NativeAction)) {m : Machine}, m.Intact →
      (∀ b ∈ bs, b.2.2.isPlain = true) →
      (bs.foldl (fun m b => m.defineNative b.1 b.2.1 b.2.2) m).Intact := by
    intro bs
    induction bs with
    | nil => exact fun hm _ => hm
    | cons b bs ih =>
      intro m hm hbs
      obtain ⟨hb, hbs⟩ := List.forall_mem_cons.1 hbs
      exact ih (hm.defineNative b.1 b.2.1 fun _ => .native hb) hbs
  have hempty : Machine.Intact { input := input, sink := { limit := limit }, clock := clock } := by
    refine ⟨fun f hf => ?_, by simp, by simp, by simp, by simp⟩
    obtain rfl : f = ⟨.globals, none, []⟩ := by simpa using hf
    exact .nil
  unfold Machine.initial
  exact hdefine builtins hempty builtins_plain

end Machine.Intact

/-! ### Sessions -/

/-- A well-formed program has well-formed trees. -/
theorem Program.WellFormed.sited {program : Program} (h : Program.WellFormed program) :
    Sited fun outer => stmtsSites outer program := ⟨[], h.nodes⟩

namespace Session

/-- What a session has loaded is on an intact machine, if the session was. -/
theorem load_intact {s : Session} (hs : s.machine.Intact) (name source : String) :
    (s.load name source).2.machine.Intact ∧
      s.machine.heap.Evolves (s.load name source).2.machine.heap := by
  obtain ⟨D, hmachine⟩ := load_machine s name source
  rw [hmachine]
  exact ⟨⟨hs.frames, hs.lists, hs.records, hs.keys, hs.hosts⟩, .refl _⟩

/-- Running a program. -/
theorem execute_intact {s : Session} (hs : s.machine.Intact) (fuel : Nat) {program : Program}
    (hp : Program.WellFormed program) :
    (s.execute fuel program).2.machine.Intact ∧
      s.machine.heap.Evolves (s.execute fuel program).2.machine.heap := by
  have hr : Upheld s.machine.heap Value.In
      (runProgram (Evaluation.run fuel) program .undefined s.machine) :=
    (UpholdsTasks.runProgram (upholds_run fuel) hp.sited .undefined hs (.refl _)).2
  unfold execute
  generalize runProgram (Evaluation.run fuel) program .undefined s.machine = r at hr
  cases hr with
  | ok hm hg _ => exact ⟨hm, hg⟩
  | @error e _ hm hg => cases e <;> exact ⟨hm, hg⟩

theorem perform_intact {s : Session} (hs : s.machine.Intact) {a : Action}
    (ha : ∀ f ∈ a.hosts, f.KeepsSound) :
    (s.perform a).machine.Intact ∧ s.machine.heap.Evolves (s.perform a).machine.heap := by
  cases a with
  | run fuel name source =>
    have hload := load_intact hs name source
    have hwell := loaded_wellFormed s name source
    simp only [perform, Session.run]
    generalize s.load name source = r at hload hwell
    obtain ⟨program, s₁⟩ := r
    cases program with
    | error outcome => exact hload
    | ok program =>
      obtain ⟨hm, hg⟩ := execute_intact hload.1 fuel (hwell program (by simp [loaded]))
      exact ⟨hm, hload.2.trans hg⟩
  | native name arity f held =>
    exact hs.defineHost name arity (ha f (List.mem_singleton_self f)) held
  | takeOutput => exact ⟨⟨hs.frames, hs.lists, hs.records, hs.keys, hs.hosts⟩, .refl _⟩

/-- A history keeps the machine intact, and its heap evolves. -/
theorem intact_after {s : Session} (hs : s.machine.Intact) {history : List Action}
    (hhosts : ∀ a ∈ history, ∀ f ∈ a.hosts, f.KeepsSound) :
    (s.after history).machine.Intact ∧
      s.machine.heap.Evolves (s.after history).machine.heap := by
  induction history generalizing s with
  | nil => exact ⟨hs, .refl _⟩
  | cons a history ih =>
    obtain ⟨ha, hhosts⟩ := List.forall_mem_cons.1 hhosts
    obtain ⟨hm, hg⟩ := perform_intact hs ha
    obtain ⟨hm₁, hg₁⟩ := ih hm hhosts
    exact ⟨hm₁, hg.trans hg₁⟩

end Session

/-! ### Reading and setting properties -/

/-- The objects of a machine have distinct names, and show them in order. -/
structure Machine.Orderly (m : Machine) : Prop where
  keys : ∀ ref, (Record.keys (m.heap.record ref)).Nodup
  /-- Reading yields the value that the object has for the name. -/
  read : ∀ (fuel : Nat) (ref : Ref) (name : Token),
    run (fuel + 1) (.property (.object ref) name) m =
      match (m.heap.record ref).get? name.lexeme with
      | some v => .ok v m
      | none => .error (.raised ⟨.noObjectProperty name.lexeme, name⟩) m
  /-- The text lists each name once, in order, unless the object is being written already. -/
  shown : ∀ (budget : Nat) (chain : List Container) (ref : Ref), .object ref ∉ chain →
    Value.textWithin m.heap (budget + 1) chain (.object ref) =
      "\x7b" ++ String.intercalate ", " ((Record.keys (m.heap.record ref)).map fun k =>
        k ++ ": " ++ Value.textWithin m.heap budget (.object ref :: chain)
          (((m.heap.record ref).get? k).getD .undefined)) ++ "\x7d"

theorem Machine.Intact.orderly {m : Machine} (hm : m.Intact) : m.Orderly where
  keys := hm.keysOf
  read fuel ref name := by
    have hread : run (fuel + 1) (.property (.object ref) name) m =
        Eval.orRaise name (.noObjectProperty name.lexeme)
          ((m.heap.record ref).get? name.lexeme) m := rfl
    rw [hread]
    cases (m.heap.record ref).get? name.lexeme <;> rfl
  shown budget _ ref hchain := Value.textWithin_object (hm.keysOf ref) budget hchain

/-- A record between two moments: it has been written to, its names are in the order in which they
came up first, and each name has the value that was written last. -/
def Record.Rewritten (r r' : Record Value) : Prop :=
  ∃ writes : List (String × Value), r' = r.setAll writes ∧
    Record.keys r' = (Record.keys r ++ writes.map Prod.fst).eraseDups ∧
    ∀ name, r'.get? name = (Record.get? writes.reverse name).or (r.get? name)

theorem Heap.Evolves.rewritten {h h' : Heap} (hg : h.Evolves h') {ref : Ref}
    (href : ref < h.records.size) (hkeys : (Record.keys (h.record ref)).Nodup) :
    (h.record ref).Rewritten (h'.record ref) := by
  obtain ⟨writes, hw⟩ := hg.written ref href
  refine ⟨writes, hw, ?_, fun name => ?_⟩ <;> rw [hw]
  · exact Record.keys_setAll hkeys writes
  · exact Record.get?_setAll _ _ name

/-- The properties or fields of the value are the record. -/
def Value.Holds (v : Value) (ref : Ref) : Prop :=
  v = .object ref ∨ ∃ i, v = .instance i ∧ i.fields = ref

/-- Evaluating `object.name = value` on `m` has yielded `v` and left `m'`: after what the object and
the value do, there has been one write to one record. -/
structure SetsProperty (fuel : Nat) (object value : Expr) (name : Token) (m : Machine) (v : Value)
    (m' : Machine) (target : Value) (ref : Ref) (m₁ m₂ : Machine) : Prop where
  object : run fuel (.expr object) m = .ok target m₁
  holds : target.Holds ref
  value : run fuel (.expr value) m₁ = .ok v m₂
  present : ref < m₂.heap.records.size
  written : Record.Written name.lexeme v (m₂.heap.record ref) (m'.heap.record ref)
  others : ∀ other, other ≠ ref → m'.heap.record other = m₂.heap.record other
  unchanged : m' = { m₂ with heap := { m₂.heap with records := m'.heap.records } }
  /-- Reading the property now yields the value. -/
  read : ∀ bound, run (bound + 1) (.property target name) m' = .ok v m'

section

variable {name : Token} {m m' : Machine} {v : Value} {ref : Ref}

theorem eval_bind_ok {α β : Type} {x : Eval α} {k : α → Eval β} {b : β}
    (h : (x >>= k) m = .ok b m') : ∃ a m₁, x m = .ok a m₁ ∧ k a m₁ = .ok b m' := by
  change EStateM.bind x k m = _ at h
  unfold EStateM.bind at h
  split at h
  · next a m₁ hx => exact ⟨a, m₁, hx, h⟩
  · cases h

theorem fieldsOf_ok (h : fieldsOf name v m = .ok ref m') : m' = m ∧ v.Holds ref := by
  unfold fieldsOf at h
  split at h
  · next i =>
    obtain ⟨rfl, rfl⟩ := EStateM.Result.ok.inj h
    exact ⟨rfl, .inr ⟨i, rfl, rfl⟩⟩
  · obtain ⟨rfl, rfl⟩ := EStateM.Result.ok.inj h
    exact ⟨rfl, .inl rfl⟩
  · cases h

/-- What setting a property consists of, if it succeeds. -/
theorem evalSet_ok {self : Interpreter} {object value : Expr}
    (h : evalSet self object name value m = .ok v m') :
    ∃ target ref m₁ m₂, self (.expr object) m = .ok target m₁ ∧ target.Holds ref ∧
      self (.expr value) m₁ = .ok v m₂ ∧
      m' = { m₂ with heap := m₂.heap.modifyRecord ref fun r => r.set name.lexeme v } := by
  obtain ⟨target, m₁, hobject, hfrom⟩ := eval_bind_ok h
  obtain ⟨ref, m₁', hfields, hrest⟩ := eval_bind_ok hfrom
  obtain ⟨w, m₂, hvalue, hwrite⟩ := eval_bind_ok hrest
  obtain ⟨rfl, hholds⟩ := fieldsOf_ok hfields
  obtain ⟨rfl, rfl⟩ := EStateM.Result.ok.inj hwrite
  exact ⟨target, ref, m₁', m₂, hobject, hholds, hvalue, rfl⟩

/-- A property that the record has is read from it. -/
theorem property_of_holds {target : Value} (hholds : target.Holds ref)
    (hv : (m.heap.record ref).get? name.lexeme = some v) (fuel : Nat) :
    run (fuel + 1) (.property target name) m = .ok v m := by
  obtain rfl | ⟨i, rfl, rfl⟩ := hholds
  · have hread : run (fuel + 1) (.property (.object ref) name) m =
        Eval.orRaise name (.noObjectProperty name.lexeme)
          ((m.heap.record ref).get? name.lexeme) m := rfl
    rw [hread, hv]
    rfl
  · have hlook : Eval.inspect (fun m => (m.heap.record i.fields).get? name.lexeme) m =
        .ok (some v) m := by rw [Eval.inspect, hv]
    exact (Eval.bind_ok hlook).trans rfl

theorem Value.In.present {h : Heap} (hv : v.In h) (hholds : v.Holds ref) :
    ref < h.records.size := by
  obtain rfl | ⟨i, rfl, rfl⟩ := hholds
  · cases hv with
    | object href => exact href
  · cases hv with
    | «instance» hi => exact hi.fields

/-- Setting a property on an intact machine. -/
theorem exists_setsProperty {fuel : Nat} {object value : Expr} (hm : m.Intact)
    (hset : Sited (Expr.set object name value).sites)
    (h : run (fuel + 1) (.expr (.set object name value)) m = .ok v m') :
    ∃ target ref m₁ m₂, SetsProperty fuel object value name m v m' target ref m₁ m₂ := by
  obtain ⟨target, ref, m₁, m₂, hobject, hholds, hvalue, rfl⟩ := evalSet_ok h
  obtain ⟨hm₁, -, htarget⟩ := run_ok_intact hm (.expr hset.below.right) hobject
  obtain ⟨hm₂, hg₂, -⟩ := run_ok_intact hm₁ (.expr hset.below.left) hvalue
  have href : ref < m₂.heap.records.size := (htarget.grow hg₂).present hholds
  have hrecord : (m₂.heap.modifyRecord ref fun r => r.set name.lexeme v).record ref =
      (m₂.heap.record ref).set name.lexeme v := by
    rw [Heap.record_modifyRecord, if_pos ⟨rfl, href⟩]
  refine ⟨target, ref, m₁, m₂, hobject, hholds, hvalue, href, ?_, fun other hne => ?_, rfl,
    property_of_holds hholds ?_⟩
  · rw [hrecord]
    exact Record.written_set (hm₂.keysOf ref) _ _
  · rw [Heap.record_modifyRecord, if_neg fun hand => hne hand.1]
  · rw [hrecord, Record.get?_set_self]

end

/-! ### Every moment of every session -/

namespace Session

/-- Whatever a session has done, the names in each of its objects are distinct, and shown in order.
What it does from then on rewrites the objects that there are.  When it runs a program, the objects
are in the same order at every moment, and setting a property is one write.  The functions of the host
treat objects as programs do. -/
theorem objects_keyed_and_ordered (prelude : Bool) (input : List UInt8) (limit : Option Nat)
    (clock : Clock) {history : List Action}
    (hhosts : ∀ a ∈ history, ∀ f ∈ a.hosts, f.KeepsSound) :
    ((start prelude input limit clock).after history).machine.Orderly ∧
    (∀ more : List Action, (∀ a ∈ more, ∀ f ∈ a.hosts, f.KeepsSound) → ∀ ref : Ref,
      ref < ((start prelude input limit clock).after history).machine.heap.records.size →
      (((start prelude input limit clock).after history).machine.heap.record ref).Rewritten
        (((start prelude input limit clock).after (history ++ more)).machine.heap.record ref)) ∧
    ∀ (name source : String) (program : Program) (s : Session),
      ((start prelude input limit clock).after history).load name source = (.ok program, s) →
      ∀ (fuel : Nat) (c : Config),
        Visits fuel (fun self => runProgram self program .undefined) s.machine c →
        c.machine.Orderly ∧
        ∀ (object value : Expr) (name : Token) (m : Machine),
          c = ⟨.expr (.set object name value), m⟩ → ∀ (bound : Nat) (v : Value) (m' : Machine),
          Evaluation.run (bound + 1) (.expr (.set object name value)) m = .ok v m' →
          m'.Orderly ∧ (∀ ref < m.heap.records.size,
            (m.heap.record ref).Rewritten (m'.heap.record ref)) ∧
          ∃ target ref m₁ m₂, SetsProperty bound object value name m v m' target ref m₁ m₂ := by
  obtain ⟨hm, -⟩ := intact_after (s := start prelude input limit clock)
    (Machine.Intact.initial input limit clock) hhosts
  refine ⟨hm.orderly, fun more hmore ref href => ?_, ?_⟩
  · rw [after_append]
    exact (intact_after hm hmore).2.rewritten href (hm.keysOf ref)
  · intro name source program s hload fuel c hvisits
    obtain ⟨hs, -⟩ := load_intact hm name source
    have hwell := loaded_wellFormed ((start prelude input limit clock).after history) name source
    rw [hload] at hs hwell
    have hsited := (hwell program (by simp [loaded])).sited
    obtain ⟨hc, post, htask⟩ := intact_of_visits hvisits hs fun hself =>
      hself.runProgram hsited .undefined
    refine ⟨hc.orderly, ?_⟩
    rintro object value name m rfl bound v m' hrun
    obtain ⟨hm', hg, -⟩ := run_ok_intact hc htask hrun
    exact ⟨hm'.orderly, fun ref href => hg.rewritten href (hc.keysOf ref),
      exists_setsProperty hc (htask.expr_sited rfl) hrun⟩

/-- The object of `({a: "x"}).b = "y"`. -/
def oneName : Expr :=
  .grouping (.object (.make .leftBrace "\x7b" 1 2 1 none)
    [.mk (.make .name "a" 1 3 2 none) (.literal .string (.str "x"))])

/-- The expression `({a: "x"}).b = "y"`. -/
def secondName : Expr := .set oneName (.make .name "b" 1 12 8 none) (.literal .string (.str "y"))

set_option maxRecDepth 100000 in
theorem secondName_spelled : ∃ tokens, tokenizeFrom 1 "(\x7ba: \"x\"\x7d).b = \"y\"" = .ok tokens ∧
    parseFrom 0 tokens = .ok ([.expression secondName (.make .leftParen "(" 1 1 0 none)], 0) :=
  ⟨_, by cbv, by cbv⟩

theorem secondName_run (m : Machine) :
    ∃ m', Evaluation.run 4 (.expr secondName) m = .ok (.str "y") m' := ⟨_, rfl⟩

/-- The new name comes behind the one that is there, and reading it yields its value, in a session
with functions of the host. -/
theorem secondName_set : ∃ program s m',
    (hosted false).load "main" "(\x7ba: \"x\"\x7d).b = \"y\"" = (.ok program, s) ∧
    Visits 1 (fun self => runProgram self program .undefined) s.machine
      ⟨.expr secondName, s.machine⟩ ∧
    Evaluation.run 4 (.expr secondName) s.machine = .ok (.str "y") m' ∧ s.machine.Orderly ∧
    m'.Orderly ∧ ∃ target ref m₁ m₂, SetsProperty 3 oneName (.literal .string (.str "y"))
      (.make .name "b" 1 12 8 none) s.machine (.str "y") m' target ref m₁ m₂ := by
  obtain ⟨tokens, htokens, hparse⟩ := secondName_spelled
  obtain ⟨s, hload, -⟩ := load_of_ready (s := hosted false) rfl "main" htokens hparse rfl
  obtain ⟨m', hrun⟩ := secondName_run s.machine
  have hvisits : Visits 1 (fun self => runProgram self
      [.expression secondName (.make .leftParen "(" 1 1 0 none)] .undefined) s.machine
      ⟨.expr secondName, s.machine⟩ :=
    .call ((Calls.task _ s.machine (.expr secondName)).bind fun self v => runProgram self [] v)
  obtain ⟨-, -, hmoments⟩ :=
    objects_keyed_and_ordered false [] none (.still 0)
      (forall_hosts_hostStart HostFunction.plain_keepsSound)
  obtain ⟨horderly, hset⟩ := hmoments "main" _ _ s hload 1 _ hvisits
  obtain ⟨horderly', -, hsets⟩ := hset oneName (.literal .string (.str "y")) _ _ rfl 3 _ m' hrun
  exact ⟨_, s, m', hload, hvisits, hrun, horderly, horderly', hsets⟩

end Session

end ScopedScript
