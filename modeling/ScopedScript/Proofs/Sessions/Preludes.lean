import ScopedScript.Proofs.Sessions.Reports
import ScopedScript.Proofs.Sessions.Seams
import ScopedScript.Proofs.Sessions.This

/-! # The prelude runs first, and once

What a session does with its prelude over a history (`Session.prelude_first_and_once`).

* The layout starts with the prelude, as soon as anything is laid out, and the other texts are the
  sources of the runs (`Session.texts_start`).
* The prelude is pending until a program is accepted.  That program starts with the classes of the
  prelude, which are declared before anything else happens (`RowOfClasses.declared`).
* A session is *primed* (`Session.Primed`) if no function, class or method on its machine has a node
  inside that declares a class of the prelude.  So only the program that is accepted first executes
  such a node, at its top level; afterwards the names of the classes are among the globals for good.

The host must leave these names to the prelude, and give every run a bound on its depth that lets it
start. -/

namespace ScopedScript

open Grammar Evaluation

/-! ### The layout -/

/-- The prelude in the layout of a session. -/
def Prelude.laid : LaidText := ⟨name, source, 1⟩

theorem LaidText.stop_mk (name source : String) (first : Nat) :
    (⟨name, source, first⟩ : LaidText).stop = first + SourceMap.lineCount source := rfl

theorem Prelude.laid_stop : laid.stop = 1 + SourceMap.lineCount source := LaidText.stop_mk _ _ _

/-- The source that an action runs, with its name. -/
def Action.source? : Action → Option (String × String)
  | .run _ name source => some (name, source)
  | .native _ _ _ _ | .takeOutput => none

namespace Session

variable {s : Session}

/-- Nothing is laid out any more in front of a source. -/
def Opened (s : Session) : Prop := s.preludePending = false ∨ s.preludeTokens.isSome = true

theorem opened_run (hlaid : s.Laid) (fuel : Nat) (name source : String) :
    (s.run fuel name source).2.Opened := by
  obtain ⟨-, htokens, hpending⟩ := run_layout s fuel name source
  obtain ⟨leading, s₁, hlead, -, -, -, hsome, -⟩ := leadingTokens_ok hlaid
  unfold Opened
  rw [htokens, hpending, (scanSource_machine s name source).2.2, scanSource_of_leading hlead]
  cases hp : s.preludePending with
  | false => exact .inl rfl
  | true => exact .inr (by rw [hsome hp]; rfl)

/-- Behind the prelude, only sources are laid out. -/
theorem texts_opened (hlaid : s.Laid) (hopened : s.Opened) (history : List Action) :
    (s.texts history).map (fun t => (t.name, t.source)) = history.filterMap Action.source? := by
  induction history generalizing s with
  | nil => rfl
  | cons a history ih =>
    have hlays : (s.lays a).map (fun t => (t.name, t.source)) = a.source?.toList := by
      cases a with
      | run fuel name source =>
        rw [lays, if_neg]
        · rfl
        · rcases hopened with hp | hp
          · simp [hp]
          · simp [Option.isNone_eq_false_iff.2 hp]
      | _ => rfl
    have hnext : (s.perform a).Opened := by
      cases a with
      | run fuel name source => exact opened_run hlaid fuel name source
      | _ => exact hopened
    rw [texts, List.map_append, hlays, ih (hlaid.perform a) hnext, List.filterMap_cons]
    cases a.source? <;> rfl

/-- The prelude is laid out first, as soon as anything is. -/
theorem texts_start (input : List UInt8) (limit : Option Nat) (clock : Clock)
    (history : List Action) : ∃ texts : List LaidText,
    texts.map (fun t => (t.name, t.source)) = history.filterMap Action.source? ∧
      (start true input limit clock).texts history =
        if texts = [] then [] else Prelude.laid :: texts := by
  have hgeneral : ∀ s : Session, s.Laid → s.preludePending = true → s.preludeTokens = none →
      s.sources.nextLine = 1 → ∃ texts : List LaidText,
      texts.map (fun t => (t.name, t.source)) = history.filterMap Action.source? ∧
        s.texts history = if texts = [] then [] else Prelude.laid :: texts := by
    induction history with
    | nil => exact fun _ _ _ _ _ => ⟨[], rfl, rfl⟩
    | cons a history ih =>
      intro s hlaid hpending htokens hline
      cases a with
      | run fuel name source =>
        refine ⟨⟨name, source, s.nextSourceLine⟩ ::
          (s.perform (.run fuel name source)).texts history, ?_, ?_⟩
        · rw [List.map_cons, texts_opened (hlaid.perform (.run fuel name source))
            (opened_run hlaid fuel name source)]
          rfl
        · rw [if_neg (List.cons_ne_nil _ _), texts, lays, hpending, htokens, hline]
          rfl
      | _ => exact ih _ (hlaid.perform _) hpending htokens hline
  exact hgeneral _ (laid_start _ _ _ _) rfl rfl rfl

end Session

/-! ### Declaring classes -/

section

variable {Q : Token → Prop} {P : Node → Prop} {D : Distances}

/-- A variable of the globals is not lost. -/
theorem Grows.has_global {m m' : Machine} (h : Grows m.frames m'.frames) {x : String}
    (hx : (m.vars Machine.globalFrame).has x = true) :
    (m'.vars Machine.globalFrame).has x = true := by
  obtain ⟨frame, hframe⟩ := Machine.frame_of_has hx
  obtain ⟨frame', hframe', -, -, hvars⟩ := h _ _ hframe
  unfold Machine.vars at hx ⊢
  rw [hframe] at hx
  rw [hframe']
  exact hvars x hx

/-- The machine with a class among its globals. -/
def Machine.defineClass (m : Machine) (c : ClassDecl) : Machine :=
  { m.setVariable Machine.globalFrame c.name.lexeme (.cls ⟨m.nextIdentity, c, Machine.globalFrame⟩)
    with nextIdentity := m.nextIdentity + 1 }

theorem Machine.vars_setVariable {m : Machine} {f : FrameId} {frame : Frame}
    (h : m.frames[f]? = some frame) (name : String) (v : Value) :
    (m.setVariable f name v).vars f = frame.vars.set name v := by
  unfold Machine.vars Machine.setVariable
  rw [Array.getElem?_modify, if_pos rfl, h]
  rfl

/-- A native leaves what other names stand for. -/
theorem Machine.has_defineNative {m : Machine} {name x : String} (hne : x ≠ name) (arity : Nat)
    (action : NativeAction) :
    ((m.defineNative name arity action).vars globalFrame).has x = (m.vars globalFrame).has x := by
  change ((m.setVariable globalFrame name (.native ⟨m.nextIdentity, name, arity, action⟩)).vars
    globalFrame).has x = _
  cases hframe : m.frames[globalFrame]? with
  | some frame =>
    rw [Machine.vars_setVariable hframe, Record.has_set, beq_false_of_ne hne, Bool.false_or,
      Machine.vars, hframe]
  | none =>
    unfold Machine.vars Machine.setVariable
    rw [Array.getElem?_modify, if_pos rfl, hframe]
    rfl

theorem Machine.has_defineHost {m : Machine} {name x : String} (hne : x ≠ name) (arity : Nat)
    (f : HostFunction) (held : Datum) :
    ((m.defineHost name arity f held).vars globalFrame).has x = (m.vars globalFrame).has x :=
  has_defineNative hne arity _

theorem Machine.Alike.defineClass {m : Machine} (h : m.Alike (.diagonal Q P D) m) {c : ClassDecl}
    {ctx : Surroundings} (hc : c.Alike (Likeness.diagonal Q P D).toTreeLikeness ctx c) :
    (m.defineClass c).Alike (.diagonal Q P D) (m.defineClass c) :=
  (h.setVariable (fun _ _ => rfl) (fun hw => hw.elim)
    (.cls ⟨rfl, rfl, ctx, fun ht => ht.elim, hc⟩)).withIdentity _

/-- A row of classes whose names are free: all are declared, and what stands behind them runs on the
machine that has them. -/
theorem RowOfClasses.declared {names : List String} {p : Program} (h : RowOfClasses names p)
    (hnodup : names.Nodup) {m : Machine} (hm : m.Alike (.diagonal Q P D) m)
    (hframe : m.frame = Machine.globalFrame)
    (hfree : ∀ x ∈ names, (m.vars Machine.globalFrame).has x = false)
    (hclasses : ∀ c, .classDecl c ∈ p →
      ∃ ctx, c.Alike (Likeness.diagonal Q P D).toTreeLikeness ctx c) (fuel : Nat) :
    ∃ m' : Machine, (∀ rest v, runProgram (run (fuel + 1)) (p ++ rest) v m =
        runProgram (run (fuel + 1)) rest v m') ∧
      m'.Alike (.diagonal Q P D) m' ∧ m'.frame = Machine.globalFrame ∧
      Grows m.frames m'.frames ∧ ∀ x ∈ names, (m'.vars Machine.globalFrame).has x = true := by
  induction h generalizing m with
  | nil => exact ⟨m, fun _ _ => rfl, hm, hframe, .refl _, fun _ hx => by cases hx⟩
  | @cons c names p _ _ ih =>
    obtain ⟨hname, hnames⟩ := List.nodup_cons.1 hnodup
    obtain ⟨hc, hrest⟩ := List.forall_mem_cons.1 hfree
    obtain ⟨ctx, halike⟩ := hclasses c List.mem_cons_self
    obtain ⟨vars, hvars⟩ := hm.globals
    have hglobals : m.vars Machine.globalFrame = vars := by rw [Machine.vars, hvars]
    have hset : (m.defineClass c).vars Machine.globalFrame = vars.set c.name.lexeme _ :=
      Machine.vars_setVariable hvars _ _
    have hstep : run (fuel + 1) (.stmt (.classDecl c)) m = .ok .proceed (m.defineClass c) := by
      let n : Machine := { m with nextIdentity := m.nextIdentity + 1 }
      have hdeclare : Eval.declareVariable c.name (.cls ⟨m.nextIdentity, c, m.frame⟩) n =
          .ok () (n.setVariable n.frame c.name.lexeme (.cls ⟨m.nextIdentity, c, m.frame⟩)) :=
        Eval.declareVariable_free _ (hframe ▸ hc)
      rw [Machine.defineClass, ← hframe]
      exact Eval.bind_ok (k := fun _ => pure Signal.proceed) hdeclare
    obtain ⟨m', hrun, hm', hframe', hgrows, hbound⟩ := ih hnames
      (hm.defineClass halike) hframe
      (fun x hx => by
        rw [hset, Record.has_set, ← hglobals, hrest x hx, Bool.or_false, beq_eq_false_iff_ne]
        rintro rfl
        exact hname hx)
      fun d hd => hclasses d (List.mem_cons_of_mem _ hd)
    refine ⟨m', fun rest v => ?_, hm', hframe', ?_, List.forall_mem_cons.2 ⟨?_, hbound⟩⟩
    · rw [← hrun]
      exact Eval.bind_ok hstep
    · exact (Grows.setVariable m.frames _ _ _).trans hgrows
    · refine Grows.has_global hgrows ?_
      rw [hset]
      exact Record.has_set_self _ _ _

end

/-! ### Nodes that spare a text -/

namespace LaidText

variable {text own : LaidText} {t : Token}

/-- The statement declares a class whose name is a token of the text. -/
def Declares (text : LaidText) (d : Stmt) : Prop := ∃ c, d = .classDecl c ∧ text.Bears c.name

/-- The node does not declare a class of the text. -/
def Spares (text : LaidText) (n : Node) : Prop := ∀ d, n = .stmt d → ¬text.Declares d

/-- A token of a text is none of a text before it. -/
theorem Bears.apart (h : own.Bears t) (hstop : text.stop ≤ own.first) : ¬text.Bears t :=
  fun htext => absurd htext.line.2 (Nat.not_lt.2 (hstop.trans h.line.1))

/-- A program that is read from a text behind another text spares that. -/
theorem spares_behind (own : LaidText) {tokens : List Token}
    (htokens : tokenizeFrom own.first own.source = .ok tokens) (hstop : text.stop ≤ own.first)
    {k : Nat} {i j : NodeId} {p : Program}
    (hp : parseFrom i (tokens.map (Token.shift k)) = .ok (p, j)) (D : Distances) :
    stmtsAlike (Likeness.diagonal (fun _ => True) text.Spares D).toTreeLikeness true .top p p := by
  have hmade := (parseFrom_marked own.passedOn_bears (own.marked htokens k) i).2 p j hp
  refine Session.program_consists D (fun _ _ => trivial) (fun n hn d hd hdeclares => ?_) hmade
  obtain ⟨c, rfl, hbears⟩ := hdeclares
  exact Bears.apart (hn c.name (by rw [hd]; rfl)) hstop hbears

/-- Classes that are read from a text belong to it.  A class with no classes inside spares the text
inside. -/
theorem declares_read (text : LaidText) {tokens : List Token}
    (htokens : tokenizeFrom text.first text.source = .ok tokens) {i j : NodeId} {p : Program}
    (hp : parseFrom i tokens = .ok (p, j)) {names : List String} (hclasses : RowOfClasses names p)
    (D : Distances) : ∀ d ∈ p, text.Declares d ∧ ∀ c, d = .classDecl c →
      ∃ ctx, c.Alike (Likeness.diagonal (fun _ => True) text.Spares D).toTreeLikeness ctx c := by
  have hmarked := text.marked htokens 0
  rw [show Token.shift 0 = id from rfl, List.map_id] at hmarked
  have hmade := (parseFrom_marked text.passedOn_bears hmarked i).2 p j hp
  obtain ⟨halike, -⟩ := hmade true .top
  clear hp hmade
  generalize Surroundings.top = ctx at halike
  induction hclasses generalizing ctx with
  | nil => exact fun d hd => by cases hd
  | @cons c names p hplaces _ ih =>
    obtain ⟨s', q, heq, hs, hq⟩ := halike
    obtain ⟨rfl, rfl⟩ := List.cons.inj heq
    refine List.forall_mem_cons.2 ⟨?_, ih _ hq⟩
    obtain ⟨⟨-, hdeclares⟩, c', hc', hc⟩ := hs
    obtain rfl := Stmt.classDecl.inj hc'
    obtain ⟨-, t', -, -, hbears⟩ := hdeclares c.name rfl
    refine ⟨⟨c, rfl, hbears⟩, fun d hd => ?_⟩
    obtain rfl := Stmt.classDecl.inj hd
    refine ⟨_, ClassDecl.Alike.refine (sharpens_diagonal (fun r => r.shape ≠ .classDecl)
      (fun _ _ => trivial) (fun hshape _ d hd hdeclares => ?_) D) rfl c hc (fun m hm => ?_)
      (fun _ _ => trivial) fun r hr hshape => ?_⟩
    · obtain ⟨c', rfl, -⟩ := hdeclares
      exact hshape (Node.shape_eq_classDecl.2 ⟨c', hd⟩)
    · exact ⟨⟨.top, .stmt (.classDecl c)⟩, trivial, hm⟩
    · -- what surrounds the class does not matter for the shapes
      have hmem := List.mem_map_of_mem (f := Place.shape) hr
      rw [← ClassDecl.Alike.shape _ .top c hc] at hmem
      obtain ⟨r', hr', hshape'⟩ := List.mem_map.1 hmem
      exact hplaces r' hr' (hshape'.trans hshape)

end LaidText

/-! ### Primed sessions -/

/-- The name that an action registers a function of the host under. -/
def Action.registers? : Action → Option String
  | .native name _ _ _ => some name
  | .run _ _ _ | .takeOutput => none

/-- The bound on the depth of the run that an action is. -/
def Action.fuel? : Action → Option Nat
  | .run fuel _ _ => some fuel
  | .native _ _ _ _ | .takeOutput => none

namespace Session

/-- The session is in order as to its prelude.  Until a program is accepted, the names of the classes
are free; after that they are among the globals. -/
structure Primed (s : Session) : Prop where
  grounded : ∃ texts, s.Grounded texts
  spares : s.Consists (fun _ => True) Prelude.laid.Spares
  free : s.preludePending = true →
    ∀ x ∈ Prelude.classes, (s.machine.vars Machine.globalFrame).has x = false
  bound : s.preludePending = false →
    ∀ x ∈ Prelude.classes, (s.machine.vars Machine.globalFrame).has x = true
  behind : s.preludePending = false → Prelude.laid.stop ≤ s.sources.nextLine

/-- What the row of tokens of a program is made of: the first program stands behind the classes of
the prelude. -/
structure Fronts (s : Session) (source : String) (p q r : Program) (nextId : NodeId) : Prop where
  split : p = q ++ r
  classes : ∃ prelude k own, tokenizeFrom 1 Prelude.source = .ok prelude ∧
    parseFrom s.nextId prelude = .ok (q, k) ∧
    tokenizeFrom s.nextSourceLine source = .ok own ∧
    parseFrom k (own.map (Token.shift prelude.dropLast.length)) = .ok (r, nextId)
  names : RowOfClasses Prelude.classes q

section

variable {s : Session} {Q : Token → Prop} {P : Node → Prop}

/-- A run keeps the frames that there are. -/
theorem Consists.grows (h : s.Consists Q P) (fuel : Nat) {p : Program}
    (hp : stmtsAlike (Likeness.diagonal Q P s.machine.distances).toTreeLikeness true .top p p) :
    Grows s.machine.frames (s.execute fuel p).2.machine.frames := by
  have hsim := Sims.runProgram (sims_run (.diagonal Q P s.machine.distances) fuel)
    (fun h => h.elim) Surroundings.not_inFunction_top hp .undefined h (.refl _) rfl
  rw [execute_machine]
  exact hsim.later.frames

/-- What is visited has nodes with the property. -/
theorem Consists.visited (h : s.Consists Q P) {p : Program}
    (hp : stmtsAlike (Likeness.diagonal Q P s.machine.distances).toTreeLikeness true .top p p)
    {fuel : Nat} {d : Stmt} {m : Machine}
    (hv : Visits fuel (fun self => runProgram self p .undefined) s.machine ⟨.stmt d, m⟩) :
    P (.stmt d) := by
  have hgood : Good (.diagonal Q P s.machine.distances) ⟨.stmt d, m⟩ :=
    good_of_visits hv (fun self => runProgram self p .undefined) h fun hself =>
      hself.runProgram (fun ht => ht.elim) Surroundings.not_inFunction_top hp .undefined
  obtain ⟨ctx, n', -, hnode⟩ := hgood.node (n := .stmt d) rfl
  exact hnode

namespace Primed

variable {name source : String}

/-- A source starts behind the prelude. -/
theorem source_behind (h : s.Primed) : Prelude.laid.stop ≤ s.nextSourceLine := by
  cases hpending : s.preludePending with
  | false =>
    have hlead : s.leadingTokens = (.ok [], s) := by rw [leadingTokens, hpending]; rfl
    rw [nextSourceLine, hlead]
    exact h.behind hpending
  | true =>
    obtain ⟨texts, hgrounded⟩ := h.grounded
    obtain ⟨leading, mark, s₁, hlead, -, -, hline, -⟩ :=
      (hgrounded.fronted hpending).leading hpending
    rw [nextSourceLine, hlead, Prelude.laid_stop]
    exact hline

/-- The program that is accepted first. -/
theorem fronts (h : s.Primed) (hpending : s.preludePending = true) {p : Program} {s₁ : Session}
    (hload : s.load name source = (.ok p, s₁)) :
    ∃ q r, s.Fronts source p q r s₁.nextId := by
  obtain ⟨texts, hgrounded⟩ := h.grounded
  have hloaded := load_loaded s name source
  rw [hload] at hloaded
  cases hloaded with
  | accepted hscan hparse hres =>
    obtain ⟨leading, mark, own, hprelude, hown, rfl⟩ :=
      (hgrounded.fronted hpending).scanned hpending hscan
    obtain ⟨inner, feed, program, rfl, hself⟩ := selfContained_of_leading hprelude
    obtain ⟨q, k, hread, hclasses, hbehind⟩ := hself.parseFrom_behind s.nextId
    rw [List.append_assoc, List.singleton_append, hbehind _ (endMark_mem_shift hown _)] at hparse
    cases hrest : parseFrom k (own.map (Token.shift (inner ++ [feed]).length)) with
    | error e =>
      rw [hrest] at hparse
      cases hparse
    | ok r =>
      rw [hrest] at hparse
      obtain ⟨rfl, rfl⟩ := Prod.mk.inj (Except.ok.inj hparse)
      refine ⟨q, r.1, rfl, ⟨_, k, own, hprelude, by rwa [List.append_assoc], hown, ?_⟩, hclasses⟩
      rw [List.dropLast_concat, hrest]
      rfl

/-- Any other program is that of its source alone, and spares the prelude. -/
theorem spares_source (h : s.Primed) (hpending : s.preludePending = false) {p : Program}
    {s₁ : Session} (hload : s.load name source = (.ok p, s₁)) (D : Distances) :
    stmtsAlike (Likeness.diagonal (fun _ => True) Prelude.laid.Spares D).toTreeLikeness true .top
      p p := by
  have hlead : s.leadingTokens = (.ok [], s) := by rw [leadingTokens, hpending]; rfl
  have hloaded := load_loaded s name source
  rw [hload] at hloaded
  cases hloaded with
  | accepted hscan hparse hres =>
    obtain ⟨own, hown, rfl⟩ := scanned_of_leading hlead hscan
    exact LaidText.spares_behind ⟨name, source, s.nextSourceLine⟩ hown h.source_behind hparse D

/-- What stands behind the classes of the prelude spares them. -/
theorem spares_rest (h : s.Primed) {p q r : Program} {nextId : NodeId}
    (hfronts : s.Fronts source p q r nextId) (D : Distances) :
    stmtsAlike (Likeness.diagonal (fun _ => True) Prelude.laid.Spares D).toTreeLikeness true .top
      r r := by
  obtain ⟨prelude, k, own, -, -, hown, hrest⟩ := hfronts.classes
  exact LaidText.spares_behind ⟨"", source, s.nextSourceLine⟩ hown h.source_behind hrest D

/-- The first program declares the classes of the prelude, and then does what its source says. -/
theorem first_run (h : s.Primed) (hpending : s.preludePending = true) {p q r : Program}
    {s₁ : Session} (hload : s.load name source = (.ok p, s₁))
    (hfronts : s.Fronts source p q r s₁.nextId) (fuel : Nat) :
    (∀ d ∈ q, Prelude.laid.Declares d) ∧ ∃ m : Machine,
      runProgram (Evaluation.run (fuel + 1)) q .undefined s₁.machine = .ok .undefined m ∧
      runProgram (Evaluation.run (fuel + 1)) p .undefined s₁.machine =
        runProgram (Evaluation.run (fuel + 1)) r .undefined m ∧
      { s₁ with machine := m }.Consists (fun _ => True) Prelude.laid.Spares ∧
      ∀ x ∈ Prelude.classes, (m.vars Machine.globalFrame).has x = true := by
  obtain ⟨D, hmachine⟩ := s.load_machine name source
  rw [hload] at hmachine
  obtain ⟨texts, hgrounded⟩ := h.grounded
  obtain ⟨programs, hsound⟩ := hgrounded.sound
  obtain ⟨prelude, k, own, hprelude, hread, -, -⟩ := hfronts.classes
  have hdeclares := Prelude.laid.declares_read hprelude hread hfronts.names
    s₁.machine.distances
  have hconsists := h.spares.withDistances hmachine
  have hframe : s₁.machine.frame = Machine.globalFrame := by rw [hmachine]; exact hsound.frame
  have hfree : ∀ x ∈ Prelude.classes, (s₁.machine.vars Machine.globalFrame).has x = false := by
    rw [hmachine]
    exact h.free hpending
  obtain ⟨m, hrun, hm, -, -, hbound⟩ := hfronts.names.declared (by decide) hconsists hframe hfree
    (fun c hc => (hdeclares _ hc).2 c rfl) fuel
  refine ⟨fun d hd => (hdeclares d hd).1, m, ?_, hfronts.split ▸ hrun r .undefined, ?_, hbound⟩
  · have hnothing := hrun [] .undefined
    rwa [List.append_nil] at hnothing
  · have hleft : m.distances = s₁.machine.distances := hm.left
    unfold Consists
    rwa [← hleft] at hm

/-- A program that is accepted leaves the machine without nodes that declare the classes of the
prelude, and with these classes among the globals. -/
theorem executed (h : s.Primed) {p : Program} {s₁ : Session}
    (hload : s.load name source = (.ok p, s₁)) (fuel : Nat) :
    (s₁.execute (fuel + 1) p).2.Consists (fun _ => True) Prelude.laid.Spares ∧
      ∀ x ∈ Prelude.classes,
        ((s₁.execute (fuel + 1) p).2.machine.vars Machine.globalFrame).has x = true := by
  cases hpending : s.preludePending with
  | true =>
    obtain ⟨q, r, hfronts⟩ := h.fronts hpending hload
    obtain ⟨-, m, -, hrun, hm, hbound⟩ := h.first_run hpending hload hfronts fuel
    have hrest := h.spares_rest hfronts m.distances
    have hsame : s₁.execute (fuel + 1) p = { s₁ with machine := m }.execute (fuel + 1) r := by
      unfold execute
      rw [hrun]
    rw [hsame]
    exact ⟨(hm.execute _ hrest).1, fun x hx => (hm.grows _ hrest).has_global (hbound x hx)⟩
  | false =>
    obtain ⟨D, hmachine⟩ := s.load_machine name source
    rw [hload] at hmachine
    have hm := h.spares.withDistances hmachine
    have hp := h.spares_source hpending hload s₁.machine.distances
    refine ⟨(hm.execute _ hp).1, fun x hx => (hm.grows _ hp).has_global ?_⟩
    rw [hmachine]
    exact h.bound hpending x hx

/-- One action. -/
theorem perform (h : s.Primed) (a : Action)
    (hnames : ∀ x ∈ Prelude.classes, a.registers? ≠ some x) (hfuel : a.fuel? ≠ some 0) :
    (s.perform a).Primed := by
  obtain ⟨texts, hgrounded⟩ := h.grounded
  have hnext : ∃ texts, (s.perform a).Grounded texts := ⟨_, hgrounded.perform a⟩
  -- a function of the host takes none of the names
  have hne : ∀ {name : String}, a.registers? = some name → ∀ x ∈ Prelude.classes, x ≠ name :=
    fun hregisters x hx heq => hnames x hx (heq ▸ hregisters)
  cases a with
  | native name arity f held =>
    have hf : f.Respects (Diagonal fun _ => True) (Diagonal fun _ => True) :=
      HostFunction.respects_of_eq And.left fun _ => ⟨rfl, trivial⟩
    exact ⟨hnext, h.spares.defineNative name arity hf held,
      fun hp x hx => (Machine.has_defineHost (hne rfl x hx) arity f held).trans (h.free hp x hx),
      fun hp x hx => (Machine.has_defineHost (hne rfl x hx) arity f held).trans (h.bound hp x hx),
      h.behind⟩
  | takeOutput => exact ⟨hnext, Machine.Alike.withSink h.spares _, h.free, h.bound, h.behind⟩
  | run fuel name source =>
    obtain ⟨fuel, rfl⟩ := Nat.exists_eq_succ_of_ne_zero fun hzero =>
      hfuel (congrArg some hzero)
    obtain ⟨hsources, -, hpending⟩ := run_layout s (fuel + 1) name source
    rw [(scanSource_machine s name source).2.2] at hpending
    have hbehind : Prelude.laid.stop ≤ (s.run (fuel + 1) name source).2.sources.nextLine := by
      obtain ⟨leading, s₂, hlead, -⟩ := leadingTokens_ok hgrounded.laid
      have hsource := h.source_behind
      rw [nextSourceLine, hlead] at hsource
      rw [hsources, scanSource_of_leading hlead]
      exact hsource.trans (Nat.le_add_right _ _)
    obtain ⟨D, hmachine⟩ := s.load_machine name source
    cases hload : s.load name source with
    | mk r s₁ =>
      rw [hload] at hmachine hpending
      cases r with
      | error outcome =>
        have hrun : s.run (fuel + 1) name source = (outcome, s₁) := by rw [Session.run, hload]
        rw [Session.perform] at hnext ⊢
        rw [hrun] at hnext hbehind hpending ⊢
        have hkept : s₁.preludePending = s.preludePending := hpending.trans (Bool.and_true _)
        have hvars₁ : s₁.machine.vars = s.machine.vars := by rw [hmachine]; rfl
        refine ⟨hnext, h.spares.withDistances hmachine, ?_, ?_,
          fun _ => hbehind⟩
        · rw [hkept, hvars₁]
          exact h.free
        · rw [hkept, hvars₁]
          exact h.bound
      | ok p =>
        have hrun : s.run (fuel + 1) name source = s₁.execute (fuel + 1) p := by
          rw [Session.run, hload]
        obtain ⟨hspares, hbound⟩ := h.executed hload fuel
        rw [Session.perform] at hnext ⊢
        rw [hrun] at hnext hbehind hpending ⊢
        refine ⟨hnext, hspares, fun hp => ?_, fun _ => hbound, fun _ => hbehind⟩
        rw [hpending] at hp
        simp [Except.isOk, Except.toBool] at hp

/-- Any number of actions. -/
theorem after (h : s.Primed) (history : List Action)
    (hnames : ∀ a ∈ history, ∀ x ∈ Prelude.classes, a.registers? ≠ some x)
    (hfuel : ∀ a ∈ history, a.fuel? ≠ some 0) : (s.after history).Primed := by
  induction history generalizing s with
  | nil => exact h
  | cons a history ih =>
    obtain ⟨hname, hnames⟩ := List.forall_mem_cons.1 hnames
    obtain ⟨hfirst, hfuel⟩ := List.forall_mem_cons.1 hfuel
    exact ih (h.perform a hname hfirst) hnames hfuel

end Primed

end

section

variable (input : List UInt8) (limit : Option Nat) (clock : Clock)

theorem primed_start : (start true input limit clock).Primed where
  grounded := ⟨[], grounded_start true input limit clock⟩
  spares := consists_start true input limit clock
  free _ x hx := by
    have hbuiltin : ∀ x ∈ Prelude.classes, ∀ b ∈ builtins, x ≠ b.1 := by
      simp [Prelude.classes, builtins]
    have hdefine (bs : List (String × Nat × NativeAction)) (hbs : ∀ b ∈ bs, x ≠ b.1) (m : Machine) :
        ((bs.foldl (fun m b => m.defineNative b.1 b.2.1 b.2.2) m).vars Machine.globalFrame).has x =
          (m.vars Machine.globalFrame).has x := by
      induction bs generalizing m with
      | nil => rfl
      | cons b bs ih =>
        obtain ⟨hb, hbs⟩ := List.forall_mem_cons.1 hbs
        exact (ih hbs _).trans (Machine.has_defineNative hb _ _)
    exact hdefine builtins (hbuiltin x hx) _
  bound h := by cases h
  behind h := by cases h

/-- The prelude is pending until a program is accepted. -/
theorem pending_iff (s : Session) (hpending : s.preludePending = true) (history : List Action) :
    (s.after history).preludePending = true ↔ s.programs history = [] := by
  induction history using List.reverseRecOn with
  | nil => exact ⟨fun _ => rfl, fun _ => hpending⟩
  | append_singleton history a ih =>
    rw [after_append, programs_append, List.append_eq_nil_iff, ← ih]
    generalize s.after history = s'
    change (s'.perform a).preludePending = true ↔ _ ∧ s'.accepts a ++ [] = []
    rw [List.append_nil]
    cases a with
    | run fuel name source =>
      rw [Session.perform, (run_layout s' fuel name source).2.2,
        (scanSource_machine s' name source).2.2, Bool.and_eq_true, accepts]
      cases (s'.load name source).1 with
      | error e => simp [loaded, Except.isOk, Except.toBool]
      | ok p => simp [loaded, Except.isOk, Except.toBool]
    | _ => exact ⟨fun h => ⟨h, rfl⟩, And.left⟩

/-- **The prelude runs first, and once.**  In any history of a session with the prelude in which the
host registers nothing under the names of its classes:

1. as soon as a source has been run, successfully or not, the prelude is laid out on the first
   lines, and behind it nothing but the sources of the runs;
2. the prelude is pending until a program is accepted;
3. from then on the classes are among the globals, whatever becomes of that program and of any
   later one;
4. the program that is accepted first consists of the prelude and of what its source says.  When it
   is run, every statement of the prelude declares a class and succeeds; what follows is the run of
   the source, on a machine that has the classes, and no statement of the prelude is executed in it;
5. any other program that is accepted executes no statement of the prelude. -/
theorem prelude_first_and_once (history : List Action)
    (hnames : ∀ a ∈ history, ∀ x ∈ Prelude.classes, a.registers? ≠ some x)
    (hfuel : ∀ a ∈ history, a.fuel? ≠ some 0) :
    (∃ texts : List LaidText,
      texts.map (fun t => (t.name, t.source)) = history.filterMap Action.source? ∧
      ((start true input limit clock).after history).sources.Holds
        (if texts = [] then [] else Prelude.laid :: texts)) ∧
    (((start true input limit clock).after history).preludePending = true ↔
      (start true input limit clock).programs history = []) ∧
    ((start true input limit clock).programs history ≠ [] → ∀ x ∈ Prelude.classes,
      (((start true input limit clock).after history).machine.vars Machine.globalFrame).has x =
        true) ∧
    ∀ (name source : String) (p : Program) (s₁ : Session),
      ((start true input limit clock).after history).load name source = (.ok p, s₁) →
      ((start true input limit clock).programs history = [] → ∃ q r : Program,
        ((start true input limit clock).after history).Fronts source p q r s₁.nextId ∧
        ∀ fuel, (∀ d ∈ q, Prelude.laid.Declares d) ∧ ∃ m : Machine,
          runProgram (Evaluation.run (fuel + 1)) q .undefined s₁.machine = .ok .undefined m ∧
          runProgram (Evaluation.run (fuel + 1)) p .undefined s₁.machine =
            runProgram (Evaluation.run (fuel + 1)) r .undefined m ∧
          (∀ x ∈ Prelude.classes, (m.vars Machine.globalFrame).has x = true) ∧
          ∀ d m', Visits (fuel + 1) (fun self => runProgram self r .undefined) m ⟨.stmt d, m'⟩ →
            ¬Prelude.laid.Declares d) ∧
      ((start true input limit clock).programs history ≠ [] → ∀ fuel d m',
        Visits fuel (fun self => runProgram self p .undefined) s₁.machine ⟨.stmt d, m'⟩ →
          ¬Prelude.laid.Declares d) := by
  have hprimed := (primed_start input limit clock).after history hnames hfuel
  have hpending := pending_iff (start true input limit clock) rfl history
  have hdone : (start true input limit clock).programs history ≠ [] →
      ((start true input limit clock).after history).preludePending = false :=
    fun hne => Bool.eq_false_iff.2 fun hp => hne (hpending.1 hp)
  obtain ⟨texts, hsources, htexts⟩ := texts_start input limit clock history
  have hholds := after_sources (laid_start true input limit clock) ⟨rfl, .nil, by simp⟩ history
  rw [List.nil_append, htexts] at hholds
  refine ⟨⟨texts, hsources, hholds⟩, hpending, fun hne => hprimed.bound (hdone hne),
    fun name source p s₁ hload => ⟨fun hnil => ?_, fun hne fuel d m' hv => ?_⟩⟩
  · obtain ⟨q, r, hfronts⟩ := hprimed.fronts (hpending.2 hnil) hload
    refine ⟨q, r, hfronts, fun fuel => ?_⟩
    obtain ⟨hdeclare, m, hclasses, hrest, hm, hbound⟩ :=
      hprimed.first_run (hpending.2 hnil) hload hfronts fuel
    exact ⟨hdeclare, m, hclasses, hrest, hbound, fun d m' hv =>
      hm.visited (hprimed.spares_rest hfronts m.distances) hv d rfl⟩
  · obtain ⟨D, hmachine⟩ := load_machine ((start true input limit clock).after history) name source
    rw [hload] at hmachine
    have hm := hprimed.spares.withDistances hmachine
    exact hm.visited (hprimed.spares_source (hdone hne) hload s₁.machine.distances) hv d rfl

/-- A session that has still to run the prelude accepts the empty source. -/
theorem Grounded.load_empty {s : Session} {texts : List LaidText} (h : s.Grounded texts)
    (hpending : s.preludePending = true) (name : String) :
    ∃ p s₁, s.load name "" = (.ok p, s₁) := by
  have htokens (line : Nat) : tokenizeFrom line "" = .ok [Scan.markAt ⟨line, 1⟩ 0] := by
    rw [tokenizeFrom, scanFrom, String.toList_empty, Scan.start_nil]
    rfl
  obtain ⟨leading, mark, s₂, hlead, hprelude, -⟩ := (h.fronted hpending).leading hpending
  have hscan : s.scanSource name "" = _ := scanSource_of_leading hlead
  rw [htokens] at hscan
  obtain ⟨inner, feed, program, rfl, hself⟩ := selfContained_of_leading hprelude
  obtain ⟨q, k, -, -, hbehind⟩ := hself.parseFrom_behind s.nextId
  -- the row is that of the prelude with another end mark
  obtain ⟨last, hlast, hkind⟩ : ∃ last : Token, Token.shift (inner ++ [feed]).length
      (Scan.markAt ⟨s₂.sources.nextLine, 1⟩ 0) = last ∧ last.kind = .endMark := ⟨_, rfl, rfl⟩
  have hread : parseFrom s.nextId (inner ++ [feed] ++ [last]) = .ok (q, k) := by
    rw [List.append_assoc, List.singleton_append, hbehind _ ⟨last, List.mem_singleton_self _, hkind⟩,
      parseFrom_mark hkind]
    simp [Except.map]
  change s.scanSource name "" = (.ok (inner ++ [feed] ++ [Token.shift _ _]), _) at hscan
  rw [hlast] at hscan
  cases hres : resolve s.machine.distances q with
  | mk r D =>
    cases r with
    | ok u => exact ⟨_, _, load_of_accepted hscan hread hres⟩
    | error e =>
      -- an error would be at a token of the source, which has none
      obtain ⟨span, hspan, hmark, -⟩ := ((h.parsed 0 hscan rfl).2 _ _ hread).2 _ _ hres
      obtain ⟨spans, hspans, -, hmem⟩ := hspan
      rw [htokens] at hspans
      have := List.mem_map_of_mem (f := Span.token) hmem
      rw [← Except.ok.inj hspans] at this
      obtain heq := List.mem_singleton.1 this
      rw [heq] at hmark
      exact absurd rfl hmark

set_option maxRecDepth 100000 in
/-- A lone parenthesis cannot be read, wherever it stands. -/
theorem openParen_rejected (line k shift : Nat) {own : List Token}
    (hown : tokenizeFrom line "(" = .ok own) (r : Program × NodeId) :
    parseFrom k (own.map (Token.shift shift)) ≠ .ok r := by
  have htokens : tokenizeFrom line "(" =
      .ok [.make .leftParen "(" line 1 0 none, .make .endMark "" line 2 1 none] := by cbv
  obtain rfl := Except.ok.inj (hown.symm.trans htokens)
  have hparse : parseFrom k (List.map (Token.shift shift) [.make .leftParen "(" line 1 0 none,
      .make .endMark "" line 2 1 none]) = .error (.rejected ⟨.expected .expression,
        .make .endMark "" line 2 (1 + shift) none⟩) := by cbv
  rw [hparse]
  rintro ⟨⟩

/-- The host registers functions of its own, a source with an error is run, and then one without. -/
def failedStart : List Action := hostStart ++ [.run 9 "main" "("] ++ [.run 9 "main" ""]

theorem programs_run (s : Session) (fuel : Nat) (name source : String) :
    s.programs [.run fuel name source] = loaded (s.load name source).1 := List.append_nil _

/-- Only the second source is accepted. -/
theorem programs_failedStart :
    (start true [] none (.still 0)).programs (hostStart ++ [.run 9 "main" "("]) = [] ∧
      (start true [] none (.still 0)).programs failedStart ≠ [] := by
  have hnames : ∀ a ∈ hostStart, ∀ x ∈ Prelude.classes, a.registers? ≠ some x := by
    simp [hostStart, Prelude.classes, Action.registers?]
  have hfuel : ∀ a ∈ hostStart, a.fuel? ≠ some 0 := by simp [hostStart, Action.fuel?]
  have hprimed := (primed_start [] none (.still 0)).after hostStart hnames hfuel
  have hfirst : (start true [] none (.still 0)).programs (hostStart ++ [.run 9 "main" "("]) = [] := by
    have hnone : (start true [] none (.still 0)).programs hostStart = [] := rfl
    rw [programs_append, hnone, List.nil_append, programs_run]
    change loaded ((hosted true).load "main" "(").1 = []
    cases hload : (hosted true).load "main" "(" with
    | mk r s₁ =>
      cases r with
      | error o => rfl
      | ok p =>
        obtain ⟨q, r, hfronts⟩ := hprimed.fronts rfl hload
        obtain ⟨prelude, k, own, -, -, hown, hrest⟩ := hfronts.classes
        exact absurd hrest (openParen_rejected _ _ _ hown _)
  refine ⟨hfirst, ?_⟩
  have hpending := (pending_iff (start true [] none (.still 0)) rfl _).2 hfirst
  have hground := (grounded_start true [] none (.still 0)).after
    (hostStart ++ [.run 9 "main" "("])
  obtain ⟨p, s₁, hload⟩ := hground.load_empty hpending "main"
  rw [failedStart, programs_append, hfirst, List.nil_append, programs_run, hload]
  simp [loaded]

/-- After a failed start and a run that is accepted the layout holds the prelude and the two sources,
and the classes of the prelude are among the globals. -/
theorem prelude_after_failedStart :
    (∀ a ∈ failedStart, ∀ x ∈ Prelude.classes, a.registers? ≠ some x) ∧
    (∀ a ∈ failedStart, a.fuel? ≠ some 0) ∧
    (∃ texts : List LaidText,
      texts.map (fun t => (t.name, t.source)) = [("main", "("), ("main", "")] ∧
      ((start true [] none (.still 0)).after failedStart).sources.Holds
        (if texts = [] then [] else Prelude.laid :: texts)) ∧
    (start true [] none (.still 0)).programs (hostStart ++ [.run 9 "main" "("]) = [] ∧
    (start true [] none (.still 0)).programs failedStart ≠ [] ∧
    ∀ x ∈ Prelude.classes,
      (((start true [] none (.still 0)).after failedStart).machine.vars Machine.globalFrame).has x =
        true := by
  have hnames : ∀ a ∈ failedStart, ∀ x ∈ Prelude.classes, a.registers? ≠ some x := by
    simp [failedStart, hostStart, Prelude.classes, Action.registers?]
  have hfuel : ∀ a ∈ failedStart, a.fuel? ≠ some 0 := by
    simp [failedStart, hostStart, Action.fuel?]
  have h := prelude_first_and_once [] none (.still 0) failedStart hnames hfuel
  obtain ⟨hrejected, haccepted⟩ := programs_failedStart
  exact ⟨hnames, hfuel, h.1, hrejected, haccepted, h.2.2.1 haccepted⟩

end

end Session

end ScopedScript
