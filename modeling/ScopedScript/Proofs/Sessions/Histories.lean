import ScopedScript.Proofs.Parsing.Words
import ScopedScript.Proofs.Scope.Declarations
import ScopedScript.Proofs.Scope.Programs
import ScopedScript.Proofs.Simulation.Visits
import ScopedScript.Session

/-! # Histories of sessions

What can be done with a session, and what holds of every session that comes about.

* An `Action` is a run of a source, the registration of a function of the host, or the taking of output;
  a history is a row of actions, and `Session.programs` are the programs that its runs accept.
* `Session.load` is summed up by `Session.Loaded`, with one case for each stage.
* A session is *sound* for its programs (`Session.Sound`) if every function, class and method on
  its machine is a part of one of them, was made in a frame that is aligned with what surrounds that
  part, and has the distances of its places, and if the frames around the members of classes hold
  the instances that they were made for.  Every history leads to a sound session
  (`Session.sound_after`). -/

namespace ScopedScript

/-- Something to do with a session. -/
inductive Action where
  | run (fuel : Nat) (name source : String)
  | native (name : String) (arity : Nat) (f : HostFunction) (held : Datum)
  | takeOutput

/-- The functions of the host that an action registers. -/
def Action.hosts : Action → List HostFunction
  | .native _ _ f _ => [f]
  | .run _ _ _ | .takeOutput => []

namespace Session

/-- The session after an action. -/
def perform (s : Session) : Action → Session
  | .run fuel name source => (s.run fuel name source).2
  | .native name arity f held => s.defineNative name arity f held
  | .takeOutput => s.takeOutput.2

/-- The session after a history. -/
def after (s : Session) (history : List Action) : Session := history.foldl perform s

/-- The program that has been loaded, if any has. -/
def loaded : Except Outcome Program → List Program
  | .ok program => [program]
  | .error _ => []

/-- The program that an action runs, if it gets as far as that. -/
def accepts (s : Session) : Action → List Program
  | .run _ name source => loaded (s.load name source).1
  | .native _ _ _ _ | .takeOutput => []

/-- The programs that a history runs, in order. -/
def programs (s : Session) : List Action → List Program
  | [] => []
  | a :: history => s.accepts a ++ (s.perform a).programs history

/-- The host registers two functions of its own. -/
def hostStart : List Action :=
  [.native "shout" 1 .shout (.scalar .undefined), .native "double" 1 .double (.scalar .undefined)]

/-- A session with these functions. -/
def hosted (prelude : Bool) : Session := (start prelude [] none (.still 0)).after hostStart

theorem hosts_hosted (prelude : Bool) : (hosted prelude).machine.hosts = #[.shout, .double] := rfl

theorem forall_hosts_hostStart {P : HostFunction → Prop} (h : ∀ {g}, P (.plain g)) :
    ∀ a ∈ hostStart, ∀ f ∈ a.hosts, P f := by
  have hboth : P .shout ∧ P .double := ⟨h, h⟩
  simpa [hostStart, Action.hosts] using hboth

theorem after_append (s : Session) (history more : List Action) :
    s.after (history ++ more) = (s.after history).after more := List.foldl_append

theorem programs_append (s : Session) (history more : List Action) :
    s.programs (history ++ more) = s.programs history ++ (s.after history).programs more := by
  induction history generalizing s with
  | nil => rfl
  | cons a history ih =>
    rw [List.cons_append, programs, programs, ih, List.append_assoc]
    rfl

/-! ### Loading -/

section

variable {s : Session} {name source : String}

theorem layFirst_machine (s : Session) (name source : String) :
    (s.layFirst name source).2.machine = s.machine ∧
      (s.layFirst name source).2.nextId = s.nextId ∧
      (s.layFirst name source).2.preludePending = s.preludePending := by
  unfold layFirst
  split
  · exact ⟨rfl, rfl, rfl⟩
  · dsimp only
    split <;> exact ⟨rfl, rfl, rfl⟩

/-- Laying out and scanning a source leaves the machine alone. -/
theorem scanSource_machine (s : Session) (name source : String) :
    (s.scanSource name source).2.machine = s.machine ∧
      (s.scanSource name source).2.nextId = s.nextId ∧
      (s.scanSource name source).2.preludePending = s.preludePending := by
  have hlead : s.leadingTokens.2.machine = s.machine ∧ s.leadingTokens.2.nextId = s.nextId ∧
      s.leadingTokens.2.preludePending = s.preludePending := by
    unfold leadingTokens
    split
    · exact layFirst_machine s _ _
    · exact ⟨rfl, rfl, rfl⟩
  unfold scanSource
  generalize s.leadingTokens = r at hlead
  obtain ⟨leading, s₁⟩ := r
  cases leading <;> exact hlead

/-- Scanning a source without anything in front of it. -/
theorem scanSource_of_ready (hready : s.preludePending = false) (name : String)
    {tokens : List Token} (htokens : tokenizeFrom s.sources.nextLine source = .ok tokens) :
    s.scanSource name source =
      (.ok tokens, { s with sources := (s.sources.add name source).2 }) := by
  have hlead : s.leadingTokens = (.ok [], s) := by
    rw [leadingTokens, hready]
    rfl
  have hshift : tokens.map (Token.shift 0) = tokens := List.map_id tokens
  unfold scanSource
  rw [hlead]
  change ((tokenizeFrom s.sources.nextLine source).map _, _) = _
  rw [htokens]
  change (Except.ok (tokens.map (Token.shift 0)), _) = _
  rw [hshift]
  rfl

/-- The session with what the analysis of a program leaves: the next number and the distances. -/
def analysed (s : Session) (nextId : NodeId) (distances : Distances) : Session :=
  { s with nextId := nextId, machine := { s.machine with distances := distances } }

/-- What loading a source comes to, stage by stage. -/
inductive Loaded (s : Session) (name source : String) : Except Outcome Program × Session → Prop
  | scan {e : ScanError} {s₁ : Session} : s.scanSource name source = (.error e, s₁) →
      Loaded s name source (.error (.failed (.scan e)), s₁)
  | parse {tokens : List Token} {e : ParseError} {s₁ : Session} :
      s.scanSource name source = (.ok tokens, s₁) →
      parseFrom s.nextId tokens = .error (.rejected e) →
      Loaded s name source (.error (.failed (.parse e)), s₁)
  | unfinished {tokens : List Token} {failure : Grammar.Failure} {s₁ : Session} :
      s.scanSource name source = (.ok tokens, s₁) → parseFrom s.nextId tokens = .error failure →
      (∀ e, failure ≠ .rejected e) → Loaded s name source (.error .unfinished, s₁)
  | scope {tokens : List Token} {s₁ : Session} {program : Program} {nextId : NodeId}
      {e : ScopeError} {distances : Distances} : s.scanSource name source = (.ok tokens, s₁) →
      parseFrom s.nextId tokens = .ok (program, nextId) →
      resolve s.machine.distances program = (.error e, distances) →
      Loaded s name source (.error (.failed (.scope e)), s₁.analysed nextId distances)
  | accepted {tokens : List Token} {s₁ : Session} {program : Program} {nextId : NodeId}
      {distances : Distances} : s.scanSource name source = (.ok tokens, s₁) →
      parseFrom s.nextId tokens = .ok (program, nextId) →
      resolve s.machine.distances program = (.ok (), distances) →
      Loaded s name source
        (.ok program, { s₁.analysed nextId distances with preludePending := false })

section

variable {s₁ : Session} {tokens : List Token}

/-- Loading a source that cannot be scanned. -/
theorem load_of_scan_error {e : ScanError} (hscan : s.scanSource name source = (.error e, s₁)) :
    s.load name source = (.error (.failed (.scan e)), s₁) := by
  unfold load
  rw [hscan]

/-- Loading a source that cannot be parsed. -/
theorem load_of_rejected {e : ParseError} (hscan : s.scanSource name source = (.ok tokens, s₁))
    (hparse : parseFrom s.nextId tokens = .error (.rejected e)) :
    s.load name source = (.error (.failed (.parse e)), s₁) := by
  obtain ⟨_, hid, _⟩ := scanSource_machine s name source
  rw [hscan] at hid
  unfold load
  rw [hscan]
  dsimp only at hid ⊢
  rw [hid, hparse]

/-- Loading a source that the parser comes to no verdict on. -/
theorem load_of_unfinished {failure : Grammar.Failure}
    (hscan : s.scanSource name source = (.ok tokens, s₁))
    (hparse : parseFrom s.nextId tokens = .error failure) (hfailure : ∀ e, failure ≠ .rejected e) :
    s.load name source = (.error .unfinished, s₁) := by
  obtain ⟨_, hid, _⟩ := scanSource_machine s name source
  rw [hscan] at hid
  unfold load
  rw [hscan]
  dsimp only at hid ⊢
  rw [hid, hparse]
  cases failure with
  | rejected e => exact absurd rfl (hfailure e)
  | outOfRange | outOfFuel => rfl

variable {program : Program} {nextId : NodeId} {distances : Distances}

/-- Loading a source that the analysis rejects. -/
theorem load_of_scope_error {e : ScopeError} (hscan : s.scanSource name source = (.ok tokens, s₁))
    (hparse : parseFrom s.nextId tokens = .ok (program, nextId))
    (hres : resolve s.machine.distances program = (.error e, distances)) :
    s.load name source = (.error (.failed (.scope e)), s₁.analysed nextId distances) := by
  obtain ⟨hmachine, hid, _⟩ := scanSource_machine s name source
  rw [hscan] at hmachine hid
  unfold load
  rw [hscan]
  dsimp only at hmachine hid ⊢
  rw [hid, hparse]
  dsimp only
  rw [hmachine, hres, ← hmachine]
  rfl

/-- Loading a source that is accepted. -/
theorem load_of_accepted (hscan : s.scanSource name source = (.ok tokens, s₁))
    (hparse : parseFrom s.nextId tokens = .ok (program, nextId))
    (hres : resolve s.machine.distances program = (.ok (), distances)) :
    s.load name source =
      (.ok program, { s₁.analysed nextId distances with preludePending := false }) := by
  obtain ⟨hmachine, hid, _⟩ := scanSource_machine s name source
  rw [hscan] at hmachine hid
  unfold load
  rw [hscan]
  dsimp only at hmachine hid ⊢
  rw [hid, hparse]
  dsimp only
  rw [hmachine, hres, ← hmachine]
  rfl

end

theorem load_loaded (s : Session) (name source : String) :
    Loaded s name source (s.load name source) := by
  generalize hscan : s.scanSource name source = r
  obtain ⟨tokens, s₁⟩ := r
  cases tokens with
  | error e =>
    rw [load_of_scan_error hscan]
    exact .scan hscan
  | ok tokens =>
    cases hparse : parseFrom s.nextId tokens with
    | error e =>
      cases e with
      | rejected e =>
        rw [load_of_rejected hscan hparse]
        exact .parse hscan hparse
      | outOfRange | outOfFuel =>
        rw [load_of_unfinished hscan hparse (by rintro e ⟨⟩)]
        exact .unfinished hscan hparse (by rintro e ⟨⟩)
    | ok r =>
      obtain ⟨program, nextId⟩ := r
      generalize hres : resolve s.machine.distances program = r
      obtain ⟨resolved, distances⟩ := r
      cases resolved with
      | error e =>
        rw [load_of_scope_error hscan hparse hres]
        exact .scope hscan hparse hres
      | ok u =>
        rw [load_of_accepted hscan hparse hres]
        exact .accepted hscan hparse hres

/-- Of the machine, loading a source changes the distances at most. -/
theorem load_machine (s : Session) (name source : String) :
    ∃ D, (s.load name source).2.machine = { s.machine with distances := D } := by
  obtain ⟨hmachine, -, -⟩ := scanSource_machine s name source
  have hload := load_loaded s name source
  generalize s.load name source = r at hload
  cases hload with
  | scan hscan | parse hscan _ | unfinished hscan _ _ =>
    rw [hscan] at hmachine
    exact ⟨s.machine.distances, hmachine⟩
  | @scope _ s₁ _ _ _ D hscan _ _ | @accepted _ s₁ _ _ D hscan _ _ =>
    rw [hscan] at hmachine
    change s₁.machine = s.machine at hmachine
    change ∃ E, { s₁.machine with distances := D } = { s.machine with distances := E }
    rw [hmachine]
    exact ⟨D, rfl⟩

/-- Loading a source without anything in front of it. -/
theorem load_of_ready (hready : s.preludePending = false) (name : String) {tokens : List Token}
    {program : Program} {nextId : NodeId} {distances : Distances}
    (htokens : tokenizeFrom s.sources.nextLine source = .ok tokens)
    (hparse : parseFrom s.nextId tokens = .ok (program, nextId))
    (hres : resolve s.machine.distances program = (.ok (), distances)) :
    ∃ s₁, s.load name source = (.ok program, s₁) ∧
      s₁.machine = { s.machine with distances := distances } :=
  ⟨_, load_of_accepted (scanSource_of_ready hready name htokens) hparse hres, rfl⟩

end

end Session

/-! ### Natives -/

section

variable {R : Likeness} {fr : Array Frame}

mutual

/-- A value from outside is put in the same place of alike heaps. -/
theorem Datum.load_alike {h h' : Heap} (hh : h.Alike R fr h') : (d : Datum) →
    (d.load h).1.Alike R fr (d.load h').1 ∧ (d.load h).2.Alike R fr (d.load h').2
  | .scalar s => ⟨(Value.alike_indiscernible R fr).plain s.isSealed_toValue, hh⟩
  | .list elements => by
    obtain ⟨hvs, hh₁⟩ := Datum.loadAll_alike hh elements
    simp only [Datum.load]
    rw [hh₁.lists.size_eq]
    exact ⟨.list _, hh₁.lists.push hvs, hh₁.records⟩

theorem Datum.loadAll_alike {h h' : Heap} (hh : h.Alike R fr h') : (ds : List Datum) →
    List.Forall₂ (Value.Alike R fr) (Datum.loadAll h ds).1 (Datum.loadAll h' ds).1 ∧
      (Datum.loadAll h ds).2.Alike R fr (Datum.loadAll h' ds).2
  | [] => ⟨.nil, hh⟩
  | d :: ds => by
    obtain ⟨hv, hh₁⟩ := Datum.load_alike hh d
    obtain ⟨hvs, hh₂⟩ := Datum.loadAll_alike hh₁ ds
    simp only [Datum.loadAll]
    exact ⟨.cons hv hvs, hh₂⟩

end

theorem Machine.Alike.defineNative {m m' : Machine} (h : m.Alike R m') (name : String)
    (arity : Nat) {action action' : NativeAction}
    (ha : ∀ fr' identity, R.Grows m.frames fr' →
      (Value.native (.mk identity name arity action)).Alike R fr'
        (.native (.mk identity name arity action'))) :
    (m.defineNative name arity action).Alike R (m'.defineNative name arity action') := by
  have hname : ∀ frame, m.frames[Machine.globalFrame]? = some frame →
      name = R.renamed frame.region name := fun frame hframe => h.globalName hframe name
  -- the frame of the globals holds no instance, so even `this` may be defined there
  have hglobals : R.watched → name ≠ "this" ∨ ∀ frame,
      m.frames[Machine.globalFrame]? = some frame → ∀ d, frame.region ≠ .receiver d := by
    obtain ⟨vars, hvars⟩ := h.globals
    refine fun _ => .inr fun frame hframe d hd => ?_
    obtain rfl := Option.some.inj (hvars.symm.trans hframe)
    cases hd
  unfold Machine.defineNative
  rw [h.nextIdentity]
  exact (h.setVariable hname hglobals (ha _ _ (.setVariable _ _ hglobals))).withIdentity _

theorem builtins_plain : ∀ b ∈ builtins, b.2.2.isPlain = true := by
  simp [builtins, NativeAction.isPlain]

/-- A new machine is alike to itself. -/
theorem Machine.initial_alike (hleft : R.left = {}) (hright : R.right = {})
    (input : List UInt8) (limit : Option Nat) (clock : Clock) :
    (Machine.initial input limit clock).Alike R (Machine.initial input limit clock) := by
  have hdefine (bs : List (String × Nat × NativeAction))
      (hbs : ∀ b ∈ bs, b.2.2.isPlain = true) {m : Machine} (h : m.Alike R m) :
      Machine.Alike R (bs.foldl (fun m b => m.defineNative b.1 b.2.1 b.2.2) m)
        (bs.foldl (fun m b => m.defineNative b.1 b.2.1 b.2.2) m) := by
    induction bs generalizing m with
    | nil => exact h
    | cons b bs ih =>
      obtain ⟨hb, hbs⟩ := List.forall_mem_cons.1 hbs
      exact ih hbs (h.defineNative b.1 b.2.1 fun _ _ _ => .native hb)
  have hproper : AllProper #[⟨.globals, none, []⟩] := by
    intro f frame hf d hd
    obtain rfl : frame = ⟨.globals, none, []⟩ := by simpa using Array.mem_of_getElem? hf
    cases hd
  have hempty : Machine.Alike R { input := input, sink := { limit := limit }, clock := clock }
      { input := input, sink := { limit := limit }, clock := clock } :=
    { frames := .cons ⟨rfl, .nil⟩ .nil, globals := ⟨[], rfl⟩, heap := ⟨.nil, .nil⟩
      nextIdentity := rfl, left := hleft.symm, right := hright.symm, frame := rfl, depth := rfl
      sink := rfl, input := rfl, clock := rfl, ticks := rfl, hosts := rfl, fits := by simp
      proper := fun _ => hproper }
  unfold Machine.initial
  exact hdefine builtins builtins_plain hempty

theorem Machine.Alike.withHost {m m' : Machine} (h : m.Alike R m') {f : HostFunction}
    (hf : f.Respects R.token R.reported) :
    Machine.Alike R { m with hosts := m.hosts.push f } { m' with hosts := m'.hosts.push f } := by
  refine { h with hosts := congrArg (·.push f) h.hosts, fits := fun g hg => ?_ }
  rcases Array.mem_push.1 hg with hg | rfl
  · exact h.fits g hg
  · exact hf

theorem Machine.Alike.defineHost {m m' : Machine} (h : m.Alike R m') (name : String) (arity : Nat)
    {f : HostFunction} (hf : f.Respects R.token R.reported) (held : Datum) :
    (m.defineHost name arity f held).Alike R (m'.defineHost name arity f held) := by
  obtain ⟨hv, hheap⟩ := Datum.load_alike h.heap held
  unfold Machine.defineHost
  rw [h.hosts]
  have hm := (h.withHeap hheap).withHost hf
  dsimp only at hm ⊢
  rw [h.hosts] at hm
  exact hm.defineNative name arity fun _ _ hg => .host (hv.grow hg)

end

/-! ### Sound sessions -/

/-- A program compared with itself: its nodes stand at places of the programs that the analysis has
passed, and the variable nodes among them have the distances of their places.  No function declares
a name twice, and the names declared leave `this` to the classes. -/
def Likeness.ofPrograms (programs : List Program) (distances : Distances) : Likeness where
  token := Eq
  name := Eq
  annotation _ _ := True
  function d _ := ((Region.function d).binders.map Binder.name).Nodup
  node ctx n n' := (∃ p ∈ programs, ⟨ctx, n⟩ ∈ Program.places p) ∧ Place.Passed ⟨ctx, n⟩ ∧
    (ctx.ThisInClasses ∧ n.MindsThis) ∧
    ∀ id t, n.reference? = some (id, t) →
      (∃ t', n'.reference? = some (id, t')) ∧ distances[id]? = ctx.distance? t.lexeme
  reported := Eq
  tracked := True
  left := distances
  right := distances
  renamed _ := id
  watched := True
  same h := h ▸ ⟨rfl, rfl⟩
  unnamed := id
  home hn hr hr' _ := by
    obtain ⟨⟨t', ht'⟩, _⟩ := hn.2.2.2 _ _ hr
    obtain ⟨rfl, _⟩ := Prod.mk.inj (Option.some.inj (hr'.symm.trans ht'))
    rfl
  found _ _ h _ _ _ _ := h ▸ rfl
  declared _ _ _ h _ _ := h ▸ rfl
  params _ h := h.imp fun _ _ hp => hp.name_eq trivial (hp.left ▸ rfl)
  injective _ := Function.injective_id
  globals := id_eq
  receiver _ := id_eq _
  returns hn _ := hn.2.1.lawful.returns _ _ rfl
  spares hn _ := hn.2.2.1.2.toSparesThis

/-- What a source is scanned to: what goes in front of it, and its own tokens behind that. -/
theorem Session.scanSource_ok {s : Session} {name source : String} {tokens : List Token}
    (h : (s.scanSource name source).1 = .ok tokens) :
    ∃ leading s₁ own, s.leadingTokens = (.ok leading, s₁) ∧
      tokenizeFrom s₁.sources.nextLine source = .ok own ∧
      tokens = leading ++ own.map (Token.shift leading.length) := by
  unfold Session.scanSource at h
  cases hlead : s.leadingTokens with
  | mk result s₁ =>
    rw [hlead] at h
    cases result with
    | error e => cases h
    | ok leading =>
      change (tokenizeFrom s₁.sources.nextLine source).map _ = .ok tokens at h
      cases hown : tokenizeFrom s₁.sources.nextLine source with
      | error e =>
        rw [hown] at h
        cases h
      | ok own =>
        rw [hown] at h
        exact ⟨leading, s₁, own, rfl, hown, (Except.ok.inj h).symm⟩

/-- The tokens of the prelude that are kept are words. -/
def Session.Worded (s : Session) : Prop :=
  ∀ tokens, s.preludeTokens = some tokens → ∀ t ∈ tokens, t.Worded

namespace Session.Worded

variable {s : Session}

theorem layFirst (h : s.Worded) (name source : String) : (s.layFirst name source).2.Worded ∧
    ∀ tokens, (s.layFirst name source).1 = .ok tokens → ∀ t ∈ tokens, t.Worded := by
  unfold Session.layFirst
  cases htokens : s.preludeTokens with
  | some tokens =>
    refine ⟨h, fun tokens' heq => ?_⟩
    obtain rfl := Except.ok.inj heq
    exact h _ htokens
  | none =>
    dsimp only [SourceMap.add]
    cases hscan : tokenizeFrom s.sources.nextLine source with
    | error e =>
      refine ⟨fun tokens heq => ?_, fun tokens heq => ?_⟩ <;> cases heq
    | ok tokens =>
      have hwords : ∀ t ∈ tokens.dropLast, t.Worded := fun t ht =>
        tokenizeFrom_worded hscan t (List.dropLast_subset _ ht)
      refine ⟨fun tokens' heq => ?_, fun tokens' heq => ?_⟩
      · obtain rfl := Option.some.inj heq
        exact hwords
      · obtain rfl := Except.ok.inj heq
        exact hwords

theorem leadingTokens (h : s.Worded) : s.leadingTokens.2.Worded ∧
    ∀ tokens, s.leadingTokens.1 = .ok tokens → ∀ t ∈ tokens, t.Worded := by
  unfold Session.leadingTokens
  split
  · exact h.layFirst _ _
  · refine ⟨h, fun tokens heq => ?_⟩
    obtain rfl := Except.ok.inj heq
    simp

theorem scanSource (h : s.Worded) (name source : String) : (s.scanSource name source).2.Worded ∧
    ∀ tokens, (s.scanSource name source).1 = .ok tokens → ∀ t ∈ tokens, t.Worded := by
  obtain ⟨hkept, hleading⟩ := h.leadingTokens
  refine ⟨?_, fun tokens heq t ht => ?_⟩
  · unfold Session.scanSource
    generalize s.leadingTokens = r at hkept
    obtain ⟨_ | _, s₁⟩ := r
    · exact hkept
    · exact hkept
  · obtain ⟨leading, s₁, own, hlead, hown, rfl⟩ := scanSource_ok heq
    rw [hlead] at hleading
    rcases List.mem_append.1 ht with ht | ht
    · exact hleading _ rfl t ht
    · obtain ⟨u, hu, rfl⟩ := List.mem_map.1 ht
      exact (tokenizeFrom_worded hown u hu).shift _

end Session.Worded

/-- The machine is in order for the programs that have been run. -/
structure Session.Sound (programs : List Program) (s : Session) : Prop where
  machine : s.machine.Alike (.ofPrograms programs s.machine.distances) s.machine
  frame : s.machine.frame = Machine.globalFrame
  numbered : ∀ p ∈ programs, ∀ q ∈ Program.places p, ∀ id : Nat, q.id? = some id → id < s.nextId
  fresh : ∀ id : NodeId, s.nextId ≤ id → s.machine.distances[id]? = none
  worded : s.Worded

namespace Session.Sound

variable {programs : List Program} {s : Session}

/-- More programs and more distances, as long as the numbers in use keep theirs. -/
theorem carries (h : s.Sound programs) (more : List Program) {D : Distances}
    (hD : ∀ id : Nat, id < s.nextId → D[id]? = s.machine.distances[id]?) :
    Carries (.ofPrograms programs s.machine.distances) (.ofPrograms (programs ++ more) D)
      s.machine.frames s.machine.frames where
  trees :=
    { token := id
      name := id
      annotation := id
      function := fun _ ⟨_, hf⟩ => hf.function
      node := by
        rintro ctx _ n n' rfl - - ⟨⟨p, hp, hplace⟩, hlawful, hthis, hrefs⟩
        refine ⟨⟨p, List.mem_append_left _ hp, hplace⟩, hlawful, hthis, fun id t hr => ?_⟩
        obtain ⟨hr', hd⟩ := hrefs id t hr
        have hid : Place.id? ⟨ctx, n⟩ = some id := by rw [Place.id?, hr]; rfl
        exact ⟨hr', (hD id (h.numbered p hp _ hplace id hid)).trans hd⟩
      push := fun _ h => h ▸ rfl
      declare := fun _ _ h => h ▸ rfl }
  aligned := id
  held := id

/-- All frames around the members of classes hold an instance. -/
theorem proper (h : s.Sound programs) : AllProper s.machine.frames := h.machine.proper trivial

/-- The machine with another table of distances. -/
theorem machine_of_distances (h : s.Sound programs) (more : List Program) {D : Distances}
    (hD : ∀ id : Nat, id < s.nextId → D[id]? = s.machine.distances[id]?) :
    Machine.Alike (.ofPrograms (programs ++ more) D) { s.machine with distances := D }
      { s.machine with distances := D } :=
  h.machine.carry (h.carries more hD) (fun f _ => f.respects_eq) rfl fun _ => h.proper

theorem aligned (h : s.Sound programs) :
    Aligned s.machine.frames s.machine.frame .top := by
  obtain ⟨vars, hvars⟩ := h.machine.globals
  rw [h.frame]
  exact .top hvars

/-- A node that has been read minds `this`. -/
theorem node_mindsThis {ctx : Surroundings} {n n' : Node}
    (h : (shifting (Diagonal Token.Worded) 0).node ctx n n') : n.MindsThis where
  declares t ht := by
    obtain ⟨hkind, t', -, -, hworded⟩ := h.2 t ht
    exact hworded.lexeme_ne (by simp [hkind])
  assigns id t value hn := by
    subst hn
    obtain ⟨hword, t', -, -, hworded⟩ := h.1 id t rfl
    exact hworded.lexeme_ne hword
  this id t hn := by
    subst hn
    obtain ⟨hword, t', -, -, hworded⟩ := h.1 id t rfl
    exact hworded.lexeme_eq (List.mem_singleton.1 hword)

/-- What has been read declares no variable of the name `this`. -/
theorem declares_lexeme_ne {t : Token} (h : (shifting (Diagonal Token.Worded) 0).Declares t) :
    t.lexeme ≠ "this" := by
  obtain ⟨t', ht⟩ := h.token
  have hworded : t.Worded := ht.elim And.right And.right
  have hkind : t.kind = .name := by
    obtain ⟨ctx, n, n', hn, hdecl⟩ | ⟨d, d', hd, p, hp, rfl⟩ := h.site
    · exact (hn.2 t hdecl).1
    · exact hd p hp
  exact hworded.lexeme_ne (by simp [hkind])

/-- What has been read is alike to itself. -/
theorem program_alike {tokens : List Token} {program : Program} {nextId : NodeId}
    {distances : Distances} (h : s.Sound programs)
    (hp : parseFrom s.nextId tokens = .ok (program, nextId))
    (htokens : ∀ t ∈ tokens, t.Worded)
    (hr : resolve s.machine.distances program = (.ok (), distances)) :
    stmtsAlike (Likeness.ofPrograms (programs ++ [program]) distances).toTreeLikeness true .top
      program program := by
  obtain ⟨halike, hnum⟩ := parseFrom_worded htokens hp true .top
  have hsharp : Sharpens (shifting (Diagonal Token.Worded) 0)
      (Likeness.ofPrograms (programs ++ [program]) distances).toTreeLikeness
      (fun ctx ctx' => ctx' = ctx ∧ ctx.ThisInClasses) (· ∈ program.places) (fun _ => True) :=
    { token := fun ht => ht.1.symm
      name := fun ht => ht.1.symm
      annotation := fun _ => trivial
      function := by
        rintro f f' ⟨p, hplace, hf⟩ -
        exact ((resolve_records hr).2 _ hplace).distinct hf
      node := by
        intro ctx _ n n' hctx hplace _ hn
        refine ⟨⟨program, by simp, hplace⟩, (resolve_records hr).2 _ hplace,
          ⟨hctx.2, node_mindsThis hn⟩, fun id t href => ?_⟩
        have hid : Place.id? ⟨ctx, n⟩ = some id := by rw [Place.id?, href]; rfl
        obtain ⟨-, t', href', -⟩ := hn.1 id t href
        refine ⟨⟨t', href'⟩, ?_⟩
        rw [resolve_distance hnum h.fresh hr hplace hid, Place.distance?, href]
        rfl
      push := by
        rintro ctx _ s hs ⟨rfl, hthis⟩
        exact ⟨rfl, hthis.push hs.fresh⟩
      declare := by
        rintro ctx _ t standing ht ⟨rfl, hthis⟩
        exact ⟨rfl, hthis.declare (declares_lexeme_ne ht) standing⟩ }
  exact stmtsAlike_refine hsharp ⟨rfl, .top⟩ program halike (fun _ hq => hq) fun _ _ => trivial

/-- The numbers in use keep their distances. -/
theorem distances_eq {tokens : List Token} {program : Program} {nextId : NodeId}
    (hp : parseFrom s.nextId tokens = .ok (program, nextId)) {id : Nat} (hid : id < s.nextId) :
    (resolve s.machine.distances program).2[id]? = s.machine.distances[id]? :=
  resolve_of_outside (parseFrom_numbered hp true .top).2 fun h => absurd h.1 (Nat.not_le.2 hid)

/-- The session after an analysis. -/
theorem analysed {tokens : List Token} {program : Program} {nextId : NodeId}
    (h : s.Sound programs) {s₁ : Session} (hs₁ : s₁.machine = s.machine) (hworded : s₁.Worded)
    (hp : parseFrom s.nextId tokens = .ok (program, nextId)) (more : List Program)
    (hmore : ∀ p ∈ more, ∀ q ∈ Program.places p, ∀ id : Nat, q.id? = some id → id < nextId) :
    (s₁.analysed nextId (resolve s.machine.distances program).2).Sound (programs ++ more) := by
  obtain ⟨_, hnum⟩ := parseFrom_numbered hp true .top
  have hle : s.nextId ≤ nextId := hnum.le
  have hmachine := h.machine_of_distances more fun id hid => distances_eq hp hid
  unfold Session.analysed
  rw [hs₁]
  refine ⟨hmachine, h.frame, fun p hp q hq id hid => ?_, fun id hid => ?_, hworded⟩
  · rcases List.mem_append.1 hp with hp | hp
    · exact Nat.lt_of_lt_of_le (h.numbered p hp q hq id hid) hle
    · exact hmore p hp q hq id hid
  · change (resolve s.machine.distances program).2[id]? = none
    have hout : ¬(s.nextId ≤ id ∧ id < nextId) := fun hin => absurd hin.2 (Nat.not_lt.2 hid)
    rw [resolve_of_outside hnum hout]
    exact h.fresh id (Nat.le_trans hle hid)

/-- Only the machine, the next number and the kept tokens matter. -/
theorem congr (h : s.Sound programs) {s' : Session} (hm : s'.machine = s.machine)
    (hid : s'.nextId = s.nextId) (hworded : s'.Worded) : s'.Sound programs := by
  obtain ⟨machine, frame, numbered, fresh, -⟩ := h
  exact ⟨hm ▸ machine, hm ▸ frame, hid ▸ numbered, by rwa [hid, hm], hworded⟩

end Session.Sound

/-! ### Actions -/

namespace Session.Sound

variable {programs : List Program} {s : Session}

/-- Loading a source: what is accepted joins the programs. -/
theorem load (h : s.Sound programs) (name source : String) :
    (s.load name source).2.Sound (programs ++ loaded (s.load name source).1) := by
  obtain ⟨hmachine, hid, _⟩ := scanSource_machine s name source
  have hworded := (h.worded.scanSource name source).1
  have hload := load_loaded s name source
  generalize s.load name source = r at hload
  cases hload with
  | scan hscan | parse hscan _ | unfinished hscan _ _ =>
    rw [hscan] at hmachine hid hworded
    rw [loaded, List.append_nil]
    exact h.congr hmachine hid hworded
  | scope hscan hparse hres =>
    rw [hscan] at hmachine hworded
    have := h.analysed hmachine hworded hparse [] (by simp)
    rwa [hres] at this
  | @accepted _ _ program _ _ hscan hparse hres =>
    rw [hscan] at hmachine hworded
    obtain ⟨_, hnum⟩ := parseFrom_numbered hparse true .top
    have := h.analysed hmachine hworded hparse [program] fun p hp q hq id hid => by
      obtain rfl := List.mem_singleton.1 hp
      exact (hnum.within q hq id hid).2
    rw [hres] at this
    exact this.congr rfl rfl this.worded

/-- The program that a load accepts, in the session it leaves. -/
theorem accepted_alike (h : s.Sound programs) {name source : String} {program : Program}
    {s₁ : Session} (hload : s.load name source = (.ok program, s₁)) :
    stmtsAlike (Likeness.ofPrograms (programs ++ [program]) s₁.machine.distances).toTreeLikeness
      true .top program program := by
  have hloaded := load_loaded s name source
  rw [hload] at hloaded
  cases hloaded with
  | accepted hscan hparse hres =>
    have hworded := (h.worded.scanSource name source).2
    rw [hscan] at hworded
    exact h.program_alike hparse (hworded _ rfl) hres

/-- Running a program: of the session only the machine changes, and of that neither the distances
nor the frame that it stands at. -/
theorem executed (h : s.Sound programs) (fuel : Nat) {program : Program}
    (hp : stmtsAlike (Likeness.ofPrograms programs s.machine.distances).toTreeLikeness true .top
      program program) :
    ∃ m : Machine, (s.execute fuel program).2 = { s with machine := m } ∧
      m.Alike (.ofPrograms programs s.machine.distances) m ∧ m.frame = s.machine.frame := by
  have hsim := Evaluation.Sims.runProgram
    (Evaluation.sims_run (.ofPrograms programs s.machine.distances) fuel)
    (fun _ => h.aligned) Surroundings.not_inFunction_top hp .undefined h.machine (.refl _) rfl
  unfold Session.execute
  generalize Evaluation.runProgram (Evaluation.run fuel) program .undefined s.machine = r at hsim
  cases hsim with
  | ok hm _ hf _ => exact ⟨_, rfl, hm, hf⟩
  | @error stop _ m _ hm _ hf _ => cases stop <;> exact ⟨m, rfl, hm, hf⟩

/-- Running a program. -/
theorem execute (h : s.Sound programs) (fuel : Nat) {program : Program}
    (hp : stmtsAlike (Likeness.ofPrograms programs s.machine.distances).toTreeLikeness true .top
      program program) : (s.execute fuel program).2.Sound programs := by
  obtain ⟨m, hm, halike, hframe⟩ := h.executed fuel hp
  -- the machine in the end has the distances of the beginning, so the likeness is the same
  have hleft : m.distances = s.machine.distances := halike.left
  rw [hm]
  refine ⟨?_, hframe.trans h.frame, h.numbered, fun id hid => ?_, h.worded⟩
  · change m.Alike (.ofPrograms programs m.distances) m
    rwa [hleft]
  · change m.distances[id]? = none
    rw [hleft]
    exact h.fresh id hid

theorem defineNative (h : s.Sound programs) (name : String) (arity : Nat) (f : HostFunction)
    (held : Datum) : (s.defineNative name arity f held).Sound programs :=
  ⟨h.machine.defineHost name arity f.respects_eq held, h.frame, h.numbered, h.fresh, h.worded⟩

theorem takeOutput (h : s.Sound programs) : s.takeOutput.2.Sound programs :=
  ⟨h.machine.withSink _, h.frame, h.numbered, h.fresh, h.worded⟩

/-- One action. -/
theorem perform (h : s.Sound programs) (a : Action) :
    (s.perform a).Sound (programs ++ s.accepts a) := by
  cases a with
  | run fuel name source =>
    have hloaded := h.load name source
    rw [accepts, Session.perform, Session.run]
    cases hload : s.load name source with
    | mk r s₁ =>
      rw [hload] at hloaded
      cases r with
      | error outcome => exact hloaded
      | ok program => exact hloaded.execute fuel (h.accepted_alike hload)
  | native name arity f held =>
    rw [accepts, List.append_nil]
    exact h.defineNative name arity f held
  | takeOutput =>
    rw [accepts, List.append_nil]
    exact h.takeOutput

/-- Any number of actions. -/
theorem after (h : s.Sound programs) (history : List Action) :
    (s.after history).Sound (programs ++ s.programs history) := by
  induction history generalizing s programs with
  | nil =>
    rw [Session.programs, List.append_nil]
    exact h
  | cons a history ih =>
    rw [Session.programs, ← List.append_assoc]
    exact ih (h.perform a)

/-! ### What is visited -/

open Evaluation in
/-- Whatever the evaluation of a program comes to is in order. -/
theorem good (h : s.Sound programs) {program : Program}
    (hp : stmtsAlike (Likeness.ofPrograms programs s.machine.distances).toTreeLikeness true .top
      program program) {fuel : Nat} {c : Config}
    (hv : Visits fuel (fun self => runProgram self program .undefined) s.machine c) :
    Good (.ofPrograms programs s.machine.distances) c :=
  good_of_visits hv (fun self => runProgram self program .undefined) h.machine fun hself =>
    hself.runProgram (fun _ => h.aligned) Surroundings.not_inFunction_top hp .undefined

end Session.Sound

/-- A node that is evaluated is at a place of a program, in a frame that is aligned with what
surrounds it. -/
theorem Evaluation.Good.placed {programs : List Program} {D : Distances} {c : Config}
    (h : Good (.ofPrograms programs D) c) {n : Node} (hn : c.task.node? = some n) :
    ∃ ctx n', (Likeness.ofPrograms programs D).node ctx n n' ∧
      Aligned c.machine.frames c.machine.frame ctx := by
  obtain ⟨t', post, m', -, ht⟩ := h
  obtain ⟨task, machine⟩ := c
  cases ht with
  | expr hctx he =>
    obtain rfl := Option.some.inj hn
    exact ⟨_, _, he.node, hctx trivial⟩
  | stmt hctx hs =>
    obtain rfl := Option.some.inj hn
    exact ⟨_, _, hs.node, hctx trivial⟩
  | property _ _ | call _ _ _ | loop _ _ _ _ => cases hn

/-- A new session is sound. -/
theorem Session.sound_start (prelude : Bool) (input : List UInt8) (limit : Option Nat)
    (clock : Clock) : (Session.start prelude input limit clock).Sound [] where
  machine := Machine.initial_alike rfl rfl input limit clock
  frame := rfl
  numbered := by simp
  fresh _ _ := Std.HashMap.getElem?_empty
  worded _ h := by cases h

/-- Every history leads to a session that is sound for the programs it has run. -/
theorem Session.sound_after (prelude : Bool) (input : List UInt8) (limit : Option Nat)
    (clock : Clock) (history : List Action) :
    ((Session.start prelude input limit clock).after history).Sound
      ((Session.start prelude input limit clock).programs history) :=
  (Session.sound_start prelude input limit clock).after history

end ScopedScript
