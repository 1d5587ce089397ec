import ScopedScript.Proofs.Parsing.WellFormed
import ScopedScript.Proofs.Parsing.Separators

/-! # The scope analysis accepts the well-scoped programs

Of a program that has been parsed, the analysis accepts exactly the well-scoped ones, and an error
reports a rule that the program breaks, at the token that breaks it
(`resolve_ok_iff_wellScoped`).

A walk over a part of the program *checks* the part: it comes to its end if there is nothing to
report of the part, and otherwise stops at something there is (`Scope.Checks`).  What carries the
induction over the tree is how the innermost layer *stands*: the names it declares are those that
have been declared in the scope so far, and a name is not ready if the walk is in its initialiser
and in no function made there (`Scope.Stands`). -/

namespace ScopedScript

/-- The names of the variables whose initialisers enclose a node, up to the nearest function. -/
def initializing : List Enclosure → List String
  | [] => []
  | .initializer name :: outer => name.lexeme :: initializing outer
  | .classBody _ :: outer => initializing outer
  | .function _ :: _ | .method _ :: _ => []

theorem mem_initializing {s : Site} {x : String} :
    x ∈ initializing s.outer ↔ s.InOwnInitializer x := by
  obtain ⟨outer, n⟩ := s
  unfold Site.InOwnInitializer
  dsimp only
  induction outer with
  | nil => simp [initializing]
  | cons f outer ih =>
    -- the initialiser is the first enclosure, or lies behind one that is no function
    have hcons : (∃ inner token rest, f :: outer = inner ++ .initializer token :: rest ∧
        token.lexeme = x ∧ ∀ g ∈ inner, g.isFunction = false) ↔
        (∃ token, f = .initializer token ∧ token.lexeme = x) ∨ f.isFunction = false ∧
          ∃ inner token rest, outer = inner ++ .initializer token :: rest ∧
            token.lexeme = x ∧ ∀ g ∈ inner, g.isFunction = false := by
      refine ⟨?_, ?_⟩
      · rintro ⟨inner, token, rest, heq, hx, hinner⟩
        cases inner with
        | nil => exact .inl ⟨token, (List.cons.inj heq).1, hx⟩
        | cons g inner =>
          obtain ⟨rfl, rfl⟩ := List.cons.inj heq
          obtain ⟨hf, hinner⟩ := List.forall_mem_cons.1 hinner
          exact .inr ⟨hf, inner, token, rest, rfl, hx, hinner⟩
      · rintro (⟨token, rfl, hx⟩ | ⟨hf, inner, token, rest, rfl, hx, hinner⟩)
        · exact ⟨[], token, outer, rfl, hx, by simp⟩
        · exact ⟨f :: inner, token, rest, rfl, hx, List.forall_mem_cons.2 ⟨hf, hinner⟩⟩
    rw [hcons, ← ih]
    cases f with
    | initializer name => simp [initializing, Enclosure.isFunction, eq_comm]
    | classBody c => simp [initializing, Enclosure.isFunction]
    | function d | method d => simp [initializing, Enclosure.isFunction]

/-! ### What there is to report -/

/-- The error reports a rule that the node breaks, those of the scopes it opens among them. -/
def Site.Faulty (s : Site) (e : ScopeError) : Prop :=
  (∃ scope ∈ s.node.scopes, Redeclares [] scope e) ∨ s.Breaks e

/-- What there is to report of a part of a program that declares the tokens `ts` where `names` are
declared already, opens the scopes `scopes` and has the nodes `sites`. -/
def Faults (names : List String) (ts : List Token) (scopes : List (List Token))
    (sites : List Site) (e : ScopeError) : Prop :=
  Redeclares names ts e ∨ (∃ scope ∈ scopes, Redeclares [] scope e) ∨ ∃ s ∈ sites, s.Faulty e

section

variable {names : List String} {ts us : List Token} {e : ScopeError}

theorem not_redeclares_nil : ¬Redeclares names [] e := by
  rintro ⟨earlier, token, later, heq, -⟩
  cases earlier <;> cases heq

theorem redeclares_append : Redeclares names (ts ++ us) e ↔
    Redeclares names ts e ∨ Redeclares (names ++ ts.map Token.lexeme) us e := by
  refine ⟨?_, ?_⟩
  · rintro ⟨earlier, token, later, heq, hmem, rfl⟩
    rcases List.append_eq_append_iff.1 heq with ⟨earlier', rfl, rfl⟩ | ⟨later', rfl, hlater⟩
    · refine .inr ⟨earlier', token, later, rfl, ?_, rfl⟩
      simpa only [List.map_append, List.append_assoc] using hmem
    · cases later' with
      | nil =>
        obtain rfl : token :: later = us := hlater
        refine .inr ⟨[], token, later, rfl, ?_, rfl⟩
        simpa using hmem
      | cons u later' =>
        obtain ⟨rfl, -⟩ := List.cons.inj hlater
        exact .inl ⟨earlier, token, later', rfl, hmem, rfl⟩
  · rintro (⟨earlier, token, later, rfl, hmem, rfl⟩ | ⟨earlier, token, later, rfl, hmem, rfl⟩)
    · exact ⟨earlier, token, later ++ us, by simp, hmem, rfl⟩
    · refine ⟨ts ++ earlier, token, later, by simp, ?_, rfl⟩
      simpa only [List.map_append, List.append_assoc] using hmem

theorem redeclares_singleton {t : Token} : Redeclares names [t] e ↔
    t.lexeme ∈ names ∧ e = ⟨.alreadyDeclared t.lexeme, t⟩ := by
  refine ⟨?_, fun ⟨ht, he⟩ => ⟨[], t, [], rfl, by simpa using ht, he⟩⟩
  rintro ⟨earlier, token, later, heq, hmem, rfl⟩
  cases earlier with
  | nil =>
    obtain ⟨rfl, rfl⟩ := List.cons.inj heq
    exact ⟨by simpa using hmem, rfl⟩
  | cons u earlier =>
    obtain ⟨-, heq⟩ := List.cons.inj heq
    cases earlier <;> cases heq

theorem faults_append {scopes scopes' : List (List Token)} {qs rs : List Site} :
    Faults names (ts ++ us) (scopes ++ scopes') (qs ++ rs) e ↔
      Faults names ts scopes qs e ∨ Faults (names ++ ts.map Token.lexeme) us scopes' rs e := by
  simp only [Faults, redeclares_append, List.mem_append, or_and_right, exists_or]
  exact (or_congr_right or_or_or_comm).trans or_or_or_comm

theorem not_faults_nil : ¬Faults names [] [] [] e := by
  simp [Faults, not_redeclares_nil]

/-- The scopes that a node opens are reported with the node. -/
theorem faults_node {s : Site} {qs : List Site} (hs : ∀ e, ¬s.Breaks e) :
    Faults names ts s.node.scopes qs e ↔ Faults names ts [] (s :: qs) e := by
  simp [Faults, Site.Faulty, hs]

end

/-- The node is none of those that a rule is about. -/
structure Node.Quiet (n : Node) : Prop where
  returns : n.return? = none
  receivers : n.this? = none
  reads : n.read? = none

theorem Node.Quiet.not_breaks {s : Site} (h : s.node.Quiet) (e : ScopeError) : ¬s.Breaks e := by
  rintro (⟨hreturn, -⟩ | ⟨hreturn, -, -⟩ | ⟨hthis, -⟩ | ⟨hread, -⟩)
  · rw [h.returns] at hreturn
    cases hreturn
  · rw [h.returns] at hreturn
    cases hreturn
  · rw [h.receivers] at hthis
    cases hthis
  · rw [h.reads] at hread
    cases hread

/-! ### Walks that check -/

namespace Scope

/-- A walk has come to its end and there was nothing to report, or it has stopped at something that
there was. -/
inductive Verdict (fault : ScopeError → Prop) (post : List Layer → Prop) :
    EStateM.Result ScopeError State Unit → Prop
  | passed {layers : List Layer} {D : Distances} : post layers → (∀ e, ¬fault e) →
      Verdict fault post (.ok () ⟨layers, D⟩)
  | refused {e : ScopeError} {s : State} : fault e → Verdict fault post (.error e s)

/-- From all layers that satisfy `pre` the walk comes to layers that satisfy `post`, unless there is
something to report. -/
def Judges (pre : List Layer → Prop) (x : Walk Unit) (fault : ScopeError → Prop)
    (post : List Layer → Prop) : Prop :=
  ∀ layers, pre layers → ∀ D, Verdict fault post (x ⟨layers, D⟩)

namespace Judges

variable {pre mid post : List Layer → Prop} {x y : Walk Unit} {fault fault' : ScopeError → Prop}

theorem congr (h : Judges pre x fault post) (hf : ∀ e, fault e ↔ fault' e) :
    Judges pre x fault' post := by
  obtain rfl : fault = fault' := funext fun e => propext (hf e)
  exact h

theorem nothing : Judges pre (pure ()) (fun _ => False) pre :=
  fun _ hpre _ => .passed hpre fun _ => id

theorem seq (hx : Judges pre x fault mid) (hy : Judges mid y fault' post) :
    Judges pre (do x; y) (fun e => fault e ∨ fault' e) post := by
  intro layers hpre D
  have hfirst := hx layers hpre D
  change Verdict _ _ (EStateM.bind x (fun _ => y) ⟨layers, D⟩)
  unfold EStateM.bind
  generalize x ⟨layers, D⟩ = r at hfirst
  cases hfirst with
  | refused he => exact .refused (.inl he)
  | @passed layers₁ D₁ hmid hnone =>
    have hsecond := hy layers₁ hmid D₁
    dsimp only
    generalize y ⟨layers₁, D₁⟩ = r at hsecond
    cases hsecond with
    | refused he => exact .refused (.inr he)
    | passed hpost hnone' => exact .passed hpost fun e he => he.elim (hnone e) (hnone' e)

/-- Recording a distance changes no layer. -/
theorem record (id : NodeId) (t : Token) : Judges pre (record id t) (fun _ => False) pre := by
  intro layers hpre D
  have hlayers : ∃ D', Scope.record id t ⟨layers, D⟩ = .ok () ⟨layers, D'⟩ := by
    simp only [Scope.record, modify, modifyGet, MonadStateOf.modifyGet, EStateM.modifyGet]
    cases distance? layers t.lexeme with
    | none => exact ⟨D, rfl⟩
    | some d => exact ⟨D.insert id d, rfl⟩
  obtain ⟨D', hD'⟩ := hlayers
  exact hD' ▸ .passed hpre fun _ => False.elim

end Judges

/-- The innermost layer declares the names, and those are not ready whose initialisers the walk is
in. -/
def Stands (outer : List Enclosure) (names : List String) (rest layers : List Layer) : Prop :=
  ∃ layer : Layer, layers = layer :: rest ∧
    (∀ x, layer.declares x = true ↔ x ∈ names) ∧
    ∀ x, layer.lookup x = some false ↔ x ∈ initializing outer

/-- The walk checks a part of a program: it stops at something there is to report of it, or declares
its tokens in the innermost layer and leaves the others as they are. -/
def Checks (outer : List Enclosure) (rest : List Layer) (names : List String) (x : Walk Unit)
    (ts : List Token) (scopes : List (List Token)) (sites : List Site) : Prop :=
  Judges (Stands outer names rest) x (Faults names ts scopes sites)
    (Stands outer (names ++ ts.map Token.lexeme) rest)

theorem Judges.read {outer : List Enclosure} {rest : List Layer} {names : List String}
    (id : NodeId) (t : Token) : Judges (Stands outer names rest) (read id t)
      (fun e => t.lexeme ∈ initializing outer ∧ e = ⟨.ownInitializer, t⟩)
      (Stands outer names rest) := by
  intro layers hpre D
  have hunready : unready layers t.lexeme = true ↔ t.lexeme ∈ initializing outer := by
    obtain ⟨layer, rfl, -, hready⟩ := hpre
    rw [← hready, unready, beq_iff_eq]
  change Verdict _ _ ((if unready layers t.lexeme then _ else Scope.record id t : Walk Unit) _)
  split
  · next h => exact .refused ⟨hunready.1 h, rfl⟩
  · next h =>
    have hnone : ∀ e : ScopeError, False ↔
        t.lexeme ∈ initializing outer ∧ e = ⟨.ownInitializer, t⟩ :=
      fun e => ⟨False.elim, fun he => h (hunready.2 he.1)⟩
    exact ((Judges.record id t).congr hnone) layers hpre D

theorem declares_entry (layer : Layer) (name x : String) (ready : Bool) :
    Layer.declares ((name, ready) :: layer) x = true ↔ x = name ∨ layer.declares x = true := by
  rw [Layer.declares, List.any_cons, Bool.or_eq_true, beq_iff_eq, eq_comm]
  rfl

theorem lookup_entry (layer : Layer) (name x : String) (ready : Bool) :
    List.lookup x ((name, ready) :: layer) = some false ↔
      if x = name then ready = false else layer.lookup x = some false := by
  rw [List.lookup_cons]
  by_cases hx : x = name
  · simp [hx]
  · simp [beq_false_of_ne hx, hx]

/-- A walk in a layer of its own, which it leaves in the end. -/
theorem Judges.within {outer : List Enclosure} {names names' : List String}
    {pre : List Layer → Prop} {layer : Layer} {x : Walk Unit} {fault : ScopeError → Prop}
    (hlayer : ∀ layers, Stands outer names layers (layer :: layers))
    (h : ∀ layers, Judges (Stands outer names layers) x fault (Stands outer names' layers)) :
    Judges pre (within layer x) fault pre := by
  intro layers hpre D
  have hinside := h layers _ (hlayer layers) D
  change Verdict _ _ (EStateM.bind x (fun _ => modify fun s => { s with layers := s.layers.tail })
    ⟨layer :: layers, D⟩)
  unfold EStateM.bind
  generalize x ⟨layer :: layers, D⟩ = r at hinside
  cases hinside with
  | refused he => exact .refused he
  | passed hpost hnone =>
    obtain ⟨_, rfl, -⟩ := hpost
    exact .passed hpre hnone

namespace Checks

variable {outer outer' : List Enclosure} {rest : List Layer} {names : List String} {x y : Walk Unit}
variable {ts us : List Token} {scopes scopes' : List (List Token)} {qs rs : List Site}

/-- A walk that declares nothing. -/
theorem of_judges {fault : ScopeError → Prop}
    (h : Judges (Stands outer names rest) x fault (Stands outer names rest))
    (hf : ∀ e, fault e ↔ Faults names [] scopes qs e) :
    Checks outer rest names x [] scopes qs := by
  unfold Checks
  rw [List.map_nil, List.append_nil]
  exact h.congr hf

theorem nothing : Checks outer rest names (pure ()) [] [] [] :=
  .of_judges .nothing fun _ => ⟨False.elim, not_faults_nil⟩

theorem seq (hx : Checks outer rest names x ts scopes qs)
    (hy : Checks outer rest (names ++ ts.map Token.lexeme) y us scopes' rs) :
    Checks outer rest names (do x; y) (ts ++ us) (scopes ++ scopes') (qs ++ rs) := by
  unfold Checks
  rw [List.map_append, ← List.append_assoc]
  exact (Judges.seq hx hy).congr fun e => faults_append.symm

/-- A walk that declares nothing, before another one. -/
theorem before (hx : Checks outer rest names x [] scopes qs)
    (hy : Checks outer rest names y ts scopes' rs) :
    Checks outer rest names (do x; y) ts (scopes ++ scopes') (qs ++ rs) :=
  hx.seq (by rwa [List.map_nil, List.append_nil])

/-- A walk that has nothing to report, after another one. -/
theorem behind (hx : Checks outer rest names x ts scopes qs)
    (hy : Checks outer rest (names ++ ts.map Token.lexeme) y [] [] []) :
    Checks outer rest names (do x; y) ts scopes qs := by
  have h := hx.seq hy
  rwa [List.append_nil, List.append_nil, List.append_nil] at h

/-- A node that breaks no rule, in front of the nodes below it. -/
theorem keeping {s : Site} (h : Checks outer rest names x ts s.node.scopes qs)
    (hs : ∀ e, ¬s.Breaks e) : Checks outer rest names x ts [] (s :: qs) :=
  Judges.congr h fun _ => faults_node hs

theorem node {n : Node} (h : Checks outer rest names x ts n.scopes qs) (hn : n.Quiet) :
    Checks outer rest names x ts [] (⟨outer, n⟩ :: qs) := h.keeping (Node.Quiet.not_breaks hn)

/-- A rule that a node breaks stops the walk there. -/
theorem stopping {s : Site} {t : Token} {fault : ScopeFault} (hs : s.Breaks ⟨fault, t⟩)
    (hfails : ∀ st, ∃ st', x st = .error ⟨fault, t⟩ st') :
    Checks outer rest names x ts scopes (s :: qs) := by
  intro layers _ D
  obtain ⟨st', hst'⟩ := hfails ⟨layers, D⟩
  rw [hst']
  exact .refused (.inr (.inr ⟨s, List.mem_cons_self, .inr hs⟩))

/-- A scope of its own. -/
theorem within (hi : initializing outer' = [])
    (h : ∀ layers, Checks outer' layers [] x ts scopes qs) :
    Checks outer rest names (within [] x) [] (ts :: scopes) qs := by
  refine .of_judges (.within (fun _ => ⟨[], rfl, ?_, ?_⟩) h) fun e => ?_
  · simp [Layer.declares]
  · simp [hi]
  · simp [Faults, not_redeclares_nil, or_assoc]

/-- The layer of a class body, in which nothing is declared. -/
theorem inClass (hi : initializing outer' = [])
    (h : ∀ layers, Checks outer' layers ["this"] x [] scopes qs) :
    Checks outer rest names (Scope.within [("this", true)] x) [] scopes qs := by
  refine .of_judges (.within (fun _ => ⟨[("this", true)], rfl, ?_, ?_⟩) h) fun e => ?_
  · simp [Layer.declares, eq_comm (b := "this")]
  · simp [lookup_entry, hi]
  · simp [Faults, not_redeclares_nil]

theorem record (id : NodeId) (t : Token) : Checks outer rest names (record id t) [] [] [] := by
  refine .of_judges (.record id t) fun _ => ⟨False.elim, not_faults_nil⟩

/-- A read of a variable is refused in the initialiser of the variable. -/
theorem read {n : Node} {t : Token} (id : NodeId) (hread : n.read? = some t)
    (hscopes : n.scopes = []) (hreturn : n.return? = none) (hthis : n.this? = none) :
    Checks outer rest names (read id t) [] [] [⟨outer, n⟩] := by
  refine .of_judges (Judges.read id t) fun e => ?_
  rw [mem_initializing (s := ⟨outer, n⟩)]
  simp only [Faults, not_redeclares_nil, List.not_mem_nil, false_and, exists_false, false_or,
    List.mem_singleton, exists_eq_left, Site.Faulty, hscopes]
  refine ⟨?_, ?_⟩
  · rintro ⟨hown, rfl⟩
    exact .ownInitializer hread hown
  · rintro (⟨h, -⟩ | ⟨h, -, -⟩ | ⟨h, -⟩ | ⟨h, hown⟩)
    · cases hreturn.symm.trans h
    · cases hreturn.symm.trans h
    · cases hthis.symm.trans h
    · obtain rfl := Option.some.inj (hread.symm.trans h)
      exact ⟨hown, rfl⟩

/-- Declaring a name, whose initialiser comes next. -/
theorem declare (t : Token) : Judges (Stands outer names rest) (declare t)
    (Redeclares names [t]) (Stands (.initializer t :: outer) (names ++ [t.lexeme]) rest) := by
  rintro _ ⟨layer, rfl, hdeclares, hready⟩ D
  change Verdict _ _ ((if layer.declares t.lexeme then _ else _ : Walk Unit) _)
  split
  · next h => exact .refused (redeclares_singleton.2 ⟨(hdeclares _).1 h, rfl⟩)
  · next h =>
    refine .passed ⟨_, rfl, fun x => ?_, fun x => ?_⟩ fun e he => ?_
    · rw [declares_entry, hdeclares, List.mem_append, List.mem_singleton, or_comm]
    · rw [lookup_entry, hready, initializing, List.mem_cons]
      by_cases hx : x = t.lexeme <;> simp [hx]
    · exact h ((hdeclares _).2 (redeclares_singleton.1 he).1)

/-- Behind the initialiser of a variable. -/
theorem define (hi : initializing outer = []) {t : Token} (ht : t.lexeme ∈ names) :
    Judges (Stands (.initializer t :: outer) names rest) (define t) (fun _ => False)
      (Stands outer names rest) := by
  rintro _ ⟨layer, rfl, hdeclares, hready⟩ D
  refine .passed ⟨_, rfl, fun x => ?_, fun x => ?_⟩ fun _ => id
  · rw [declares_entry, hdeclares]
    exact ⟨fun h => h.elim (fun hx => hx ▸ ht) id, .inr⟩
  · rw [lookup_entry, hready, initializing, hi, List.mem_singleton]
    by_cases hx : x = t.lexeme <;> simp [hx]

theorem declare_define (hi : initializing outer = []) (t : Token) :
    Checks outer rest names (do Scope.declare t; Scope.define t) [t] [] [] :=
  ((declare t).seq (define hi (by simp))).congr fun e => by simp [Faults]

/-- A variable with its initialiser, which declares nothing. -/
theorem initialized (hi : initializing outer = []) (name : Token) {o : Option Stmt}
    (ho : optionBinders o = []) (hx : Checks (.initializer name :: outer) rest
      (names ++ [name.lexeme]) x ((optionBinders o).map Binder.token) [] qs) :
    Checks outer rest names (do Scope.declare name; x; Scope.define name)
      ((Binder.variable name :: optionBinders o).map Binder.token) [] qs := by
  rw [ho] at hx ⊢
  unfold Checks at hx ⊢
  rw [List.map_nil, List.map_nil, List.append_nil] at hx
  refine ((declare name).seq (hx.seq (define hi (by simp)))).congr fun e => ?_
  simp [Faults, not_redeclares_nil, Binder.token]

theorem params (hi : initializing outer = []) (ps : List Parameter) :
    Checks outer rest names (declareParams ps) (ps.map Parameter.left) [] [] := by
  induction ps generalizing names with
  | nil => exact .nothing
  | cons p ps ih =>
    have hassoc : declareParams (p :: ps) =
        (do (do Scope.declare p.left; Scope.define p.left); declareParams ps) := by
      rw [declareParams, bind_assoc]
    rw [hassoc]
    exact (declare_define hi p.left).seq ih

end Checks

/-! ### Trees -/

/-- The kind of body that a node stands in. -/
def bodyOf (outer : List Enclosure) : Body :=
  match outer.find? Enclosure.isFunction with
  | none => .program
  | some (.method m) => methodBody m
  | some _ => .function

/-- The context tells what the enclosures tell. -/
structure Context.Meets (k : Context) (outer : List Enclosure) : Prop where
  body : k.body = bodyOf outer
  cls : k.inClass = true ↔ ∃ c, .classBody c ∈ outer

namespace Context.Meets

variable {k : Context} {outer : List Enclosure}

theorem initializer (h : k.Meets outer) (name : Token) : k.Meets (.initializer name :: outer) :=
  ⟨h.body, by simpa using h.cls⟩

theorem function (h : k.Meets outer) (d : FunctionDecl) :
    Context.Meets { k with body := .function } (.function d :: outer) :=
  ⟨rfl, by simpa using h.cls⟩

theorem method (h : k.Meets outer) (m : FunctionDecl) :
    Context.Meets { k with body := methodBody m } (.method m :: outer) :=
  ⟨rfl, by simpa using h.cls⟩

theorem classBody (h : k.Meets outer) (c : ClassDecl) :
    Context.Meets { k with inClass := true } (.classBody c :: outer) :=
  ⟨h.body, by simp⟩

theorem body_of_constructor (h : k.Meets outer) {f : Enclosure}
    (hf : outer.find? Enclosure.isFunction = some f) (hconstructor : f.isConstructor = true) :
    k.body = .constructor := by
  rw [h.body, bodyOf, hf]
  cases f with
  | method m => simpa [methodBody, Enclosure.isConstructor] using hconstructor
  | _ => cases hconstructor

theorem body_of_function (h : k.Meets outer) {f : Enclosure}
    (hf : outer.find? Enclosure.isFunction = some f) (hconstructor : f.isConstructor = false) :
    k.body = .function ∨ k.body = .method := by
  rw [h.body, bodyOf, hf]
  cases f with
  | method m => exact .inr (by simpa [methodBody, Enclosure.isConstructor] using hconstructor)
  | _ => exact .inl rfl

end Context.Meets

theorem optionBinders_of_expression {o : Option Stmt}
    (h : ∀ s, o = some s → ∃ e token, s = .expression e token) : optionBinders o = [] := by
  cases o with
  | none => rfl
  | some s =>
    obtain ⟨e, token, rfl⟩ := h s rfl
    rfl

mutual

theorem walkExpr_checks {k : Context} {outer : List Enclosure} (hk : k.Meets outer)
    (rest : List Layer) (names : List String) : (e : Expr) →
      (∀ s ∈ e.sites outer, s.node.Initialized) →
      Checks outer rest names (walkExpr k e) [] [] (e.sites outer)
  | .grouping inner, hf => by
    simp only [Expr.sites, List.forall_mem_cons] at hf
    simp only [walkExpr, Expr.sites]
    exact (walkExpr_checks hk rest names inner hf.2).node ⟨rfl, rfl, rfl⟩
  | .binary left _ right, hf => by
    simp only [Expr.sites, List.forall_mem_cons, List.forall_mem_append] at hf
    simp only [walkExpr, Expr.sites]
    have hleft := walkExpr_checks hk rest names left hf.2.1
    exact (hleft.before (walkExpr_checks hk rest names right hf.2.2)).node ⟨rfl, rfl, rfl⟩
  | .unary _ operand, hf => by
    simp only [Expr.sites, List.forall_mem_cons] at hf
    simp only [walkExpr, Expr.sites]
    exact (walkExpr_checks hk rest names operand hf.2).node ⟨rfl, rfl, rfl⟩
  | .literal _ value, hf => by
    simp only [Expr.sites, List.forall_mem_cons] at hf
    simp only [walkExpr, Expr.sites]
    exact (walkLiteral_checks hk rest names value hf.2).node ⟨rfl, rfl, rfl⟩
  | .name id token, _ => by
    simp only [walkExpr, Expr.sites]
    exact .read id rfl rfl rfl rfl
  | .this id keyword, _ => by
    simp only [walkExpr, Expr.sites]
    cases hclass : k.inClass with
    | true =>
      refine .keeping (.record id keyword) ?_
      rintro e (⟨hreturn, -⟩ | ⟨hreturn, -, -⟩ | ⟨-, houter⟩ | ⟨hread, -⟩)
      · cases hreturn
      · cases hreturn
      · obtain ⟨c, hc⟩ := hk.cls.1 hclass
        exact houter c hc
      · cases hread
    | false =>
      refine .stopping (.thisOutside rfl fun c hc => ?_) fun st => ⟨st, rfl⟩
      rw [hk.cls.2 ⟨c, hc⟩] at hclass
      cases hclass
  | .function _ declaration, hf => by
    simp only [Expr.sites, List.forall_mem_cons] at hf
    simp only [walkExpr, Expr.sites]
    exact (walkFunction_checks (hk.function declaration) rfl rest names declaration hf.2).node
      ⟨rfl, rfl, rfl⟩
  | .call callee _ args, hf => by
    simp only [Expr.sites, List.forall_mem_cons, List.forall_mem_append] at hf
    simp only [walkExpr, Expr.sites]
    have hcallee := walkExpr_checks hk rest names callee hf.2.1
    exact (hcallee.before (walkExprs_checks hk rest names args hf.2.2)).node ⟨rfl, rfl, rfl⟩
  | .index id name index, hf => by
    simp only [Expr.sites, List.forall_mem_cons] at hf
    simp only [walkExpr, Expr.sites]
    exact (Checks.read id rfl rfl rfl rfl).before (walkExpr_checks hk rest names index hf.2)
  | .get object _, hf => by
    simp only [Expr.sites, List.forall_mem_cons] at hf
    simp only [walkExpr, Expr.sites]
    exact (walkExpr_checks hk rest names object hf.2).node ⟨rfl, rfl, rfl⟩
  | .set object _ value, hf => by
    simp only [Expr.sites, List.forall_mem_cons, List.forall_mem_append] at hf
    simp only [walkExpr, Expr.sites]
    have hvalue := walkExpr_checks hk rest names value hf.2.1
    exact (hvalue.before (walkExpr_checks hk rest names object hf.2.2)).node ⟨rfl, rfl, rfl⟩
  | .object _ entries, hf => by
    simp only [Expr.sites, List.forall_mem_cons] at hf
    simp only [walkExpr, Expr.sites]
    exact (walkEntries_checks hk rest names entries hf.2).node ⟨rfl, rfl, rfl⟩
  | .assign id name value, hf => by
    simp only [Expr.sites, List.forall_mem_cons] at hf
    simp only [walkExpr, Expr.sites]
    exact ((walkExpr_checks hk rest names value hf.2).behind (.record id name)).node ⟨rfl, rfl, rfl⟩

theorem walkExprs_checks {k : Context} {outer : List Enclosure} (hk : k.Meets outer)
    (rest : List Layer) (names : List String) : (es : List Expr) →
      (∀ s ∈ exprsSites outer es, s.node.Initialized) →
      Checks outer rest names (walkExprs k es) [] [] (exprsSites outer es)
  | [], _ => by
    simp only [walkExprs, exprsSites]
    exact .nothing
  | e :: es, hf => by
    simp only [exprsSites, List.forall_mem_append] at hf
    simp only [walkExprs, exprsSites]
    exact (walkExpr_checks hk rest names e hf.1).before (walkExprs_checks hk rest names es hf.2)

theorem walkLiteral_checks {k : Context} {outer : List Enclosure} (hk : k.Meets outer)
    (rest : List Layer) (names : List String) : (v : LiteralValue) →
      (∀ s ∈ v.sites outer, s.node.Initialized) →
      Checks outer rest names (walkLiteral k v) [] [] (v.sites outer)
  | .list elements, hf => by
    simp only [LiteralValue.sites] at hf
    simp only [walkLiteral, LiteralValue.sites]
    exact walkExprs_checks hk rest names elements hf
  | .num _, _ | .str _, _ | .bool _, _ | .null, _ | .undefined, _ | .emptyObject, _ => by
    simp only [walkLiteral, LiteralValue.sites]
    exact .nothing

theorem walkEntries_checks {k : Context} {outer : List Enclosure} (hk : k.Meets outer)
    (rest : List Layer) (names : List String) : (es : List Entry) →
      (∀ s ∈ entriesSites outer es, s.node.Initialized) →
      Checks outer rest names (walkEntries k es) [] [] (entriesSites outer es)
  | [], _ => by
    simp only [walkEntries, entriesSites]
    exact .nothing
  | .mk _ value :: es, hf => by
    simp only [entriesSites, List.forall_mem_append] at hf
    simp only [walkEntries, entriesSites]
    exact (walkExpr_checks hk rest names value hf.1).before
      (walkEntries_checks hk rest names es hf.2)

theorem walkStmt_checks {k : Context} {outer : List Enclosure} (hk : k.Meets outer)
    (rest : List Layer) (names : List String) : (s : Stmt) →
      (initializing outer = [] ∨ ∃ e token, s = .expression e token) →
      (∀ q ∈ s.sites outer, q.node.Initialized) →
      Checks outer rest names (walkStmt k s) (s.binders.map Binder.token) [] (s.sites outer)
  | .empty, _, _ => by
    simp only [walkStmt, Stmt.sites, Stmt.binders]
    exact Checks.nothing.node ⟨rfl, rfl, rfl⟩
  | .block statements, hi, hf => by
    simp only [Stmt.sites, List.forall_mem_cons] at hf
    simp only [walkStmt, Stmt.sites, Stmt.binders]
    have hi := hi.resolve_right (by simp)
    refine (Checks.within hi fun layers => ?_).node ⟨rfl, rfl, rfl⟩
    exact walkStmts_checks hk layers [] statements hi hf.2
  | .expression e _, _, hf => by
    simp only [Stmt.sites, List.forall_mem_cons] at hf
    simp only [walkStmt, Stmt.sites, Stmt.binders]
    exact (walkExpr_checks hk rest names e hf.2).node ⟨rfl, rfl, rfl⟩
  | .variable name _ _ init, hi, hf => by
    simp only [Stmt.sites, List.forall_mem_cons] at hf
    simp only [walkStmt, Stmt.sites, Stmt.binders]
    have hi := hi.resolve_right (by simp)
    have hinit : ∀ s, init = some s → ∃ e token, s = .expression e token := by
      rintro s rfl
      exact hf.1
    refine .keeping ?_ (Node.Quiet.not_breaks ⟨rfl, rfl, rfl⟩)
    exact .initialized hi name (optionBinders_of_expression hinit)
      (walkOption_checks (hk.initializer name) rest _ init (.inr hinit) hf.2)
  | .indexAssign id name index value, _, hf => by
    simp only [Stmt.sites, List.forall_mem_cons, List.forall_mem_append] at hf
    simp only [walkStmt, Stmt.sites, Stmt.binders]
    have hindex := walkExpr_checks hk rest names index hf.2.1
    have hvalue := walkExpr_checks hk rest names value hf.2.2
    exact (hindex.before (hvalue.behind (.record id name))).node ⟨rfl, rfl, rfl⟩
  | .functionDecl declaration, hi, hf => by
    simp only [Stmt.sites, List.forall_mem_cons] at hf
    simp only [walkStmt, Stmt.sites, Stmt.binders]
    have hi := hi.resolve_right (by simp)
    rw [← bind_assoc]
    refine ((Checks.declare_define hi declaration.name).seq ?_).node ⟨rfl, rfl, rfl⟩
    exact walkFunction_checks (hk.function declaration) rfl rest _ declaration hf.2
  | .cond _ condition thenBranch elseBranch, hi, hf => by
    simp only [Stmt.sites, List.forall_mem_cons, List.forall_mem_append] at hf
    simp only [walkStmt, Stmt.sites, Stmt.binders, List.map_append]
    have hi := hi.resolve_right (by simp)
    have hcondition := walkExpr_checks hk rest names condition hf.2.1
    have hthen := walkStmt_checks hk rest names thenBranch (.inl hi) hf.2.2.1
    refine (hcondition.before (hthen.seq ?_)).node ⟨rfl, rfl, rfl⟩
    exact walkOption_checks hk rest _ elseBranch (.inl hi) hf.2.2.2
  | .loop condition body _, hi, hf => by
    simp only [Stmt.sites, List.forall_mem_cons, List.forall_mem_append] at hf
    simp only [walkStmt, Stmt.sites, Stmt.binders]
    have hi := hi.resolve_right (by simp)
    have hcondition := walkExpr_checks hk rest names condition hf.2.1
    exact (hcondition.before (walkStmt_checks hk rest names body (.inl hi) hf.2.2)).node
      ⟨rfl, rfl, rfl⟩
  | .returns keyword value, hi, hf => by
    simp only [Stmt.sites, List.forall_mem_cons] at hf
    simp only [walkStmt, Stmt.sites, Stmt.binders]
    have hi := hi.resolve_right (by simp)
    have hvalue := walkStmt_checks hk rest names value (.inl hi) hf.2
    cases hf : outer.find? Enclosure.isFunction with
    | none =>
      rw [show k.body = .program by rw [hk.body, bodyOf, hf]]
      exact .stopping (.returnOutside rfl hf) fun st => ⟨st, rfl⟩
    | some f =>
      cases hconstructor : f.isConstructor with
      | true =>
        rw [hk.body_of_constructor hf hconstructor]
        exact .stopping (.returnInConstructor rfl hf hconstructor) fun st => ⟨st, rfl⟩
      | false =>
        have hkeeps : ∀ e, ¬Site.Breaks ⟨outer, .stmt (.returns keyword value)⟩ e := by
          rintro e (⟨-, hnone⟩ | ⟨-, hsome, hf'⟩ | ⟨hthis, -⟩ | ⟨hread, -⟩)
          · cases hf.symm.trans hnone
          · obtain rfl := Option.some.inj (hf.symm.trans hsome)
            cases hconstructor.symm.trans hf'
          · cases hthis
          · cases hread
        rcases hk.body_of_function hf hconstructor with hbody | hbody <;> rw [hbody]
        · exact hvalue.keeping hkeeps
        · exact hvalue.keeping hkeeps
  | .object properties, hi, hf => by
    simp only [Stmt.sites, List.forall_mem_cons] at hf
    simp only [walkStmt, Stmt.sites, Stmt.binders]
    have hi := hi.resolve_right (by simp)
    exact (walkProperties_checks hk rest names properties hi hf.2).node ⟨rfl, rfl, rfl⟩
  | .classDecl declaration, hi, hf => by
    simp only [Stmt.sites, List.forall_mem_cons] at hf
    simp only [walkStmt, Stmt.sites, Stmt.binders]
    have hi := hi.resolve_right (by simp)
    exact (walkClass_checks hk hi rest names declaration hf.2).node ⟨rfl, rfl, rfl⟩

theorem walkOption_checks {k : Context} {outer : List Enclosure} (hk : k.Meets outer)
    (rest : List Layer) (names : List String) : (o : Option Stmt) →
      (initializing outer = [] ∨ ∀ s, o = some s → ∃ e token, s = .expression e token) →
      (∀ q ∈ optionSites outer o, q.node.Initialized) →
      Checks outer rest names (walkOption k o) ((optionBinders o).map Binder.token) []
        (optionSites outer o)
  | none, _, _ => by
    simp only [walkOption, optionSites, optionBinders]
    exact .nothing
  | some s, hi, hf => by
    simp only [optionSites] at hf
    simp only [walkOption, optionSites, optionBinders]
    exact walkStmt_checks hk rest names s (by simpa using hi) hf

theorem walkStmts_checks {k : Context} {outer : List Enclosure} (hk : k.Meets outer)
    (rest : List Layer) (names : List String) : (ss : List Stmt) → initializing outer = [] →
      (∀ q ∈ stmtsSites outer ss, q.node.Initialized) →
      Checks outer rest names (walkStmts k ss) ((stmtsBinders ss).map Binder.token) []
        (stmtsSites outer ss)
  | [], _, _ => by
    simp only [walkStmts, stmtsSites, stmtsBinders]
    exact .nothing
  | s :: ss, hi, hf => by
    simp only [stmtsSites, List.forall_mem_append] at hf
    simp only [walkStmts, stmtsSites, stmtsBinders, List.map_append]
    have hs := walkStmt_checks hk rest names s (.inl hi) hf.1
    exact hs.seq (walkStmts_checks hk rest _ ss hi hf.2)

theorem walkProperties_checks {k : Context} {outer : List Enclosure} (hk : k.Meets outer)
    (rest : List Layer) (names : List String) : (ps : List StmtEntry) → initializing outer = [] →
      (∀ q ∈ propertiesSites outer ps, q.node.Initialized) →
      Checks outer rest names (walkProperties k ps) ((propertiesBinders ps).map Binder.token) []
        (propertiesSites outer ps)
  | [], _, _ => by
    simp only [walkProperties, propertiesSites, propertiesBinders]
    exact .nothing
  | .mk _ s :: ps, hi, hf => by
    simp only [propertiesSites, List.forall_mem_append] at hf
    simp only [walkProperties, propertiesSites, propertiesBinders, List.map_append]
    have hs := walkStmt_checks hk rest names s (.inl hi) hf.1
    exact hs.seq (walkProperties_checks hk rest _ ps hi hf.2)

theorem walkFunction_checks {k : Context} {outer outer' : List Enclosure} (hk : k.Meets outer')
    (hi : initializing outer' = []) (rest : List Layer) (names : List String) :
    (f : FunctionDecl) → (∀ q ∈ f.sites outer', q.node.Initialized) →
      Checks outer rest names (walkFunction k f) [] [f.scope] (f.sites outer')
  | .mk _ params body _, hf => by
    simp only [FunctionDecl.sites] at hf
    simp only [walkFunction, FunctionDecl.sites]
    refine .within hi fun layers => ?_
    exact (Checks.params hi params).seq (walkStmts_checks hk layers _ body hi hf)

theorem walkClass_checks {k : Context} {outer : List Enclosure} (hk : k.Meets outer)
    (hi : initializing outer = []) (rest : List Layer) (names : List String) :
    (c : ClassDecl) → (∀ q ∈ c.sites (.classBody c :: outer), q.node.Initialized) →
      Checks outer rest names (walkClass k c) [c.name] (c.methods.map FunctionDecl.scope)
        (c.sites (.classBody c :: outer))
  | .mk name methods fields, hf => by
    simp only [ClassDecl.sites, List.forall_mem_append] at hf
    simp only [walkClass, ClassDecl.sites]
    have hin := hk.classBody (.mk name methods fields)
    rw [← bind_assoc]
    refine (Checks.declare_define hi name).seq (.inClass hi fun layers => ?_)
    have hfields := walkFields_checks hin layers ["this"] fields hf.1
    exact hfields.before (walkMethods_checks hin layers ["this"] methods hf.2)

theorem walkFields_checks {k : Context} {outer : List Enclosure} (hk : k.Meets outer)
    (rest : List Layer) (names : List String) : (fs : List FieldDecl) →
      (∀ q ∈ fieldsSites outer fs, q.node.Initialized) →
      Checks outer rest names (walkFields k fs) [] [] (fieldsSites outer fs)
  | [], _ => by
    simp only [walkFields, fieldsSites]
    exact .nothing
  | .mk _ _ init :: fs, hf => by
    simp only [fieldsSites, List.forall_mem_append] at hf
    simp only [walkFields, fieldsSites]
    exact (walkExpr_checks hk rest names init hf.1).before (walkFields_checks hk rest names fs hf.2)

theorem walkMethods_checks {k : Context} {outer : List Enclosure} (hk : k.Meets outer)
    (rest : List Layer) (names : List String) : (ms : List FunctionDecl) →
      (∀ q ∈ methodsSites outer ms, q.node.Initialized) →
      Checks outer rest names (walkMethods k ms) [] (ms.map FunctionDecl.scope)
        (methodsSites outer ms)
  | [], _ => by
    simp only [walkMethods, methodsSites]
    exact .nothing
  | m :: ms, hf => by
    simp only [methodsSites, List.forall_mem_append] at hf
    simp only [walkMethods, methodsSites]
    have hm : Checks outer rest names (walkFunction { k with body := methodBody m } m) [] [m.scope]
        (m.sites (.method m :: outer)) := walkFunction_checks (hk.method m) rfl rest names m hf.1
    exact hm.before (walkMethods_checks hk rest names ms hf.2)

end

theorem faults_program {program : Program} {e : ScopeError} :
    Faults [] ((stmtsBinders program).map Binder.token) [] (Program.sites program) e ↔
      Program.Violates program e := by
  refine ⟨?_, ?_⟩
  · rintro (hagain | ⟨scope, hscope, -⟩ | ⟨s, hs, ⟨scope, hscope, hagain⟩ | hbreaks⟩)
    · exact .scope List.mem_cons_self hagain
    · cases hscope
    · exact .scope (List.mem_cons_of_mem _ (List.mem_flatMap.2 ⟨s, hs, hscope⟩)) hagain
    · exact .site hs hbreaks
  · rintro (⟨hscope, hagain⟩ | ⟨hs, hbreaks⟩)
    · rcases List.mem_cons.1 hscope with rfl | hscope
      · exact .inl hagain
      · obtain ⟨s, hs, hscope⟩ := List.mem_flatMap.1 hscope
        exact .inr (.inr ⟨s, hs, .inl ⟨_, hscope, hagain⟩⟩)
    · exact .inr (.inr ⟨_, hs, .inr hbreaks⟩)

theorem program_judged {program : Program}
    (hf : ∀ s ∈ Program.sites program, s.node.Initialized) :
    Judges (fun _ => True) (within [] (walkStmts ⟨.program, false⟩ program))
      (Program.Violates program) fun _ => True := by
  have hk : Context.Meets ⟨.program, false⟩ [] := ⟨rfl, by simp⟩
  refine (Judges.within (fun layers => ⟨[], rfl, ?_, ?_⟩) fun layers =>
    walkStmts_checks hk layers [] program rfl hf).congr fun _ => faults_program
  · simp [Layer.declares]
  · simp [initializing]

end Scope

/-- Of a program that has been parsed, the scope analysis accepts exactly the well-scoped ones, and an
error reports a rule that the program breaks, at the token that breaks it. -/
theorem resolve_ok_iff_wellScoped {i j : NodeId} {tokens : List Token} {program : Program}
    (h : parseFrom i tokens = .ok (program, j)) (D : Distances) :
    ((resolve D program).1 = .ok () ↔ Program.WellScoped program) ∧
      ∀ e, (resolve D program).1 = .error e → Program.Violates program e := by
  have hverdict := Scope.program_judged (initializers_parsed h) [] trivial D
  rw [wellScoped_iff]
  unfold resolve
  generalize Scope.within [] (Scope.walkStmts ⟨.program, false⟩ program) ⟨[], D⟩ = r at hverdict
  cases hverdict with
  | passed _ hnone => exact ⟨⟨fun _ => hnone, fun _ => rfl⟩, by simp⟩
  | refused he => exact ⟨⟨by simp, fun hnone => absurd he (hnone _)⟩, by simpa using he⟩

/-- A variable that reads itself in its initialiser is no well-scoped program. -/
theorem selfReading_not_wellScoped : ∃ program : Program,
    parseFrom 0 [.plain .kwLet "let", .plain .name "x", .plain .assign "=", .plain .name "x",
      .plain .endMark ""] = .ok (program, 1) ∧
    ¬Program.WellScoped program ∧ Program.Violates program ⟨.ownInitializer, .plain .name "x"⟩ := by
  have hparse : parseFrom 0 [.plain .kwLet "let", .plain .name "x", .plain .assign "=",
      .plain .name "x", .plain .endMark ""] = .ok ([.variable (.plain .name "x") .let_ none
        (some (.expression (.name 0 (.plain .name "x")) (.plain .assign "=")))], 1) := by cbv
  obtain ⟨haccepts, hrefuses⟩ := resolve_ok_iff_wellScoped hparse ∅
  refine ⟨_, hparse, fun h => ?_, hrefuses _ rfl⟩
  cases haccepts.2 h

end ScopedScript
