import ScopedScript.Proofs.Places

/-! # What the scope analysis records

A walk over a tree comes to the places of the tree in order, as far as it gets, and records at each
variable node the distance that its surroundings give its name (`Scope.Records`).  Its layers are
those of the surroundings throughout, and a walk that succeeds has passed every statement of the
tree (`Place.Passed`), so every `return` stands in a function and every `this` in a class.

For a program this makes the recorded distances those of its places, if no number is used for two
purposes and none was in use before (`recordPlaces_getElem?`). -/

namespace ScopedScript

/-! ### Recording -/

/-- The distances with that of the node at a place added, if it has one. -/
def recordPlace (distances : Distances) (p : Place) : Distances :=
  match p.id?, p.distance? with
  | some id, some d => distances.insert id d
  | _, _ => distances

/-- The distances with those of the nodes at the places added, in order. -/
def recordPlaces (distances : Distances) (ps : List Place) : Distances :=
  ps.foldl recordPlace distances

section

variable {D : Distances} {p : Place} {ps qs : List Place} {id : NodeId}

theorem recordPlace_of_id?_none (D : Distances) (h : p.id? = none) : recordPlace D p = D := by
  simp [recordPlace, h]

theorem recordPlaces_append (D : Distances) (ps qs : List Place) :
    recordPlaces D (ps ++ qs) = recordPlaces (recordPlaces D ps) qs := List.foldl_append

theorem recordPlace_of_ne (h : p.id? ≠ some id) : (recordPlace D p)[id]? = D[id]? := by
  unfold recordPlace
  split
  · next i d hi _ =>
    have hne : ¬i = id := fun heq => h (heq ▸ hi)
    simp [Std.HashMap.getElem?_insert, hne]
  · rfl

theorem recordPlace_of_eq (hid : p.id? = some id) (h : D[id]? = none ∨ D[id]? = p.distance?) :
    (recordPlace D p)[id]? = p.distance? := by
  unfold recordPlace
  rw [hid]
  cases hd : p.distance? with
  | none =>
    rw [hd] at h
    exact h.elim (·) (·)
  | some d => simp

/-- Nodes with other numbers keep their distances. -/
theorem recordPlaces_of_ne (h : ∀ p ∈ ps, p.id? ≠ some id) :
    (recordPlaces D ps)[id]? = D[id]? := by
  induction ps generalizing D with
  | nil => rfl
  | cons p ps ih =>
    have hps := ih (D := recordPlace D p) fun q hq => h q (List.mem_cons_of_mem p hq)
    exact hps.trans (recordPlace_of_ne (h p List.mem_cons_self))

/-- What has been recorded stays, if the nodes with that number agree. -/
theorem recordPlaces_of_agree {v : Option Nat} (hD : D[id]? = v)
    (h : ∀ q ∈ ps, q.id? = some id → q.distance? = v) : (recordPlaces D ps)[id]? = v := by
  induction ps generalizing D with
  | nil => exact hD
  | cons p ps ih =>
    refine ih (D := recordPlace D p) ?_ fun q hq => h q (List.mem_cons_of_mem p hq)
    by_cases hp : p.id? = some id
    · have hv := h p List.mem_cons_self hp
      rw [recordPlace_of_eq hp (.inr (hD.trans hv.symm)), hv]
    · rw [recordPlace_of_ne hp, hD]

/-- A number that was not in use gets the distance of the nodes that have it. -/
theorem recordPlaces_getElem? (hD : D[id]? = none) (hp : p ∈ ps) (hid : p.id? = some id)
    (h : ∀ q ∈ ps, q.id? = some id → q.distance? = p.distance?) :
    (recordPlaces D ps)[id]? = p.distance? := by
  induction ps generalizing D with
  | nil => cases hp
  | cons q ps ih =>
    have hps : ∀ r ∈ ps, r.id? = some id → r.distance? = p.distance? := fun r hr =>
      h r (List.mem_cons_of_mem q hr)
    change (recordPlaces (recordPlace D q) ps)[id]? = p.distance?
    by_cases hq : q.id? = some id
    · refine recordPlaces_of_agree ?_ hps
      rw [recordPlace_of_eq hq (.inl hD), h q List.mem_cons_self hq]
    · rcases List.mem_cons.1 hp with rfl | hp
      · exact absurd hid hq
      · exact ih (by rw [recordPlace_of_ne hq, hD]) hp hps

end

/-- If a `return` stands at the place, it stands in a function; if `this` does, it stands in a
class. -/
structure Place.Lawful (p : Place) : Prop where
  returns : ∀ keyword value, p.node = .stmt (.returns keyword value) → p.surroundings.InFunction
  this : ∀ id keyword, p.node = .expr (.this id keyword) → p.surroundings.InClass

theorem Surroundings.InFunction.cons {ctx : Surroundings} (h : ctx.InFunction) (s : Surrounding) :
    Surroundings.InFunction (s :: ctx) := by
  obtain ⟨d, hd⟩ := h
  exact ⟨d, List.mem_cons_of_mem _ hd⟩

theorem Surroundings.InFunction.extends {ctx ctx' : Surroundings} (h : ctx.InFunction)
    (he : ctx.Extends ctx') : ctx'.InFunction := by
  obtain ⟨d, hd⟩ := h
  exact ⟨d, by rwa [he.regions]⟩

theorem Surroundings.InClass.cons {ctx : Surroundings} (h : ctx.InClass) (s : Surrounding) :
    Surroundings.InClass (s :: ctx) := by
  obtain ⟨d, hd⟩ := h
  exact ⟨d, List.mem_cons_of_mem _ hd⟩

theorem Surroundings.InClass.extends {ctx ctx' : Surroundings} (h : ctx.InClass)
    (he : ctx.Extends ctx') : ctx'.InClass := by
  obtain ⟨d, hd⟩ := h
  exact ⟨d, by rwa [he.regions]⟩

theorem Surroundings.InClass.enterFunction {ctx : Surroundings} (h : ctx.InClass)
    (d : FunctionDecl) : (ctx.enterFunction d).InClass :=
  (h.cons _).extends (.introduceParams d.params)

theorem Surroundings.not_inFunction_top : ¬Surroundings.top.InFunction := by
  rintro ⟨d, hd⟩
  cases List.mem_singleton.1 hd

theorem Surroundings.inFunction_enterFunction (ctx : Surroundings) (d : FunctionDecl) :
    (ctx.enterFunction d).InFunction := by
  refine .extends ?_ (.introduceParams d.params)
  exact ⟨d, List.mem_cons_self⟩

/-- A body other than that of the program is that of a function, and what is said to be in a class
is in one. -/
structure Scope.Context.Fits (k : Scope.Context) (ctx : Surroundings) : Prop where
  body : k.body ≠ .program → ctx.InFunction
  cls : k.inClass = true → ctx.InClass

/-- A walk has passed the place: if a statement stands there that is no variable node, if a function
does, and if `this` does. -/
structure Place.Passed (p : Place) : Prop where
  stmt : ∀ s, p.node = .stmt s → p.id? = none → ∃ k : Scope.Context, k.Fits p.surroundings ∧
    ∃ D st, Scope.walkStmt k s ⟨p.surroundings.layers, D⟩ = .ok () st
  function : ∀ token d, p.node = .expr (.function token d) → ∃ k : Scope.Context,
    (k.inClass = true → p.surroundings.InClass) ∧
      ∃ D st, Scope.walkFunction k d ⟨p.surroundings.layers, D⟩ = .ok () st
  this : ∀ id keyword, p.node = .expr (.this id keyword) → p.surroundings.InClass

theorem Place.Passed.lawful {p : Place} (h : p.Passed) : p.Lawful := by
  refine ⟨fun keyword value hnode => ?_, h.this⟩
  obtain ⟨k, hk, D, st, hwalk⟩ := h.stmt _ hnode (by rw [Place.id?, hnode]; rfl)
  refine hk.body fun hb => ?_
  simp only [Scope.walkStmt, hb] at hwalk
  cases hwalk

/-! ### Walks -/

namespace Scope

section

variable {α β : Type} {x : Walk α} {f : α → Walk β} {st st₁ st' : State}

theorem bind_of_ok {a : α} (h : x st = .ok a st₁) : (x >>= f) st = f a st₁ := by
  change EStateM.bind x f st = _
  rw [EStateM.bind, h]

/-- A walk that goes through has gone through both of its parts. -/
theorem ok_of_bind {b : β} (h : (x >>= f) st = .ok b st') :
    ∃ a st₁, x st = .ok a st₁ ∧ f a st₁ = .ok b st' := by
  change EStateM.bind x f st = _ at h
  unfold EStateM.bind at h
  cases hx : x st with
  | error e st₁ =>
    rw [hx] at h
    cases h
  | ok a st₁ =>
    rw [hx] at h
    exact ⟨a, st₁, rfl, h⟩

/-- A walk that fails has failed in its first part or behind it. -/
theorem error_of_bind {e : ScopeError} (h : (x >>= f) st = .error e st') :
    x st = .error e st' ∨ ∃ a st₁, x st = .ok a st₁ ∧ f a st₁ = .error e st' := by
  change EStateM.bind x f st = _ at h
  unfold EStateM.bind at h
  cases hx : x st with
  | error e₁ st₁ =>
    rw [hx] at h
    obtain ⟨rfl, rfl⟩ := EStateM.Result.error.inj h
    exact .inl rfl
  | ok a st₁ =>
    rw [hx] at h
    exact .inr ⟨a, st₁, rfl, h⟩

end

section

variable {layer : Layer} {x : Walk Unit} {st st₁ st' : State}

theorem within_of_ok (h : x { st with layers := layer :: st.layers } = .ok () st₁) :
    within layer x st = .ok () { st₁ with layers := st₁.layers.tail } :=
  bind_of_ok h

/-- A walk in a layer of its own leaves it in the end. -/
theorem ok_of_within (h : within layer x st = .ok () st') :
    ∃ st₁, x { st with layers := layer :: st.layers } = .ok () st₁ ∧
      st' = { st₁ with layers := st₁.layers.tail } := by
  change (x >>= fun _ => modify fun s => { s with layers := s.layers.tail }) _ = _ at h
  obtain ⟨_, st₁, hx, hpop⟩ := ok_of_bind h
  exact ⟨st₁, hx, (EStateM.Result.ok.inj hpop).2.symm⟩

theorem error_of_within {e : ScopeError} (h : within layer x st = .error e st') :
    x { st with layers := layer :: st.layers } = .error e st' := by
  change (x >>= fun _ => modify fun s => { s with layers := s.layers.tail }) _ = _ at h
  obtain hx | ⟨_, _, _, hpop⟩ := error_of_bind h
  · exact hx
  · cases hpop

end

/-- From the layers of `ctx` the walk comes to those of `ctx'` and records the places `ps`, or it
fails on the way and has recorded the first of them. -/
structure Records (x : Walk Unit) (ctx ctx' : Surroundings) (ps : List Place) : Prop where
  result : ∀ {D s}, x ⟨ctx.layers, D⟩ = .ok () s →
    s = ⟨ctx'.layers, recordPlaces D ps⟩ ∧ ∀ p ∈ ps, p.Passed
  stopped : ∀ {D e s}, x ⟨ctx.layers, D⟩ = .error e s →
    ∃ qs, qs <+: ps ∧ s.distances = recordPlaces D qs

namespace Records

variable {x y : Walk Unit} {ctx ctx₁ ctx₂ : Surroundings} {ps qs : List Place} {p : Place}

/-- A walk that fails before it records anything. -/
theorem failing {ctx' : Surroundings} (hx : ∀ {D}, ∃ e s, x ⟨ctx.layers, D⟩ = .error e s ∧
    s.distances = D) : Records x ctx ctx' ps := by
  refine ⟨fun {D s} hs => ?_, fun {D e s} hs => ?_⟩
  · obtain ⟨_, _, hx, _⟩ := @hx D
    rw [hx] at hs
    cases hs
  · obtain ⟨_, _, hx, hD⟩ := @hx D
    rw [hx] at hs
    obtain ⟨rfl, rfl⟩ := EStateM.Result.error.inj hs
    exact ⟨[], List.nil_prefix, hD⟩

theorem nothing : Records (pure ()) ctx ctx [] := by
  refine ⟨fun {D s} hs => ?_, fun hs => by cases hs⟩
  obtain rfl : _ = s := (EStateM.Result.ok.inj hs).2
  exact ⟨rfl, by simp⟩

theorem seq (hx : Records x ctx ctx₁ ps) (hy : Records y ctx₁ ctx₂ qs) :
    Records (do x; y) ctx ctx₂ (ps ++ qs) := by
  refine ⟨fun {D s} hs => ?_, fun {D e s} hs => ?_⟩
  · obtain ⟨_, s₁, hr, hs⟩ := ok_of_bind hs
    obtain ⟨rfl, hps⟩ := hx.result hr
    obtain ⟨rfl, hqs⟩ := hy.result hs
    refine ⟨by rw [recordPlaces_append], fun p hp => ?_⟩
    rcases List.mem_append.1 hp with hp | hp
    · exact hps p hp
    · exact hqs p hp
  · obtain hr | ⟨_, s₁, hr, hs⟩ := error_of_bind hs
    · obtain ⟨rs, hrs, hD⟩ := hx.stopped hr
      exact ⟨rs, hrs.trans (List.prefix_append ps qs), hD⟩
    · obtain ⟨rfl, -⟩ := hx.result hr
      obtain ⟨rs, hrs, hD⟩ := hy.stopped hs
      exact ⟨ps ++ rs, (List.prefix_append_right_inj ps).2 hrs,
        hD.trans (recordPlaces_append D ps rs).symm⟩

/-- A walk that records nothing, before another one. -/
theorem before (hx : Records x ctx ctx₁ []) (hy : Records y ctx₁ ctx₂ ps) :
    Records (do x; y) ctx ctx₂ ps := hx.seq hy

/-- A walk that records nothing, after another one. -/
theorem behind (hx : Records x ctx ctx₁ ps) (hy : Records y ctx₁ ctx₂ []) :
    Records (do x; y) ctx ctx₂ ps := by
  have h := hx.seq hy
  rwa [List.append_nil] at h

/-- A node that is no variable node in front. -/
theorem node (h : Records x ctx ctx₁ ps) (hid : p.id? = none)
    (hp : ∀ {D st}, x ⟨ctx.layers, D⟩ = .ok () st → p.Passed) : Records x ctx ctx₁ (p :: ps) := by
  have hcons : ∀ D qs, recordPlaces D (p :: qs) = recordPlaces D qs := fun D qs => by
    change recordPlaces (recordPlace D p) qs = _
    rw [recordPlace_of_id?_none D hid]
  refine ⟨fun {D s} hs => ?_, fun {D e s} hs => ?_⟩
  · obtain ⟨rfl, hps⟩ := h.result hs
    refine ⟨by rw [hcons], fun q hq => ?_⟩
    rcases List.mem_cons.1 hq with rfl | hq
    · exact hp hs
    · exact hps q hq
  · obtain ⟨qs, hqs, hD⟩ := h.stopped hs
    exact ⟨p :: qs, (List.prefix_cons_inj p).2 hqs, hD.trans (hcons D qs).symm⟩

theorem expr {e : Expr} (h : Records x ctx ctx₁ ps) (he : (Node.expr e).reference? = none)
    (hf : ∀ token d, e ≠ .function token d := by simp) :
    Records x ctx ctx₁ (⟨ctx, .expr e⟩ :: ps) := by
  refine h.node (by rw [Place.id?, he]; rfl) fun _ => ⟨fun _ hnode => ?_, fun _ _ hnode => ?_,
    fun _ _ hnode => ?_⟩
  · cases hnode
  · exact absurd (Node.expr.inj hnode) (hf _ _)
  · obtain rfl := Node.expr.inj hnode
    cases he

theorem function {k : Context} {d : FunctionDecl} (token : Token)
    (h : Records (walkFunction k d) ctx ctx₁ ps) (hk : k.inClass = true → ctx.InClass) :
    Records (walkFunction k d) ctx ctx₁ (⟨ctx, .expr (.function token d)⟩ :: ps) := by
  refine h.node rfl fun {D st} hwalk => ⟨fun _ hnode => ?_, fun _ _ hnode => ?_, fun _ _ hnode => ?_⟩
  · cases hnode
  · obtain ⟨rfl, rfl⟩ := Expr.function.inj (Node.expr.inj hnode)
    exact ⟨k, hk, D, st, hwalk⟩
  · cases hnode

theorem stmt {k : Context} {s : Stmt} (h : Records x ctx ctx₁ ps) (hk : k.Fits ctx)
    (hs : (Node.stmt s).reference? = none) (hx : walkStmt k s = x) :
    Records x ctx ctx₁ (⟨ctx, .stmt s⟩ :: ps) := by
  refine h.node (by rw [Place.id?, hs]; rfl) fun {D st} hwalk => ⟨fun s' hnode _ => ?_,
    fun _ _ hnode => ?_, fun _ _ hnode => ?_⟩
  · obtain rfl := Node.stmt.inj hnode
    exact ⟨k, hk, D, st, hx ▸ hwalk⟩
  · cases hnode
  · cases hnode

theorem record {id : NodeId} {t : Token} {n : Node} (hn : n.reference? = some (id, t))
    (hthis : ∀ id keyword, n = .expr (.this id keyword) → ctx.InClass) :
    Records (record id t) ctx ctx [⟨ctx, n⟩] := by
  refine ⟨fun {D s} hs => ?_, fun hs => by cases hs⟩
  refine ⟨?_, ?_⟩
  · obtain rfl : _ = s := (EStateM.Result.ok.inj hs).2
    dsimp only
    rw [Surroundings.layers_distance?]
    change _ = State.mk ctx.layers (recordPlace D ⟨ctx, n⟩)
    unfold recordPlace Place.id? Place.distance?
    simp only [hn, Option.map_some, Option.bind_some]
    cases ctx.distance? t.lexeme <;> rfl
  · intro p hp
    obtain rfl := List.mem_singleton.1 hp
    refine ⟨fun _ _ hid => ?_, fun token d hnode => ?_, hthis⟩
    · rw [Place.id?, hn] at hid
      cases hid
    · obtain rfl : n = _ := hnode
      cases hn

theorem fail {α : Type} {t : Token} {fault : ScopeFault} {k : α → Walk Unit} :
    Records (Scope.fail t fault >>= k) ctx ctx₁ ps :=
  .failing fun {_} => ⟨_, _, rfl, rfl⟩

theorem read {id : NodeId} {t : Token} {n : Node} (hn : n.reference? = some (id, t))
    (hthis : ∀ id keyword, n = .expr (.this id keyword) → ctx.InClass) :
    Records (read id t) ctx ctx [⟨ctx, n⟩] := by
  by_cases hu : unready ctx.layers t.lexeme = true
  · refine .failing fun {D} => ⟨⟨.ownInitializer, t⟩, ⟨ctx.layers, D⟩, ?_, rfl⟩
    change (if unready ctx.layers t.lexeme then _ else _ : Walk Unit) ⟨ctx.layers, D⟩ = _
    rw [if_pos hu]
    rfl
  · have hread : ∀ D, Scope.read id t ⟨ctx.layers, D⟩ = Scope.record id t ⟨ctx.layers, D⟩ := by
      intro D
      change (if unready ctx.layers t.lexeme then _ else _ : Walk Unit) ⟨ctx.layers, D⟩ = _
      rw [if_neg hu]
    exact ⟨fun hs => (record hn hthis).result ((hread _).symm.trans hs),
      fun hs => (record hn hthis).stopped ((hread _).symm.trans hs)⟩

theorem declare (t : Token) : Records (declare t) ctx (ctx.declare t.lexeme .pending) [] := by
  refine ⟨fun {D s} hs => ?_, fun {D e s} hs => ?_⟩
  · refine ⟨?_, by simp⟩
    rw [Surroundings.layers_declare]
    cases ctx with
    | nil =>
      obtain rfl : _ = s := (EStateM.Result.ok.inj hs).2
      rfl
    | cons r ctx =>
      change (if r.layer.declares t.lexeme then _ else _ : Walk Unit) ⟨_, D⟩ = _ at hs
      split at hs
      · cases hs
      · obtain rfl : _ = s := (EStateM.Result.ok.inj hs).2
        rfl
  · refine ⟨[], List.nil_prefix, ?_⟩
    cases ctx with
    | nil => cases hs
    | cons r ctx =>
      change (if r.layer.declares t.lexeme then _ else _ : Walk Unit) ⟨_, D⟩ = _ at hs
      split at hs
      · obtain ⟨-, rfl⟩ := EStateM.Result.error.inj hs
        rfl
      · cases hs

theorem define (t : Token) (sure : Bool) :
    Records (define t) ctx (ctx.declare t.lexeme (.ofSure sure)) [] := by
  refine ⟨fun {D s} hs => ?_, fun hs => by cases hs⟩
  refine ⟨?_, by simp⟩
  obtain rfl : _ = s := (EStateM.Result.ok.inj hs).2
  rw [Surroundings.layers_declare]
  cases sure <;> rfl

/-- Declaring a name at a stroke. -/
theorem introduce (t : Token) (sure : Bool) (h : Records x (ctx.introduce t.lexeme sure) ctx₁ ps) :
    Records (do Scope.declare t; Scope.define t; x) ctx ctx₁ ps :=
  (declare t).before ((define t sure).before h)

theorem within {r : Surrounding} (h : Records x (r :: ctx) ctx₁ ps) (htail : ctx₁.tail = ctx) :
    Records (within r.layer x) ctx ctx ps := by
  refine ⟨fun {D s} hs => ?_, fun {D e s} hs => h.stopped (error_of_within hs)⟩
  obtain ⟨s₁, hr, rfl⟩ := ok_of_within hs
  obtain ⟨rfl, hps⟩ := h.result hr
  refine ⟨?_, hps⟩
  change State.mk ctx₁.layers.tail _ = _
  rw [Surroundings.layers, ← List.map_tail, htail]
  rfl

theorem params (ps : List Parameter) :
    Records (declareParams ps) ctx (ctx.introduceParams ps) [] := by
  induction ps generalizing ctx with
  | nil => exact nothing
  | cons p ps ih => exact introduce p.left true ih

end Records

/-! ### Trees -/

theorem Context.Fits.cons {k : Context} {ctx : Surroundings} (h : k.Fits ctx) (s : Surrounding) :
    k.Fits (s :: ctx) :=
  ⟨fun hb => (h.body hb).cons s, fun hc => (h.cls hc).cons s⟩

theorem Context.Fits.inClass {k : Context} {ctx : Surroundings} (h : k.Fits ctx)
    (d : ClassDecl) : Context.Fits { k with inClass := true } (ctx.enterClass d) :=
  ⟨fun hb => (h.body hb).cons _, fun _ => ⟨d, List.mem_cons_self⟩⟩

theorem Context.Fits.extends {k : Context} {ctx ctx' : Surroundings} (h : k.Fits ctx)
    (he : ctx.Extends ctx') : k.Fits ctx' :=
  ⟨fun hb => (h.body hb).extends he, fun hc => (h.cls hc).extends he⟩

/-- The body of a function fits whatever kind of body it is. -/
theorem Context.Fits.function {k : Context} {ctx : Surroundings}
    (h : k.inClass = true → ctx.InClass) (d : FunctionDecl) : k.Fits (ctx.enterFunction d) :=
  ⟨fun _ => ctx.inFunction_enterFunction d, fun hc => (h hc).enterFunction d⟩

theorem Context.Fits.program : Context.Fits ⟨.program, false⟩ .top :=
  ⟨fun hb => absurd rfl hb, fun hc => by cases hc⟩

mutual

theorem walkExpr_records {k : Context} {ctx : Surroundings} (hk : k.Fits ctx) :
    (e : Expr) → Records (walkExpr k e) ctx ctx (e.places ctx)
  | .grouping inner => by
    simp only [walkExpr, Expr.places]
    exact (walkExpr_records hk inner).expr rfl
  | .binary left _ right => by
    simp only [walkExpr, Expr.places]
    exact ((walkExpr_records hk left).seq (walkExpr_records hk right)).expr rfl
  | .unary _ operand => by
    simp only [walkExpr, Expr.places]
    exact (walkExpr_records hk operand).expr rfl
  | .literal _ value => by
    simp only [walkExpr, Expr.places]
    exact (walkLiteral_records hk value).expr rfl
  | .name id token => by
    simp only [walkExpr, Expr.places]
    exact .read rfl fun _ _ h => by cases h
  | .this id keyword => by
    simp only [walkExpr, Expr.places]
    cases hclass : k.inClass with
    | true => exact .record rfl fun _ _ _ => hk.cls hclass
    | false => exact .fail
  | .function _ declaration => by
    simp only [walkExpr, Expr.places]
    have hbody := walkFunction_records (k := { k with body := .function }) hk.cls declaration
    exact hbody.function _ hk.cls
  | .call callee _ args => by
    simp only [walkExpr, Expr.places]
    exact ((walkExpr_records hk callee).seq (walkExprs_records hk args)).expr rfl
  | .index id name index => by
    simp only [walkExpr, Expr.places]
    exact (Records.read rfl fun _ _ h => by cases h).seq (walkExpr_records hk index)
  | .get object _ => by
    simp only [walkExpr, Expr.places]
    exact (walkExpr_records hk object).expr rfl
  | .set object _ value => by
    simp only [walkExpr, Expr.places]
    exact ((walkExpr_records hk value).seq (walkExpr_records hk object)).expr rfl
  | .object _ entries => by
    simp only [walkExpr, Expr.places]
    exact (walkEntries_records hk entries).expr rfl
  | .assign id name value => by
    simp only [walkExpr, Expr.places]
    exact (walkExpr_records hk value).seq (.record rfl fun _ _ h => by cases h)

theorem walkExprs_records {k : Context} {ctx : Surroundings} (hk : k.Fits ctx) :
    (es : List Expr) → Records (walkExprs k es) ctx ctx (exprsPlaces ctx es)
  | [] => by
    simp only [walkExprs, exprsPlaces]
    exact .nothing
  | e :: es => by
    simp only [walkExprs, exprsPlaces]
    exact (walkExpr_records hk e).seq (walkExprs_records hk es)

theorem walkLiteral_records {k : Context} {ctx : Surroundings} (hk : k.Fits ctx) :
    (v : LiteralValue) → Records (walkLiteral k v) ctx ctx (v.places ctx)
  | .list elements => by
    simp only [walkLiteral, LiteralValue.places]
    exact walkExprs_records hk elements
  | .num _ | .str _ | .bool _ | .null | .undefined | .emptyObject => by
    simp only [walkLiteral, LiteralValue.places]
    exact .nothing

theorem walkEntries_records {k : Context} {ctx : Surroundings} (hk : k.Fits ctx) :
    (es : List Entry) → Records (walkEntries k es) ctx ctx (entriesPlaces ctx es)
  | [] => by
    simp only [walkEntries, entriesPlaces]
    exact .nothing
  | .mk _ value :: es => by
    simp only [walkEntries, entriesPlaces]
    exact (walkExpr_records hk value).seq (walkEntries_records hk es)

theorem walkStmt_records {k : Context} {ctx : Surroundings} (hk : k.Fits ctx) (sure : Bool) :
    (s : Stmt) → Records (walkStmt k s) ctx (s.after sure ctx) (s.places sure ctx)
  | .empty => by
    simp only [walkStmt, Stmt.after, Stmt.places]
    exact Records.nothing.stmt hk rfl (by simp only [walkStmt])
  | .block statements => by
    simp only [walkStmt, Stmt.after, Stmt.places]
    have hin : k.Fits (ctx.enterBlock statements) := hk.cons _
    have hblock := (walkStmts_records hin true statements).within
      (r := ⟨.block statements, []⟩) (stmtsAfter_extends _ _ _).tail
    exact hblock.stmt hk rfl (by simp only [walkStmt, Surrounding.layer, List.map_nil])
  | .expression e _ => by
    simp only [walkStmt, Stmt.after, Stmt.places]
    exact (walkExpr_records hk e).stmt hk rfl (by simp only [walkStmt])
  | .variable name _ _ init => by
    simp only [walkStmt, Stmt.after, Stmt.places]
    have hpending : k.Fits (ctx.declare name.lexeme .pending) := hk.extends (.declare _ _ .refl)
    exact ((Records.declare name).before
      ((walkOption_records hpending false init).behind (.define name sure))).stmt hk rfl
        (by simp only [walkStmt])
  | .indexAssign id name index value => by
    simp only [walkStmt, Stmt.after, Stmt.places]
    rw [List.append_assoc]
    exact (walkExpr_records hk index).seq
      ((walkExpr_records hk value).seq (.record rfl fun _ _ h => by cases h))
  | .functionDecl declaration => by
    simp only [walkStmt, Stmt.after, Stmt.places]
    have hin := hk.extends (.introduce declaration.name.lexeme sure)
    have hbody := walkFunction_records (k := { k with body := .function }) hin.cls declaration
    exact (Records.introduce _ sure hbody).stmt hk rfl (by simp only [walkStmt])
  | .cond _ condition thenBranch elseBranch => by
    simp only [walkStmt, Stmt.after, Stmt.places]
    rw [List.append_assoc]
    have hafter := hk.extends (thenBranch.after_extends false ctx)
    exact ((walkExpr_records hk condition).seq ((walkStmt_records hk false thenBranch).seq
      (walkOption_records hafter false elseBranch))).stmt hk rfl (by simp only [walkStmt])
  | .loop condition body _ => by
    simp only [walkStmt, Stmt.after, Stmt.places]
    exact ((walkExpr_records hk condition).seq (walkStmt_records hk false body)).stmt hk rfl
      (by simp only [walkStmt])
  | .returns keyword value => by
    simp only [walkStmt, Stmt.after, Stmt.places]
    have hvalue := walkStmt_records hk false value
    cases hb : k.body with
    | program | constructor => exact .failing fun {_} => ⟨_, _, rfl, rfl⟩
    | function | method => exact hvalue.stmt hk rfl (by simp only [walkStmt, hb])
  | .object properties => by
    simp only [walkStmt, Stmt.after, Stmt.places]
    exact (walkProperties_records hk false properties).stmt hk rfl (by simp only [walkStmt])
  | .classDecl declaration => by
    simp only [walkStmt, Stmt.after, Stmt.places]
    exact (walkClass_records hk sure declaration).stmt hk rfl (by simp only [walkStmt])

theorem walkOption_records {k : Context} {ctx : Surroundings} (hk : k.Fits ctx) (sure : Bool) :
    (o : Option Stmt) →
      Records (walkOption k o) ctx (optionAfter sure ctx o) (optionPlaces sure ctx o)
  | none => by
    simp only [walkOption, optionAfter, optionPlaces]
    exact .nothing
  | some s => by
    simp only [walkOption, optionAfter, optionPlaces]
    exact walkStmt_records hk sure s

theorem walkStmts_records {k : Context} {ctx : Surroundings} (hk : k.Fits ctx) (sure : Bool) :
    (ss : List Stmt) →
      Records (walkStmts k ss) ctx (stmtsAfter sure ctx ss) (stmtsPlaces sure ctx ss)
  | [] => by
    simp only [walkStmts, stmtsAfter, stmtsPlaces]
    exact .nothing
  | s :: ss => by
    simp only [walkStmts, stmtsAfter, stmtsPlaces]
    exact (walkStmt_records hk sure s).seq
      (walkStmts_records (hk.extends (s.after_extends sure ctx)) sure ss)

theorem walkProperties_records {k : Context} {ctx : Surroundings} (hk : k.Fits ctx)
    (sure : Bool) :
    (ps : List StmtEntry) →
      Records (walkProperties k ps) ctx (propertiesAfter sure ctx ps) (propertiesPlaces sure ctx ps)
  | [] => by
    simp only [walkProperties, propertiesAfter, propertiesPlaces]
    exact .nothing
  | .mk _ s :: ps => by
    simp only [walkProperties, propertiesAfter, propertiesPlaces]
    exact (walkStmt_records hk sure s).seq
      (walkProperties_records (hk.extends (s.after_extends sure ctx)) sure ps)

theorem walkFunction_records {k : Context} {ctx : Surroundings}
    (hc : k.inClass = true → ctx.InClass) :
    (f : FunctionDecl) → Records (walkFunction k f) ctx ctx (f.places ctx)
  | .mk name params body result => by
    simp only [walkFunction, FunctionDecl.places]
    have hin : k.Fits (ctx.enterFunction (.mk name params body result)) := .function hc _
    have hbody := (Records.params params).before (walkStmts_records hin true body)
    refine hbody.within ((stmtsAfter_extends _ _ _).tail.trans ?_)
    exact (Surroundings.Extends.introduceParams params).tail

theorem walkClass_records {k : Context} {ctx : Surroundings} (hk : k.Fits ctx) (sure : Bool) :
    (c : ClassDecl) → Records (walkClass k c) ctx (ctx.introduce c.name.lexeme sure)
      (c.places (ctx.introduce c.name.lexeme sure))
  | .mk name methods fields => by
    simp only [walkClass, ClassDecl.places]
    have hin := (hk.extends (.introduce name.lexeme sure)).inClass (.mk name methods fields)
    have hbody := (walkFields_records hin fields).seq (walkMethods_records hin methods)
    exact .introduce name sure (hbody.within rfl)

theorem walkFields_records {k : Context} {ctx : Surroundings} (hk : k.Fits ctx) :
    (fs : List FieldDecl) → Records (walkFields k fs) ctx ctx (fieldsPlaces ctx fs)
  | [] => by
    simp only [walkFields, fieldsPlaces]
    exact .nothing
  | .mk _ _ init :: fs => by
    simp only [walkFields, fieldsPlaces]
    exact (walkExpr_records hk init).seq (walkFields_records hk fs)

theorem walkMethods_records {k : Context} {ctx : Surroundings} (hk : k.Fits ctx) :
    (ms : List FunctionDecl) → Records (walkMethods k ms) ctx ctx (methodsPlaces ctx ms)
  | [] => by
    simp only [walkMethods, methodsPlaces]
    exact .nothing
  | m :: ms => by
    simp only [walkMethods, methodsPlaces]
    have hm := walkFunction_records (k := { k with body := methodBody m }) hk.cls m
    exact hm.seq (walkMethods_records hk ms)

end

end Scope

open Scope

/-! ### Programs -/

theorem program_records (p : Program) :
    Records (within [] (walkStmts ⟨.program, false⟩ p)) [] [] p.places :=
  (walkStmts_records .program true p).within
    (r := ⟨.globals, []⟩) (stmtsAfter_extends _ _ _).tail

/-- What the analysis of a program records. -/
theorem resolve_records {D D' : Distances} {p : Program} (h : resolve D p = (.ok (), D')) :
    D' = recordPlaces D p.places ∧ ∀ q ∈ p.places, q.Passed := by
  unfold resolve at h
  cases hr : within [] (walkStmts ⟨.program, false⟩ p) ⟨[], D⟩ with
  | error e s =>
    rw [hr] at h
    cases h
  | ok u s =>
    rw [hr] at h
    obtain ⟨rfl, hpassed⟩ := (program_records p).result hr
    exact ⟨(Prod.mk.inj h).2.symm, hpassed⟩

/-- An analysis comes to the places of the program in order, and stops at an error. -/
theorem resolve_visits (D : Distances) (p : Program) :
    ∃ qs, qs <+: p.places ∧ (resolve D p).2 = recordPlaces D qs ∧
      ((resolve D p).1 = .ok () → qs = p.places) := by
  cases hr : within [] (walkStmts ⟨.program, false⟩ p) ⟨[], D⟩ with
  | error e s =>
    obtain ⟨qs, hqs, hD⟩ := (program_records p).stopped hr
    unfold resolve
    rw [hr]
    exact ⟨qs, hqs, hD, fun h => by cases h⟩
  | ok u s =>
    obtain ⟨rfl, -⟩ := (program_records p).result hr
    unfold resolve
    rw [hr]
    exact ⟨p.places, List.prefix_refl _, rfl, fun _ => rfl⟩

end ScopedScript
