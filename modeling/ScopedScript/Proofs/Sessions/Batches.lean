import ScopedScript.Proofs.Sessions.Parts

/-! # Running a source at once or in parts

Two sources run one after the other come to the same as the source that joins them by a line feed
(`Session.parts_run_as_joined`).

* In the joined source, a node of the second part that means a variable of the first part has a
  distance, which leads to the globals; in the second part by itself the node has none, and is looked
  up among the globals.  `Likeness.parted` compares such programs; that the distance leads there is
  known because frames are aligned with what surrounds a node.
* Surroundings in which the globals have names besides give a name the same distance, or one that
  leads to the globals and without those names is missing (`Surroundings.Broader.distance`). -/

namespace ScopedScript

open Evaluation

/-! ### Programs one after the other -/

theorem stmtsPlaces_append (sure : Bool) (ctx : Surroundings) (p q : List Stmt) :
    stmtsPlaces sure ctx (p ++ q) =
      stmtsPlaces sure ctx p ++ stmtsPlaces sure (stmtsAfter sure ctx p) q := by
  induction p generalizing ctx with
  | nil => rfl
  | cons s p ih =>
    rw [List.cons_append, stmtsPlaces, stmtsPlaces, stmtsAfter, ih, List.append_assoc]

theorem runProgram_append (self : Interpreter) (p q : Program) (v : Value) :
    runProgram self (p ++ q) v = runProgram self p v >>= runProgram self q := by
  induction p generalizing v with
  | nil => rw [List.nil_append, runProgram, pure_bind]
  | cons s p ih =>
    cases s with
    | expression e t =>
      simp only [List.cons_append, runProgram, bind_assoc, ih]
    | _ => simp only [List.cons_append, runProgram, bind_assoc, ih]

/-- An expression statement is alike to one. -/
theorem stmtsAlike.expression {L : TreeLikeness} {sure : Bool} {ctx : Surroundings}
    {p p' : List Stmt} (h : stmtsAlike L sure ctx p p') (he : ∃ e t, .expression e t ∈ p) :
    ∃ e t, .expression e t ∈ p' := by
  obtain ⟨e, t, hmem⟩ := he
  induction p generalizing ctx p' with
  | nil => cases hmem
  | cons s p ih =>
    obtain ⟨s', p', rfl, hs, hp⟩ := h
    rcases List.mem_cons.1 hmem with rfl | hmem
    · obtain ⟨_, e', t', rfl, -⟩ := hs
      exact ⟨e', t', List.mem_cons_self⟩
    · obtain ⟨e', t', hmem'⟩ := ih hp hmem
      exact ⟨e', t', List.mem_cons_of_mem _ hmem'⟩

/-- Two results that differ at most in their values. -/
inductive SameEnd (P : Value → Value → Prop) :
    EStateM.Result Stop Machine Value → EStateM.Result Stop Machine Value → Prop
  | ok {v w : Value} (m : Machine) : P v w → SameEnd P (.ok v m) (.ok w m)
  | error (e : Stop) (m : Machine) : SameEnd P (.error e m) (.error e m)

theorem SameEnd.refl {P : Value → Value → Prop} (h : ∀ v, P v v)
    (r : EStateM.Result Stop Machine Value) : SameEnd P r r := by
  cases r with
  | ok v m => exact .ok m (h v)
  | error e m => exact .error e m

/-- The value from before a program matters only if the program has no expression statement. -/
theorem runProgram_last (self : Interpreter) (p : Program) (v w : Value) (m : Machine) :
    SameEnd (fun x y => (∃ e t, .expression e t ∈ p) → x = y) (runProgram self p v m)
      (runProgram self p w m) := by
  induction p generalizing m with
  | nil => exact .ok m fun ⟨_, _, h⟩ => absurd h List.not_mem_nil
  | cons s p ih =>
    by_cases hs : ∃ e t, s = .expression e t
    · obtain ⟨e, t, rfl⟩ := hs
      exact .refl (fun _ _ => rfl) _
    · have hne : ∀ e t, s ≠ .expression e t := fun e t h => hs ⟨e, t, h⟩
      rw [Sims.runProgram_of_ne self hne, Sims.runProgram_of_ne self hne]
      change SameEnd _ (EStateM.bind (self (.stmt s)) (fun _ => runProgram self p v) m)
        (EStateM.bind (self (.stmt s)) (fun _ => runProgram self p w) m)
      unfold EStateM.bind
      cases self (.stmt s) m with
      | error e m' => exact .error e m'
      | ok _ m' =>
        have hrest := ih m'
        dsimp only
        generalize runProgram self p v m' = r, runProgram self p w m' = r' at hrest ⊢
        cases hrest with
        | error e m₂ => exact .error e m₂
        | ok m₂ h =>
          refine .ok m₂ ?_
          rintro ⟨e, t, hmem⟩
          exact h ⟨e, t, (List.mem_cons.1 hmem).resolve_left fun heq => hne e t heq.symm⟩

/-! ### Surroundings with more globals -/

/-- The same surroundings, except that the globals may have names besides. -/
def Surroundings.Broader (ctx ctx' : Surroundings) : Prop :=
  ∃ inner o o', ctx = inner ++ [o] ∧ ctx' = inner ++ [o'] ∧
    ∀ x, o'.declares x = true → o.declares x = true

namespace Surroundings.Broader

variable {ctx ctx' : Surroundings}

theorem push (h : ctx.Broader ctx') (s : Surrounding) : Broader (s :: ctx) (s :: ctx') := by
  obtain ⟨inner, o, o', rfl, rfl, ho⟩ := h
  exact ⟨s :: inner, o, o', rfl, rfl, ho⟩

theorem declare (h : ctx.Broader ctx') (name : String) (standing : Standing) :
    Broader (ctx.declare name standing) (ctx'.declare name standing) := by
  obtain ⟨inner, o, o', rfl, rfl, ho⟩ := h
  cases inner with
  | nil =>
    refine ⟨[], _, _, rfl, rfl, fun x hx => ?_⟩
    simp only [Surrounding.declares, List.any_cons, Bool.or_eq_true] at hx ⊢
    exact hx.imp_right (ho x)
  | cons s inner => exact ⟨_ :: inner, o, o', rfl, rfl, ho⟩

/-- Names have the same distances, or the first one leads to the globals and the second is missing. -/
theorem distance (h : ctx.Broader ctx') (name : String) :
    ctx'.distance? name = ctx.distance? name ∨
      ctx'.distance? name = none ∧ ctx.distance? name = some (ctx.length - 1) := by
  obtain ⟨inner, o, o', rfl, rfl, ho⟩ := h
  unfold distance?
  rw [List.findIdx?_append, List.findIdx?_append]
  cases inner.findIdx? (·.declares name) with
  | some d => exact .inl rfl
  | none =>
    cases hname : o'.declares name with
    | true => exact .inl (by simp [List.findIdx?_cons, hname, ho name hname])
    | false =>
      cases hmore : o.declares name with
      | false => exact .inl (by simp [List.findIdx?_cons, hname, hmore])
      | true => exact .inr (by simp [List.findIdx?_cons, hname, hmore])

/-- What follows a program has at least the names of the start. -/
theorem after (p : Program) : Broader (stmtsAfter true .top p) .top := by
  have htail := (stmtsAfter_extends true .top p).tail
  have hregions := (stmtsAfter_extends true .top p).regions
  cases hctx : stmtsAfter true .top p with
  | nil =>
    rw [hctx] at hregions
    cases hregions
  | cons o ctx =>
    rw [hctx] at htail
    obtain rfl : ctx = [] := htail
    exact ⟨[], o, ⟨.globals, []⟩, rfl, rfl, fun x hx => by cases hx⟩

end Surroundings.Broader

/-! ### Behind another program and by itself -/

/-- The function does not look at the index of its token: with another one it does the same, and an
error is at a token that is the same but for its index. -/
abbrev HostFunction.IgnoresIndex (f : HostFunction) : Prop :=
  f.Respects Token.Reindexed Token.Reindexed

/-- A program behind another one and by itself: the tokens stand at other positions of the row, and
corresponding nodes have the same number.  They have the same distance, or that of the first node
leads to the globals and the second one has none. -/
def Likeness.parted (bound : NodeId) (D D' : Distances) : Likeness where
  token := Token.Reindexed
  name := Token.Reindexed
  annotation _ _ := True
  function _ _ := True
  node ctx n n' := (∀ id t, n.reference? = some (id, t) → id < bound ∧
      (∃ t', n'.reference? = some (id, t')) ∧
      (D'[id]? = D[id]? ∨ D'[id]? = none ∧ D[id]? = some (ctx.length - 1))) ∧
    ∀ keyword value, n = .stmt (.returns keyword value) → ctx.InFunction
  reported := Token.Reindexed
  tracked := True
  left := D
  right := D'
  renamed _ := id
  watched := False
  same := by
    rintro t _ ⟨index, rfl⟩
    exact ⟨rfl, rfl⟩
  unnamed := id
  home {ctx n n' id id' t t' fr f} hn hr hr' hctx := by
    obtain ⟨-, ⟨u, hu⟩, hD⟩ := hn.1 id t hr
    obtain ⟨rfl, -⟩ := Prod.mk.inj (Option.some.inj (hr'.symm.trans hu))
    unfold homeFrom
    rcases hD with hD | ⟨hnone, hsome⟩
    · rw [hD]
    · rw [hnone, hsome]
      exact (hctx trivial).outward?_last
  found _ _ h _ _ _ _ := h.lexeme_eq
  declared _ _ _ h _ _ := h.lexeme_eq
  params _ h := h.imp fun _ _ hp => hp.name_eq trivial hp.left.lexeme_eq
  injective _ := Function.injective_id
  globals := id_eq
  receiver _ := id_eq _
  returns hn _ := hn.2 _ _ rfl
  spares _ h := h.elim

section

variable {bound bound' i j k : NodeId} {D D' E E' F G : Distances}

/-- More numbers in use, and other distances, as long as the numbers in use keep theirs. -/
theorem carries_parted (hle : bound ≤ bound') (hE : ∀ id : NodeId, id < bound → E[id]? = D[id]?)
    (hE' : ∀ id : NodeId, id < bound → E'[id]? = D'[id]?) (fr : Array Frame) :
    Carries (.parted bound D D') (.parted bound' E E') fr fr where
  trees :=
    { token := id
      name := id
      annotation := id
      function := fun _ _ => trivial
      node := by
        rintro ctx _ n n' rfl - - ⟨hrefs, hreturns⟩
        refine ⟨fun id t hr => ?_, hreturns⟩
        obtain ⟨hid, hr', hD⟩ := hrefs id t hr
        refine ⟨Nat.lt_of_lt_of_le hid hle, hr', ?_⟩
        rwa [hE id hid, hE' id hid]
      push := fun _ h => h ▸ rfl
      declare := fun _ _ h => h ▸ rfl }
  aligned := id
  held := fun _ h => h.elim

/-- What a session has is alike to itself, whatever distances are found for other numbers. -/
theorem Session.Sound.carries_parted {programs : List Program} {s : Session} (h : s.Sound programs)
    (hle : s.nextId ≤ bound)
    (hD : ∀ id : NodeId, id < s.nextId → D[id]? = s.machine.distances[id]?)
    (hD' : ∀ id : NodeId, id < s.nextId → D'[id]? = s.machine.distances[id]?) (fr : Array Frame) :
    Carries (.ofPrograms programs s.machine.distances) (.parted bound D D') fr fr where
  trees :=
    { token := fun {t t'} ht => ⟨t.index, by rw [← show t = t' from ht]⟩
      name := fun {t t'} ht => ⟨t.index, by rw [← show t = t' from ht]⟩
      annotation := id
      function := fun _ _ => trivial
      node := by
        rintro ctx _ n n' rfl - - ⟨⟨p, hp, hplace⟩, hpassed, -, hrefs⟩
        refine ⟨fun id t hr => ?_, fun keyword value hn => hpassed.lawful.returns keyword value hn⟩
        have hid : Place.id? ⟨ctx, n⟩ = some id := by rw [Place.id?, hr]; rfl
        have hlt := h.numbered p hp _ hplace id hid
        refine ⟨Nat.lt_of_lt_of_le hlt hle, (hrefs id t hr).1, .inl ?_⟩
        rw [hD id hlt, hD' id hlt]
      push := fun _ h => h ▸ rfl
      declare := fun _ _ h => h ▸ rfl }
  aligned := id
  held := fun _ h => h.elim

variable {q r r' : Program}

/-- The first part is alike to itself, with and without the second one behind it. -/
theorem first_alike (hfirst : stmtsMade Eq 0 i j q q)
    (hjoined : NumberedIn i k (Program.places (q ++ r)))
    (hfresh : ∀ id : NodeId, i ≤ id → D[id]? = none)
    (hres : resolve D (q ++ r) = (.ok (), F)) (hE : resolve D q = (.ok (), E)) :
    stmtsAlike (Likeness.parted j F E).toTreeLikeness true .top q q := by
  obtain ⟨halike, hnum⟩ := hfirst true .top
  have hsharp : Sharpens (shifting Eq 0) (Likeness.parted j F E).toTreeLikeness (· = ·)
      (· ∈ q.places) (fun _ => True) :=
    { token := fun {t t'} ht => ⟨t.index, by rw [← show t = t' from ht]⟩
      name := fun {t t'} ht => ⟨t.index, by rw [← show t = t' from ht]⟩
      annotation := fun _ => trivial
      function := fun _ _ => trivial
      node := by
        rintro ctx _ n n' rfl hplace - ⟨hrefs, -⟩
        refine ⟨fun id t hr => ?_, fun keyword value hn =>
          ((resolve_records hE).2 _ hplace).lawful.returns keyword value hn⟩
        obtain ⟨-, t', hr', -⟩ := hrefs id t hr
        have hid : Place.id? ⟨ctx, n⟩ = some id := by rw [Place.id?, hr]; rfl
        have hboth : ⟨ctx, n⟩ ∈ Program.places (q ++ r) := by
          rw [Program.places, stmtsPlaces_append]
          exact List.mem_append_left _ hplace
        refine ⟨(hnum.within _ hplace id hid).2, ⟨t', hr'⟩, .inl ?_⟩
        rw [resolve_distance hnum hfresh hE hplace hid, resolve_distance hjoined hfresh hres hboth hid]
      push := fun _ h => h ▸ rfl
      declare := fun _ _ h => h ▸ rfl }
  exact stmtsAlike_refine hsharp rfl q halike (fun _ hq => hq) fun _ _ => trivial

/-- The second part behind the first one and by itself. -/
theorem second_alike (hsecond : stmtsMade Token.Reindexed 0 j k r r')
    (hjoined : NumberedIn i k (Program.places (q ++ r)))
    (hfresh : ∀ id : NodeId, i ≤ id → D[id]? = none)
    (hres : resolve D (q ++ r) = (.ok (), F)) (hfresh' : ∀ id : NodeId, j ≤ id → E[id]? = none)
    (hE : resolve E r = (.ok (), E')) (hG : ∀ id : NodeId, j ≤ id → G[id]? = E'[id]?) :
    stmtsAlike (Likeness.parted k F G).toTreeLikeness true (stmtsAfter true .top q) r r' := by
  obtain ⟨halike, -⟩ := hsecond true (stmtsAfter true .top q)
  obtain ⟨-, hnum⟩ := hsecond true .top
  have hsharp : Sharpens (shifting Token.Reindexed 0) (Likeness.parted k F G).toTreeLikeness
      Surroundings.Broader (· ∈ Program.places (q ++ r)) (· ∈ r.places) :=
    { token := id
      name := id
      annotation := fun _ => trivial
      function := fun _ _ => trivial
      node := by
        rintro ctx ctx' n n' hctx hplace hplace' ⟨hrefs, -⟩
        refine ⟨fun id t hr => ?_, fun keyword value hn =>
          ((resolve_records hres).2 _ hplace).lawful.returns keyword value hn⟩
        obtain ⟨-, t', hr', -⟩ := hrefs id t hr
        have hid (c : Surroundings) : Place.id? ⟨c, n⟩ = some id := by rw [Place.id?, hr]; rfl
        obtain ⟨hlow, hhigh⟩ := hnum.within _ hplace' id (hid ctx')
        refine ⟨hhigh, ⟨t', hr'⟩, ?_⟩
        rw [hG id hlow, resolve_distance hnum hfresh' hE hplace' (hid ctx'),
          resolve_distance hjoined hfresh hres hplace (hid ctx), Place.distance?, Place.distance?, hr]
        exact hctx.distance t.lexeme
      push := fun _ h => h.push _
      declare := fun standing _ h => h.declare _ standing }
  refine stmtsAlike_refine hsharp (.after q) r halike (fun p hp => ?_) fun _ hp => hp
  rw [Program.places, stmtsPlaces_append]
  exact List.mem_append_right _ hp

end

/-! ### Runs -/

/-- What a run at once comes to and what the runs of the parts come to: alike values, as far as
values are `shown`, or the same error, at a token at another position of its row. -/
inductive Outcome.InParts (R : Likeness) (fr : Array Frame) (shown : Prop) : Outcome → Outcome → Prop
  | value {v v' : Value} : (shown → v.Alike R fr v') → InParts R fr shown (.value v) (.value v')
  | failed (e : RuntimeError) (index : Nat) :
      InParts R fr shown (.failed (.runtime e))
        (.failed (.runtime { e with token := { e.token with index := index } }))
  | unfinished : InParts R fr shown .unfinished .unfinished

theorem Stop.Alike.reindexed {bound : NodeId} {D D' : Distances} {e : RuntimeError} {stop : Stop}
    (h : Stop.Alike (.parted bound D D') (.raised e) stop) :
    ∃ index, stop = .raised { e with token := { e.token with index := index } } := by
  cases h with
  | raised fault ht | named fault ht | reported message ht =>
    obtain ⟨index, rfl⟩ := ht
    exact ⟨index, rfl⟩

namespace Session

/-- Runs two sources one after the other, the second one only if the first one succeeds. -/
def runBoth (s : Session) (fuel : Nat) (name a name' b : String) : Outcome × Session :=
  match s.run fuel name a with
  | (.value _, s₁) => s₁.run fuel name' b
  | stopped => stopped

/-- What a run comes to, and the session with the machine that it leaves. -/
def close (s : Session) : EStateM.Result Stop Machine Value → Outcome × Session
  | .ok v m => (.value v, { s with machine := m })
  | .error (.raised e) m => (.failed (.runtime e), { s with machine := m })
  | .error .outOfFuel m => (.unfinished, { s with machine := m })

theorem execute_eq (s : Session) (fuel : Nat) (p : Program) :
    s.execute fuel p = s.close (runProgram (Evaluation.run fuel) p .undefined s.machine) := rfl

/-- The same has been done in two sessions. -/
structure SameDone (shown : Prop) (x x' : Outcome × Session) : Prop where
  output : x'.2.machine.sink = x.2.machine.sink
  machine : x.2.machine.Alike (.parted x.2.nextId x.2.machine.distances x'.2.machine.distances)
    x'.2.machine
  /-- The globals have the same names, in the same order, and alike values. -/
  globals : Record.Alike (.parted x.2.nextId x.2.machine.distances x'.2.machine.distances)
    x.2.machine.frames id (x.2.machine.vars Machine.globalFrame)
    (x'.2.machine.vars Machine.globalFrame)
  outcome : x.1.InParts (.parted x.2.nextId x.2.machine.distances x'.2.machine.distances)
    x.2.machine.frames shown x'.1

section

variable {s s' s₁ : Session} {bound : NodeId} {D D' : Distances} {shown : Prop} {fr : Array Frame}
  {f : FrameId} {x x' : EStateM.Result Stop Machine Value}

/-- Two runs in lockstep. -/
theorem sameDone_close (hle : bound ≤ s.nextId)
    (h : Agree (.parted bound D D') fr f
      (fun fr v v' => shown → v.Alike (.parted bound D D') fr v') x x') :
    SameDone shown (s.close x) (s'.close x') := by
  have hcarry : ∀ fr, Carries (.parted bound D D') (.parted s.nextId D D') fr fr :=
    carries_parted hle (fun _ _ => rfl) fun _ _ => rfl
  -- the machines in the end have the distances of the beginning, so the likeness is the same
  have hend : ∀ {m m' : Machine} {o o' : Outcome}, m.Alike (.parted bound D D') m' →
      o.InParts (.parted s.nextId D D') m.frames shown o' →
      SameDone shown (o, { s with machine := m }) (o', { s' with machine := m' }) := by
    intro m m' o o' hm ho
    have hm' := hm.carry (hcarry m.frames) hm.fits rfl fun h => h.elim
    obtain rfl : m.distances = D := hm.left
    obtain rfl : m'.distances = D' := hm.right
    refine ⟨hm.sink, hm', ?_, ho⟩
    obtain ⟨vars, hvars⟩ := hm'.globals
    have hframe := hm'.frames.getElem? Machine.globalFrame
    rw [hvars] at hframe
    unfold Machine.vars
    dsimp only at hvars hframe ⊢
    rw [hvars]
    generalize m'.frames[Machine.globalFrame]? = o at hframe
    cases hframe with
    | some h => exact h.vars
  cases h with
  | ok hm _ _ hv => exact hend hm (.value fun hs => (hv hs).carry (hcarry _))
  | @error stop stop' m m' hm _ _ hstop =>
    cases stop with
    | raised e =>
      obtain ⟨index, rfl⟩ := hstop.reindexed
      exact hend hm (.failed e index)
    | outOfFuel =>
      cases hstop
      exact hend hm .unfinished

/-- The first run may have started from another value. -/
theorem agree_last {R : Likeness} {x₀ : EStateM.Result Stop Machine Value}
    (h : Agree R fr f (fun fr v v' => v.Alike R fr v') x x')
    (hlast : SameEnd (fun v w => shown → v = w) x₀ x) :
    Agree R fr f (fun fr v v' => shown → v.Alike R fr v') x₀ x' := by
  cases hlast with
  | error e m =>
    cases h with
    | error hm hg hf he => exact .error hm hg hf he
  | ok m hv =>
    cases h with
    | ok hm hg hf hpost => exact .ok hm hg hf fun hs => hv hs ▸ hpost

theorem Parts.sameDone {programs : List Program} (hsound : s.Sound programs)
    (hfits : ∀ f ∈ s.machine.hosts, f.IgnoresIndex) {a b : String}
    {own q r r' : Program} {j : NodeId} {line : Nat} (hp : s.Parts s₁ a b own q r r' j line)
    {name : String} (hload : s.load name (a ++ "\n" ++ b) = (.ok (q ++ r), s₁)) (fuel : Nat)
    (na nb : String) : SameDone (∃ e t, .expression e t ∈ r) (s₁.execute fuel (q ++ r))
      (s.runBoth fuel na a nb b) := by
  obtain ⟨hF, hmachine, -⟩ := load_accepts hload
  obtain ⟨t, hfirst, rfl, htline⟩ := hp.loadFirst na
  obtain ⟨hE, htmachine, htready⟩ := load_accepts hfirst
  have htsound := hsound.load na a
  rw [hfirst] at htsound
  have hnumbered := (hp.joined true .top).2
  have hq := (hp.first true .top).2
  have hr := (hp.second true .top).2
  generalize s₁.machine.distances = F at hF hmachine
  generalize hfound : t.machine.distances = E at hE htmachine
  -- both start on alike machines
  have hkeptF : ∀ id : NodeId, id < s.nextId → F[id]? = s.machine.distances[id]? := fun id hid => by
    rw [← show (resolve s.machine.distances (q ++ r)).2 = F by rw [hF]]
    exact resolve_of_outside hnumbered fun h => absurd h.1 (Nat.not_le.2 hid)
  have hkeptE : ∀ id : NodeId, id < s.nextId → E[id]? = s.machine.distances[id]? := fun id hid => by
    rw [← show (resolve s.machine.distances q).2 = E by rw [hE]]
    exact resolve_of_outside hq fun h => absurd h.1 (Nat.not_le.2 hid)
  have hstart : s₁.machine.Alike (.parted t.nextId F E) t.machine := by
    rw [hmachine, htmachine]
    exact hsound.machine.carry (hsound.carries_parted hq.le hkeptF hkeptE _) hfits rfl fun h => h.elim
  have hat : (Likeness.parted t.nextId F E).At s₁.machine.frames s₁.machine.frame .top := by
    rw [hmachine]
    exact fun _ => hsound.aligned
  have hagree := Sims.runProgram (sims_run (.parted t.nextId F E) fuel) hat
    Surroundings.not_inFunction_top (first_alike hp.first hnumbered hsound.fresh hF hE) .undefined
    hstart (.refl _) rfl
  have hrunFirst : s.run fuel na a =
      t.close (runProgram (Evaluation.run fuel) q .undefined t.machine) := by
    rw [Session.run, hfirst]
    rfl
  rw [execute_eq, runProgram_append, runBoth, hrunFirst]
  change SameDone _ (s₁.close (EStateM.bind (runProgram (Evaluation.run fuel) q .undefined)
    (runProgram (Evaluation.run fuel) r) s₁.machine)) _
  unfold EStateM.bind
  generalize runProgram (Evaluation.run fuel) q .undefined s₁.machine = x,
    runProgram (Evaluation.run fuel) q .undefined t.machine = x' at hagree
  cases hagree with
  | @error stop stop' m m' hm hg hf hstop =>
    have hdone : SameDone (∃ e t, .expression e t ∈ r)
        (s₁.close (.error stop m)) (t.close (.error stop' m')) :=
      sameDone_close hr.le (.error hm hg hf hstop)
    cases stop' <;> exact hdone
  | @ok v v' m m' hm hg hf hpost =>
    -- the second part is loaded on the machine that the first one leaves
    obtain ⟨t', E', hsecond, -, hE', hnew, hold⟩ :=
      hp.loadSecond { t with machine := m' } nb rfl htready htline
    obtain ⟨-, htmachine', -⟩ := load_accepts hsecond
    generalize t'.machine.distances = G at hnew hold htmachine'
    obtain rfl : m.distances = F := hm.left
    obtain rfl : m'.distances = E := hm.right
    have hstart' : m.Alike (.parted s₁.nextId m.distances G) t'.machine := by
      rw [htmachine']
      exact hm.carry (carries_parted hr.le (fun _ _ => rfl) hold _) hm.fits rfl fun h => h.elim
    have hfresh' : ∀ id : NodeId, t.nextId ≤ id → m'.distances[id]? = none := fun id hid => by
      rw [← hfound]
      exact htsound.fresh id hid
    have hout : ¬(stmtsAfter true .top q).InFunction := by
      unfold Surroundings.InFunction
      rw [(stmtsAfter_extends true .top q).regions]
      exact Surroundings.not_inFunction_top
    have hsim := (Sims.runProgram (sims_run (.parted s₁.nextId m.distances G) fuel) (hf ▸ hpost.2)
      hout (second_alike hp.second hnumbered hsound.fresh hF hfresh' hE' hnew) .undefined).weaken
        fun _ _ _ _ h => h.1
    have hrunSecond : Session.run { t with machine := m' } fuel nb b =
        t'.close (runProgram (Evaluation.run fuel) r' .undefined t'.machine) := by
      rw [Session.run, hsecond]
      rfl
    change SameDone _ (s₁.close (runProgram (Evaluation.run fuel) r v m))
      (Session.run { t with machine := m' } fuel nb b)
    rw [hrunSecond]
    exact sameDone_close (Nat.le_refl _) (agree_last (hsim hstart' (.refl _) rfl)
      (runProgram_last _ r v .undefined m))

/-- What is asked of fewer runs holds of them. -/
theorem SameDone.weaken {shown' : Prop} {y y' : Outcome × Session} (h : SameDone shown y y')
    (hshown : shown' → shown) : SameDone shown' y y' := by
  obtain ⟨output, machine, globals, outcome⟩ := h
  refine ⟨output, machine, globals, ?_⟩
  obtain ⟨o, t⟩ := y
  obtain ⟨o', t'⟩ := y'
  dsimp only at outcome ⊢
  cases outcome with
  | value hv => exact .value fun hs => hv (hshown hs)
  | failed e index => exact .failed e index
  | unfinished => exact .unfinished

end

/-- **Sources can be run one by one.**  Let two sources be programs by themselves, the first one
without an empty statement and without a line feed at its end, and let a session accept the source
that joins them by a line feed.  Then running the joined source comes to the same as running the
first source and, if it succeeds, the second one, to any depth: the same is printed, the globals are
the same, and so is the error, if there is one.  The value in the end is the same if the second source
has an expression statement at its top level.

Joining gives the tokens of the second source other indices, and nothing else; so the functions of the
host must not look at these. -/
theorem parts_run_as_joined (prelude : Bool) (input : List UInt8) (limit : Option Nat)
    (clock : Clock) (history : List Action) {s : Session}
    (hs : s = (start prelude input limit clock).after history)
    (hhosts : ∀ f ∈ s.machine.hosts, f.IgnoresIndex) {a b : String} {own own' : Program}
    (ha : ReadAlone a own) (hb : ReadAlone b own')
    (hempty : ∀ r ∈ own.places, r.node ≠ .stmt .empty) (hlast : a.toList.getLast? ≠ some '\n')
    {name : String} {p : Program} {s₁ : Session}
    (hload : s.load name (a ++ "\n" ++ b) = (.ok p, s₁)) (fuel : Nat) (na nb : String) :
    SameDone (∃ e t, .expression e t ∈ own') (s.run fuel name (a ++ "\n" ++ b))
      (s.runBoth fuel na a nb b) := by
  subst hs
  have hsound := sound_after prelude input limit clock history
  have hfronted := Fronted.after (fun _ => fronted_start prelude input limit clock) history
  obtain ⟨q, r, r', j, line, rfl, hparts⟩ := load_parts
    ((laid_start prelude input limit clock).after history) hfronted ha hb hempty hlast hload
  rw [Session.run, hload]
  exact (hparts.sameDone hsound hhosts hload fuel na nb).weaken hparts.alone.expression

/-- The statements of `let x=true`. -/
def declaresX : Program :=
  [.variable (.make .name "x" 1 5 1 none) .let_ none
    (some (.expression (.literal .trueLit (.bool true)) (.make .assign "=" 1 6 2 none)))]

/-- The statements of `x`. -/
def showsX : Program :=
  [.expression (.name 0 (.make .name "x" 1 1 0 none)) (.make .name "x" 1 1 0 none)]

set_option maxRecDepth 100000 in
theorem declaresX_alone : ReadAlone "let x=true" declaresX := ⟨_, _, by cbv, by cbv⟩

set_option maxRecDepth 100000 in
theorem showsX_alone : ReadAlone "x" showsX := ⟨_, _, by cbv, by cbv⟩

set_option maxRecDepth 100000 in
theorem declaresX_showsX_spelled : ∃ tokens p nextId,
    tokenizeFrom 1 "let x=true\nx" = .ok tokens ∧ parseFrom 0 tokens = .ok (p, nextId) ∧
      (resolve {} p).1 = .ok () :=
  ⟨_, _, _, by cbv, by cbv, rfl⟩

/-- A declaration and, in the next source, the variable that it declares. -/
theorem declaration_and_reading_in_turn : ∃ p s₁,
    (hosted false).load "main" ("let x=true" ++ "\n" ++ "x") = (.ok p, s₁) ∧
    (∀ f ∈ (hosted false).machine.hosts, f.IgnoresIndex) ∧
    ReadAlone "let x=true" declaresX ∧ ReadAlone "x" showsX ∧
    (∀ r ∈ Program.places declaresX, r.node ≠ .stmt .empty) ∧
    "let x=true".toList.getLast? ≠ some '\n' ∧
    ∀ fuel, SameDone (∃ e t, .expression e t ∈ showsX)
      ((hosted false).run fuel "main" ("let x=true" ++ "\n" ++ "x"))
      ((hosted false).runBoth fuel "first" "let x=true" "second" "x") := by
  obtain ⟨tokens, p, nextId, htokens, hparse, hres⟩ := declaresX_showsX_spelled
  have hjoined : tokenizeFrom (hosted false).sources.nextLine ("let x=true" ++ "\n" ++ "x") =
      .ok tokens := htokens
  obtain ⟨s₁, hload, -⟩ := load_of_ready rfl "main" hjoined hparse (Prod.ext hres rfl)
  have hhosts : ∀ f ∈ (hosted false).machine.hosts, f.IgnoresIndex := by
    simp [hosts_hosted, HostFunction.shout, HostFunction.double, HostFunction.plain_respects]
  have hempty : ∀ r ∈ Program.places declaresX, r.node ≠ .stmt .empty := by
    simp [declaresX, Program.places, stmtsPlaces, Stmt.places, Expr.places, optionPlaces,
      LiteralValue.places]
  have hlast : "let x=true".toList.getLast? ≠ some '\n' := by decide
  exact ⟨p, s₁, hload, hhosts, declaresX_alone, showsX_alone, hempty, hlast, fun fuel =>
    parts_run_as_joined false [] none (.still 0) hostStart rfl hhosts declaresX_alone showsX_alone
      hempty hlast hload fuel "first" "second"⟩

end Session

end ScopedScript
