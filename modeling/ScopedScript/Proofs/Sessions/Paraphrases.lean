import ScopedScript.Proofs.Paraphrases.Groupings
import ScopedScript.Proofs.Paraphrases.Scope
import ScopedScript.Proofs.Sessions.StaticFailures

/-! # Running programs that say the same

In a session, sources whose programs say the same come to the same: both are refused for the same
fault, or both run, and then what one of them finishes with some bound, so does the other, with
matching values or the same fault at the same word (`Session.run_paraphrase`).  The machines that
they leave match, so the output is the same too, and so is what later programs can see.

Of what is on the machine before, trees are compared with themselves.  Their nodes have kept their
distances, and the nodes of the two programs have the distances of their places; so corresponding
nodes find their variables at the same distance (`SameDistance`). -/

namespace ScopedScript

/-! ### What is alike -/

/-- What is alike says the same, under the same names. -/
structure Likeness.Says (R : Likeness) (link : NodeId → NodeId → Prop) : Prop where
  trees : R.toTreeLikeness.Says link
  renamed : ∀ (region : Region) (x : String), R.renamed region x = x

namespace Likeness.Says

variable {R : Likeness} {link : NodeId → NodeId → Prop} {fr : Array Frame}

theorem cls (h : R.Says link) {c c' : Class} (hc : c.Alike R fr c') : c.Matches link c' :=
  have ⟨_, _, hd⟩ := hc.declaration
  ⟨hc.identity, hc.frame, ClassDecl.Alike.paraphrases h.trees _ hd⟩

theorem instance_ (h : R.Says link) {i i' : Instance} (hi : i.Alike R fr i') :
    i.Matches link i' :=
  ⟨h.cls hi.cls, hi.fields⟩

theorem value (h : R.Says link) {v v' : Value} (hv : v.Alike R fr v') : v.Matches link v' := by
  induction hv with
  | num x => exact .num x
  | str s => exact .str s
  | bool b => exact .bool b
  | null => exact .null
  | undefined => exact .undefined
  | list ref => exact .list ref
  | object ref => exact .object ref
  | function hc =>
    obtain ⟨_, _, hd⟩ := hc.declaration
    exact .function ⟨hc.identity, hc.frame, hc.anonymous, FunctionDecl.Alike.paraphrases h.trees _ hd⟩
  | method hb =>
    obtain ⟨_, _, hd⟩ := hb.declaration
    exact .method ⟨hb.identity, hb.frame, h.instance_ hb.receiver,
      FunctionDecl.Alike.paraphrases h.trees _ hd⟩
  | native hplain => exact .native hplain
  | host _ ih => exact .host ih
  | cls hc => exact .cls (h.cls hc)
  | «instance» hi => exact .instance (h.instance_ hi)

theorem record (h : R.Says link) {renamed : String → String} (hnames : ∀ x, renamed x = x)
    {r r' : Record Value} (hr : Record.Alike R fr renamed r r') : Record.Matches link r r' :=
  List.Forall₂.imp (fun _ _ hp => ⟨hp.1.trans (hnames _), h.value hp.2⟩) hr

/-- Alike machines match, with tables that have the same distances for linked nodes, if the functions
of the host see of a token at most the word. -/
theorem machine (h : R.Says link) {m m' : Machine} (hm : m.Alike R m')
    (hfits : ∀ f ∈ m.hosts, f.ReadsWord) {E E' : Distances}
    (hlink : ∀ {id id' : NodeId}, link id id' → E'[id']? = E[id]?) :
    Machine.Matches link { m with distances := E } { m' with distances := E' } where
  frames := hm.frames.imp fun _ _ hf => ⟨hf.parent, h.record (h.renamed _) hf.vars⟩
  heap := ⟨hm.heap.lists.imp fun _ _ hxs => hxs.imp fun _ _ hv => h.value hv,
    hm.heap.records.imp fun _ _ hr => h.record (fun _ => rfl) hr⟩
  nextIdentity := hm.nextIdentity
  linked := hlink
  frame := hm.frame
  depth := hm.depth
  sink := hm.sink
  input := hm.input
  clock := hm.clock
  ticks := hm.ticks
  hosts := hm.hosts
  fits := hfits

end Likeness.Says

namespace Session

open Evaluation

variable {link : NodeId → NodeId → Prop} {s s' : Session}

/-! ### Outcomes -/

/-- What two runs come to: matching values, or the same fault at the same word, with matching
machines. -/
inductive EndsAlike (link : NodeId → NodeId → Prop) : Outcome × Session → Outcome × Session → Prop
  | value {v v' : Value} {s s' : Session} : v.Matches link v' → s.machine.Matches link s'.machine →
      EndsAlike link (.value v, s) (.value v', s')
  | raised (fault : RuntimeFault) {t t' : Token} {s s' : Session} : t.SameWord t' →
      s.machine.Matches link s'.machine →
      EndsAlike link (.failed (.runtime ⟨fault, t⟩), s) (.failed (.runtime ⟨fault, t'⟩), s')
  | refused (fault : ScopeFault) {t t' : Token} {s s' : Session} : t.SameWord t' →
      s.machine.Matches link s'.machine →
      EndsAlike link (.failed (.scope ⟨fault, t⟩), s) (.failed (.scope ⟨fault, t'⟩), s')

/-- Whichever of two runs finishes with some bound, the other finishes with some bound, and they
come to the same. -/
structure FinishAlike (link : NodeId → NodeId → Prop) (r r' : Nat → Outcome × Session) : Prop where
  second : ∀ fuel, (r fuel).1 ≠ .unfinished → ∃ fuel', EndsAlike link (r fuel) (r' fuel')
  first : ∀ fuel', (r' fuel').1 ≠ .unfinished → ∃ fuel, EndsAlike link (r fuel) (r' fuel')

/-- A run that has finished has come to an end. -/
theorem ended_of_execute {fuel : Nat} {p : Program} (h : (s.execute fuel p).1 ≠ .unfinished) :
    Ended (runProgram (Evaluation.run fuel) p .undefined s.machine) := by
  intro m hcut
  unfold execute at h
  rw [hcut] at h
  exact h rfl

theorem endsAlike_of_agreed {fuel fuel' : Nat} {p p' : Program}
    (hended : Ended (runProgram (Evaluation.run fuel) p .undefined s.machine))
    (h : Agreed link (Value.Matches link)
      (runProgram (Evaluation.run fuel) p .undefined s.machine)
      (runProgram (Evaluation.run fuel') p' .undefined s'.machine)) :
    EndsAlike link (s.execute fuel p) (s'.execute fuel' p') := by
  unfold execute
  generalize runProgram (Evaluation.run fuel) p .undefined s.machine = r,
    runProgram (Evaluation.run fuel') p' .undefined s'.machine = r' at hended h
  cases h with
  | ok hm hv => exact .value hv hm
  | error hm he =>
    cases he with
    | raised fault ht => exact .raised fault ht hm
    | outOfFuel => exact absurd rfl (hended _)

/-- Programs that say the same, on machines that match. -/
theorem execute_paraphrase {p p' : Program} (hp : stmtsParaphrase link p p')
    (hm : s.machine.Matches link s'.machine) :
    FinishAlike link (fun fuel => s.execute fuel p) fun fuel => s'.execute fuel p' := by
  have h := runProgram_paraphrase hp .undefined hm
  refine ⟨fun fuel hfinished => ?_, fun fuel' hfinished => ?_⟩
  · have hended := ended_of_execute hfinished
    obtain ⟨fuel', hagreed⟩ := h.second fuel hended
    exact ⟨fuel', endsAlike_of_agreed hended hagreed⟩
  · have hended := ended_of_execute hfinished
    obtain ⟨fuel, hagreed⟩ := h.first fuel' hended
    exact ⟨fuel, endsAlike_of_agreed ((ended_iff_of_agreed hagreed).1 hended) hagreed⟩

/-! ### A session by itself -/

/-- The machine of a session matches itself, with two tables that have the distances that there
were. -/
theorem Settled.matches {first k : Nat} (h : s.Settled first k)
    (hfits : ∀ f ∈ s.machine.hosts, f.ReadsWord) {E E' : Distances}
    (hE : ∀ id : NodeId, id < s.nextId → E[id]? = s.machine.distances[id]?)
    (hE' : ∀ id : NodeId, id < s.nextId → E'[id]? = s.machine.distances[id]?) :
    Machine.Matches (SameDistance E E') { s.machine with distances := E }
      { s.machine with distances := E' } := by
  have hsays : Likeness.Says (.moving first k s.nextId s.nextId s.machine.distances
      s.machine.distances) (SameDistance E E') :=
    { trees :=
        { token := by
            rintro t _ rfl
            exact ⟨rfl, rfl⟩
          name := by
            rintro t _ rfl
            exact ⟨rfl, rfl⟩
          node := by
            intro ctx n n' id id' t t' hn hr hr'
            obtain ⟨hid, _, _, hr'', hid', hD⟩ := hn id t hr
            obtain ⟨rfl, rfl⟩ := Prod.mk.inj (Option.some.inj (hr'.symm.trans hr''))
            rw [SameDistance, hE' id' hid', hD, hE id hid]
          spelled := trivial }
      renamed := fun _ _ => rfl }
  exact hsays.machine h.beside.machine hfits id

/-- A program that has been analysed has the distances of its places. -/
theorem places_foundIn (hfresh : ∀ id : NodeId, s.nextId ≤ id → s.machine.distances[id]? = none)
    {tokens : List Token} {p : Program} {j : NodeId} {E : Distances}
    (hparse : parseFrom s.nextId tokens = .ok (p, j))
    (hres : resolve s.machine.distances p = (.ok (), E)) : ∀ q ∈ p.places, q.FoundIn E :=
  fun _ hq _ hid => resolve_distance (parseFrom_numbered hparse true .top).2 hfresh hres hq hid

section

variable {tokens tokens' : List Token} {p p' : Program} {j j' : NodeId}

/-- Nodes that were there before keep their distances. -/
theorem distances_kept {E : Distances} {r : Except ScopeError Unit}
    (hparse : parseFrom s.nextId tokens = .ok (p, j))
    (hres : resolve s.machine.distances p = (r, E)) {id : NodeId} (hid : id < s.nextId) :
    E[id]? = s.machine.distances[id]? := by
  have hE := resolve_of_outside (D := s.machine.distances)
    (parseFrom_numbered hparse true .top).2 (x := id) fun h => absurd h.1 (Nat.not_le.2 hid)
  rwa [hres] at hE

/-- Sources whose programs say the same come to the same, if the functions of the host see of a token
at most the word. -/
theorem Settled.run_paraphrase {first k : Nat} (h : s.Settled first k)
    (hfits : ∀ f ∈ s.machine.hosts, f.ReadsWord)
    {name source name' source' : String} {s₁ s₁' : Session}
    (hscan : s.scanSource name source = (.ok tokens, s₁))
    (hscan' : s.scanSource name' source' = (.ok tokens', s₁'))
    (hparse : parseFrom s.nextId tokens = .ok (p, j))
    (hparse' : parseFrom s.nextId tokens' = .ok (p', j'))
    (hp : stmtsParaphrase (fun _ _ => True) p p') :
    FinishAlike
      (SameDistance (resolve s.machine.distances p).2 (resolve s.machine.distances p').2)
      (fun fuel => s.run fuel name source) fun fuel => s.run fuel name' source' := by
  have hverdict := resolve_paraphrase hp s.machine.distances s.machine.distances
  obtain ⟨hmachine, -, -⟩ := scanSource_machine s name source
  obtain ⟨hmachine', -, -⟩ := scanSource_machine s name' source'
  rw [hscan] at hmachine
  rw [hscan'] at hmachine'
  generalize hres : resolve s.machine.distances p = r, hres' : resolve s.machine.distances p' = r'
    at hverdict ⊢
  obtain ⟨r, E⟩ := r
  obtain ⟨r', E'⟩ := r'
  have hmatches := h.matches hfits (fun id hid => distances_kept hparse hres hid)
    fun id hid => distances_kept hparse' hres' hid
  cases hverdict with
  | refused fault ht =>
    have hends (fuel fuel' : Nat) : EndsAlike (SameDistance E E') (s.run fuel name source)
        (s.run fuel' name' source') := by
      rw [Session.run, load_of_scope_error hscan hparse hres, Session.run,
        load_of_scope_error hscan' hparse' hres']
      refine .refused fault ht ?_
      unfold Session.analysed
      rw [hmachine, hmachine']
      exact hmatches
    exact ⟨fun fuel _ => ⟨0, hends fuel 0⟩, fun fuel' _ => ⟨0, hends 0 fuel'⟩⟩
  | accepted =>
    have hnodes := stmtsParaphrase_sharpen true (rfl : Surroundings.SameNames .top .top) p hp
      (places_foundIn h.beside.fresh hparse hres) (places_foundIn h.beside.fresh hparse' hres')
    simp only [Session.run, load_of_accepted hscan hparse hres,
      load_of_accepted hscan' hparse' hres']
    refine execute_paraphrase hnodes ?_
    unfold Session.analysed
    rw [hmachine, hmachine']
    exact hmatches

end

end Session

end ScopedScript
