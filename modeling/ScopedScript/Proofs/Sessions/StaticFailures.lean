import Mathlib
import ScopedScript.Proofs.Sessions.Layout

/-! # Runs that fail before anything runs

A run that ends with an error of the scanner, the parser or the analysis changes what no program can
see: the layout of the lines, the number of the next node, and distances of nodes that nobody keeps.
So a session in which it took place and one in which it did not run side by side from then on.

* `Likeness.moving` compares the trees: the tokens behind the failed source are on lines further
  down, the nodes have other numbers, and corresponding nodes have the same distances.
* `Session.Beside` compares the machines, and `Session.Shifted` the layouts.  An action keeps
  both and comes to the same in both sessions (`Session.Beside.perform`); hence so does every row
  of actions (`Session.Beside.trace`).
* A session is beside itself, as long as its lines are in front of the failed source
  (`Session.Settled`); it is beside what the failed run leaves (`Session.Settled.failed`).

The functions of the host must not look at the place of a call (`HostFunction.IgnoresPlace`): they
would see that the lines are others. -/

namespace ScopedScript

open Grammar

/-! ### Trees on other lines -/

theorem matches_moved (first k : Nat) : Matches fun t t' => t' = t.moved first k where
  same := by
    rintro t _ rfl
    exact ⟨rfl, rfl, rfl⟩
  derived := by
    rintro t _ kind lexeme - rfl
    rfl

/-- The function does not see that tokens have moved. -/
abbrev HostFunction.MissesMoves (first k : Nat) (f : HostFunction) : Prop :=
  f.Respects (fun t t' => t' = t.moved first k) fun t t' => t' = t.moved first k

theorem HostFunction.IgnoresPlace.missesMoves {f : HostFunction} (hf : f.IgnoresPlace)
    (first k : Nat) : f.MissesMoves first k := by
  refine hf.respects ?_
  rintro t _ rfl
  refine ⟨(t.moved first k).line, t.index, rfl, fun u hline hindex => ?_⟩
  simp only [Token.moved, hline, ← hindex]

/-- Tokens that move by no line stay. -/
theorem HostFunction.missesMoves_zero (f : HostFunction) (first : Nat) : f.MissesMoves first 0 := by
  have hstay : ∀ t : Token, t.moved first 0 = t := fun t => by
    simp [Token.moved, moveLine]
  exact respects_of_eq (fun ht => ht.trans (hstay _)) fun t => (hstay t).symm

/-- Trees with their tokens on other lines and other numbers for their nodes.  The numbers in use
are below `n` and `n'`, and corresponding nodes have the same distances. -/
def Likeness.moving (first k : Nat) (n n' : NodeId) (D D' : Distances) : Likeness where
  token t t' := t' = t.moved first k
  name t t' := t' = t.moved first k
  annotation _ _ := True
  function _ _ := True
  node _ m m' := ∀ id t, m.reference? = some (id, t) → id < n ∧
    ∃ id' t', m'.reference? = some (id', t') ∧ id' < n' ∧ D'[id']? = D[id]?
  reported t t' := t' = t.moved first k
  tracked := False
  left := D
  right := D'
  renamed _ := id
  watched := False
  same := by
    rintro t _ rfl
    exact ⟨rfl, rfl⟩
  unnamed := id
  home {_ m m' id id' t t' fr f} hn hr hr' _ := by
    obtain ⟨_, _, _, hr'', _, hD⟩ := hn id t hr
    obtain ⟨rfl, rfl⟩ := Prod.mk.inj (Option.some.inj (hr'.symm.trans hr''))
    unfold homeFrom
    rw [hD]
  found _ _ h _ _ _ _ := by
    rw [h]
    rfl
  declared _ _ _ h _ _ := by
    rw [h]
    rfl
  params _ h := h.imp fun _ _ hp => hp.name_eq trivial (by rw [hp.left]; rfl)
  injective _ := Function.injective_id
  globals := id_eq
  receiver _ := id_eq _
  returns _ h := h.elim
  spares _ h := h.elim

namespace Session

/-- Sessions side by side: alike machines, and the numbers of the second run ahead by `shift`. -/
structure Beside (first k shift : Nat) (s s' : Session) : Prop where
  machine : s.machine.Alike (.moving first k s.nextId s'.nextId s.machine.distances
    s'.machine.distances) s'.machine
  nextId : s'.nextId = s.nextId + shift
  fresh : ∀ id : NodeId, s.nextId ≤ id → s.machine.distances[id]? = none
  fresh' : ∀ id : NodeId, s'.nextId ≤ id → s'.machine.distances[id]? = none

/-- Other numbers in use and other distances, as long as the numbers in use keep theirs. -/
theorem carries_moving {first k : Nat} {n n' j j' : NodeId} {D D' E E' : Distances}
    (hj : n ≤ j) (hj' : n' ≤ j') (hE : ∀ id : NodeId, id < n → E[id]? = D[id]?)
    (hE' : ∀ id : NodeId, id < n' → E'[id]? = D'[id]?) (fr : Array Frame) :
    Carries (.moving first k n n' D D') (.moving first k j j' E E') fr fr where
  trees :=
    { token := id
      name := id
      annotation := id
      function := fun _ _ => trivial
      node := by
        rintro ctx _ m m' rfl - - hn id t hr
        obtain ⟨hid, id', t', hr', hid', hD⟩ := hn id t hr
        refine ⟨Nat.lt_of_lt_of_le hid hj, id', t', hr', Nat.lt_of_lt_of_le hid' hj', ?_⟩
        rw [hE id hid, hE' id' hid', hD]
      push := fun _ h => h ▸ rfl
      declare := fun _ _ h => h ▸ rfl }
  aligned := fun _ h => h.elim
  held := fun _ h => h.elim

section

variable {first k shift : Nat} {s s' : Session}

/-- The same outcome in two sessions, which are those that the runs leave behind: alike values, or
the same error on the line it has moved to. -/
inductive Ran (first k : Nat) (s s' : Session) : Outcome → Outcome → Prop
  | value {v v' : Value} : v.Alike (.moving first k s.nextId s'.nextId s.machine.distances
      s'.machine.distances) s.machine.frames v' → Ran first k s s' (.value v) (.value v')
  | failed (e : Error) : Ran first k s s' (.failed e) (.failed (e.moved first k))
  | unfinished : Ran first k s s' .unfinished .unfinished

/-- What loading the same source in both sessions comes to.  `E` relates the errors. -/
inductive Loads (E : Error → Error → Prop) (first k shift : Nat) :
    Except Outcome Program × Session → Except Outcome Program × Session → Prop
  | failed {e e' : Error} {s s' : Session} : E e e' → s.Beside first k shift s' →
      Loads E first k shift (.error (.failed e), s) (.error (.failed e'), s')
  | unfinished {s s' : Session} : s.Beside first k shift s' →
      Loads E first k shift (.error .unfinished, s) (.error .unfinished, s')
  | accepted {p p' : Program} {s s' : Session} : s.Beside first k shift s' →
      stmtsAlike (Likeness.moving first k s.nextId s'.nextId s.machine.distances
        s'.machine.distances).toTreeLikeness true .top p p' →
      Loads E first k shift (.ok p, s) (.ok p', s')

theorem Loads.isOk {E : Error → Error → Prop} {r r' : Except Outcome Program × Session}
    (h : Loads E first k shift r r') : r'.1.isOk = r.1.isOk := by
  cases h <;> rfl

namespace Beside

/-- Only the machines and the next numbers matter. -/
theorem congr (h : s.Beside first k shift s') {r r' : Session} (hm : r.machine = s.machine)
    (hid : r.nextId = s.nextId) (hm' : r'.machine = s'.machine) (hid' : r'.nextId = s'.nextId) :
    r.Beside first k shift r' := by
  obtain ⟨machine, nextId, fresh, fresh'⟩ := h
  refine ⟨?_, ?_, ?_, ?_⟩
  · rwa [hm, hm', hid, hid']
  · rw [hid, hid', nextId]
  · rwa [hid, hm]
  · rwa [hid', hm']

/-- The sessions after an analysis. -/
theorem analysed (h : s.Beside first k shift s') {r r' : Session} (hr : r.machine = s.machine)
    (hr' : r'.machine = s'.machine) {ts ts' : List Token} {p p' : Program} {j : NodeId}
    {E E' : Distances}
    (hp : parseFrom s.nextId ts = .ok (p, j)) (hp' : parseFrom s'.nextId ts' = .ok (p', j + shift))
    (hE : (resolve s.machine.distances p).2 = E) (hE' : (resolve s'.machine.distances p').2 = E') :
    (r.analysed j E).Beside first k shift (r'.analysed (j + shift) E') := by
  have hout {i j : NodeId} {D : Distances} {ts : List Token} {p : Program}
      (hp : parseFrom i ts = .ok (p, j)) {id : NodeId} (hid : id < i ∨ j ≤ id) :
      (resolve D p).2[id]? = D[id]? :=
    resolve_of_outside (parseFrom_numbered hp true .top).2 fun h =>
      hid.elim (fun hlt => absurd h.1 (Nat.not_le.2 hlt)) fun hle => absurd h.2 (Nat.not_lt.2 hle)
  have hle := (parseFrom_numbered hp true .top).2.le
  have hle' := (parseFrom_numbered hp' true .top).2.le
  subst hE hE'
  unfold Session.analysed
  rw [hr, hr']
  refine ⟨?_, rfl, fun id hid => ?_, fun id hid => ?_⟩
  · exact h.machine.carry (carries_moving hle hle' (fun id hid => hout hp (.inl hid))
      (fun id hid => hout hp' (.inl hid)) _) h.machine.fits rfl fun h => h.elim
  · exact (hout hp (.inr hid)).trans (h.fresh id (Nat.le_trans hle hid))
  · exact (hout hp' (.inr hid)).trans (h.fresh' id (Nat.le_trans hle' hid))

/-- A program that both sessions accept. -/
theorem program_alike {p p' : Program} {i j : NodeId} {E E' : Distances}
    (hmade : stmtsMade (fun t t' => t' = t.moved first k) shift i j p p')
    (hE : ∀ x : NodeId, i ≤ x → E'[x + shift]? = E[x]?) :
    stmtsAlike (Likeness.moving first k j (j + shift) E E').toTreeLikeness true .top p p' := by
  obtain ⟨halike, hnum⟩ := hmade true .top
  have hsharp : Sharpens (shifting (fun t t' => t' = t.moved first k) shift)
      (Likeness.moving first k j (j + shift) E E').toTreeLikeness (· = ·)
      (· ∈ p.places) (fun _ => True) :=
    { token := id
      name := id
      annotation := fun _ => trivial
      function := fun _ _ => trivial
      node := by
        intro ctx _ m m' _ hplace _ hn id t hr
        obtain ⟨-, t', hr', -⟩ := hn.1 id t hr
        have hid : Place.id? ⟨ctx, m⟩ = some id := by rw [Place.id?, hr]; rfl
        obtain ⟨hlow, hhigh⟩ := hnum.within _ hplace id hid
        exact ⟨hhigh, id + shift, t', hr', Nat.add_lt_add_right hhigh shift, hE id hlow⟩
      push := fun _ h => h ▸ rfl
      declare := fun _ _ h => h ▸ rfl }
  exact stmtsAlike_refine hsharp rfl p halike (fun _ hq => hq) fun _ _ => trivial

/-- Loading the same source in both sessions. -/
theorem load (h : s.Beside first k shift s') (mark : Token → Token → Prop)
    {E : Error → Error → Prop} (name source : String)
    (hparse : ∀ fault t t', Viewed (fun t t' => t' = t.moved first k) mark t t' →
      E (.parse ⟨fault, t⟩) (.parse ⟨fault, t'⟩))
    (hscope : ∀ e : ScopeError, E (.scope e) (.scope { e with token := e.token.moved first k }))
    (hscan : (∃ e e', (s.scanSource name source).1 = .error e ∧
        (s'.scanSource name source).1 = .error e' ∧ E (.scan e) (.scan e')) ∨
      ∃ ts ts', (s.scanSource name source).1 = .ok ts ∧ (s'.scanSource name source).1 = .ok ts' ∧
        List.Forall₂ (Viewed (fun t t' => t' = t.moved first k) mark) ts ts') :
    Loads E first k shift (s.load name source) (s'.load name source) := by
  obtain ⟨hmachine, hid, _⟩ := scanSource_machine s name source
  obtain ⟨hmachine', hid', _⟩ := scanSource_machine s' name source
  generalize hr : s.scanSource name source = r, hr' : s'.scanSource name source = r'
    at hmachine hid hmachine' hid' hscan
  obtain ⟨tokens, r⟩ := r
  obtain ⟨tokens', r'⟩ := r'
  have hbeside : r.Beside first k shift r' := h.congr hmachine hid hmachine' hid'
  obtain ⟨e, e', rfl, rfl, hE⟩ | ⟨ts, ts', rfl, rfl, hts⟩ := hscan
  · rw [load_of_scan_error hr, load_of_scan_error hr']
    exact .failed hE hbeside
  have hparsed := parseFrom_alike (matches_moved first k) s.nextId shift hts
  rw [← h.nextId] at hparsed
  generalize hp : parseFrom s.nextId ts = q, hp' : parseFrom s'.nextId ts' = q' at hparsed
  cases hparsed with
  | failed he =>
    cases he with
    | rejected fault ht =>
      rw [load_of_rejected hr hp, load_of_rejected hr' hp']
      exact .failed (hparse fault _ _ ht) hbeside
    | outOfRange | outOfFuel =>
      rw [load_of_unfinished hr hp (by rintro e ⟨⟩), load_of_unfinished hr' hp' (by rintro e ⟨⟩)]
      exact .unfinished hbeside
  | @read p p' j hmade =>
    have hD : ∀ x : NodeId, s.nextId ≤ x →
        s'.machine.distances[x + shift]? = s.machine.distances[x]? := fun x hx => by
      rw [h.fresh x hx, h.fresh' (x + shift) (by rw [h.nextId]; exact Nat.add_le_add_right hx _)]
    have hres := resolve_alike (fun ht => by rw [ht]; rfl) hmade hD
    generalize hq : resolve s.machine.distances p = q,
      hq' : resolve s'.machine.distances p' = q' at hres
    have hanalysed := h.analysed hmachine hmachine' hp hp' rfl rfl
    rw [hq, hq'] at hanalysed
    cases hres with
    | ok hE =>
      rw [load_of_accepted hr hp hq, load_of_accepted hr' hp' hq']
      refine .accepted (hanalysed.congr rfl rfl rfl rfl) ?_
      exact program_alike hmade hE
    | @failed _ e' D' he =>
      obtain ⟨e, D, rfl, hfault, htoken, _⟩ := he trivial
      rw [load_of_scope_error hr hp hq, load_of_scope_error hr' hp' hq']
      obtain rfl : e' = { e with token := e.token.moved first k } := by
        obtain ⟨fault', token'⟩ := e'
        obtain rfl : fault' = e.fault := hfault
        obtain rfl : token' = e.token.moved first k := htoken
        rfl
      exact .failed (hscope e) hanalysed

/-- Running alike programs. -/
theorem execute (h : s.Beside first k shift s') (fuel : Nat) {p p' : Program}
    (hp : stmtsAlike (Likeness.moving first k s.nextId s'.nextId s.machine.distances
      s'.machine.distances).toTreeLikeness true .top p p') :
    (s.execute fuel p).2.Beside first k shift (s'.execute fuel p').2 ∧
      Ran first k (s.execute fuel p).2 (s'.execute fuel p').2 (s.execute fuel p).1
        (s'.execute fuel p').1 := by
  have hsim := Evaluation.Sims.runProgram
    (Evaluation.sims_run (.moving first k s.nextId s'.nextId s.machine.distances
      s'.machine.distances) fuel)
    (fun h => h.elim) Surroundings.not_inFunction_top hp .undefined h.machine (.refl _) rfl
  unfold Session.execute
  generalize Evaluation.runProgram (Evaluation.run fuel) p .undefined s.machine = r,
    Evaluation.runProgram (Evaluation.run fuel) p' .undefined s'.machine = r' at hsim
  -- the machines in the end have the distances of the beginning, so the likeness is the same
  have hend : ∀ m m' : Machine, m.Alike (.moving first k s.nextId s'.nextId s.machine.distances
      s'.machine.distances) m' →
      Beside first k shift { s with machine := m } { s' with machine := m' } := by
    intro m m' hm
    have hleft : m.distances = s.machine.distances := hm.left
    have hright : m'.distances = s'.machine.distances := hm.right
    refine ⟨?_, h.nextId, ?_, ?_⟩
    · rwa [← hleft, ← hright] at hm
    · rw [hleft]; exact h.fresh
    · rw [hright]; exact h.fresh'
  cases hsim with
  | @ok v v' m m' hm _ _ hv =>
    have hleft : m.distances = s.machine.distances := hm.left
    have hright : m'.distances = s'.machine.distances := hm.right
    refine ⟨hend m m' hm, .value ?_⟩
    rw [hleft, hright]
    exact hv.1
  | @error stop stop' m m' hm _ _ hstop =>
    cases hstop with
    | raised fault ht =>
      obtain rfl := ht
      exact ⟨hend m m' hm, .failed (.runtime _)⟩
    | named fault ht =>
      obtain rfl := ht
      exact ⟨hend m m' hm, .failed (.runtime _)⟩
    | reported message ht =>
      obtain rfl := ht
      exact ⟨hend m m' hm, .failed (.runtime _)⟩
    | outOfFuel => exact ⟨hend m m' hm, .unfinished⟩

/-- Running the same source in both sessions, once it has been loaded. -/
theorem run {E : Error → Error → Prop} {name source : String} (fuel : Nat)
    (h : Loads E first k shift (s.load name source) (s'.load name source)) :
    (s.run fuel name source).2.Beside first k shift (s'.run fuel name source).2 ∧
      ((∀ e e', E e e' → e' = e.moved first k) →
        Ran first k (s.run fuel name source).2 (s'.run fuel name source).2
          (s.run fuel name source).1 (s'.run fuel name source).1) := by
  unfold Session.run
  generalize s.load name source = r, s'.load name source = r' at h
  cases h with
  | failed he hs =>
    refine ⟨hs, fun hE => ?_⟩
    obtain rfl := hE _ _ he
    exact .failed _
  | unfinished hs => exact ⟨hs, fun _ => .unfinished⟩
  | accepted hs hp =>
    obtain ⟨hs₁, hran⟩ := hs.execute fuel hp
    exact ⟨hs₁, fun _ => hran⟩

theorem defineNative (h : s.Beside first k shift s') (name : String) (arity : Nat)
    {f : HostFunction} (hf : f.MissesMoves first k) (held : Datum) :
    (s.defineNative name arity f held).Beside first k shift (s'.defineNative name arity f held) := by
  have hm := h.machine.defineHost name arity hf held
  have hleft : (s.defineNative name arity f held).machine.distances = s.machine.distances := hm.left
  have hright : (s'.defineNative name arity f held).machine.distances = s'.machine.distances :=
    hm.right
  refine ⟨?_, h.nextId, hleft ▸ h.fresh, hright ▸ h.fresh'⟩
  rwa [hleft, hright]

theorem takeOutput (h : s.Beside first k shift s') :
    s.takeOutput.2.Beside first k shift s'.takeOutput.2 := by
  refine ⟨?_, h.nextId, h.fresh, h.fresh'⟩
  have hsink := h.machine.sink
  unfold Session.takeOutput
  rw [hsink]
  exact h.machine.withSink _

end Beside

end

/-! ### What a run does to the layout -/

section

variable {s : Session} {name source : String} {first k shift : Nat}

/-- After the scan the layout stays as it is. -/
theorem load_layout (s : Session) (name source : String) :
    (s.load name source).2.sources = (s.scanSource name source).2.sources ∧
      (s.load name source).2.preludeTokens = (s.scanSource name source).2.preludeTokens ∧
      (s.load name source).2.preludePending =
        ((s.scanSource name source).2.preludePending && !(s.load name source).1.isOk) := by
  have hload := load_loaded s name source
  generalize s.load name source = r at hload
  cases hload with
  | scan h | parse h | unfinished h | scope h | accepted h =>
    rw [h]
    simp [analysed, Except.isOk, Except.toBool]

theorem execute_layout (s : Session) (fuel : Nat) (p : Program) :
    (s.execute fuel p).2.sources = s.sources ∧
      (s.execute fuel p).2.preludeTokens = s.preludeTokens ∧
      (s.execute fuel p).2.preludePending = s.preludePending := by
  unfold execute
  split <;> exact ⟨rfl, rfl, rfl⟩

theorem run_layout (s : Session) (fuel : Nat) (name source : String) :
    (s.run fuel name source).2.sources = (s.scanSource name source).2.sources ∧
      (s.run fuel name source).2.preludeTokens = (s.scanSource name source).2.preludeTokens ∧
      (s.run fuel name source).2.preludePending =
        ((s.scanSource name source).2.preludePending && !(s.load name source).1.isOk) := by
  rw [← (load_layout s name source).1, ← (load_layout s name source).2.1,
    ← (load_layout s name source).2.2, run]
  generalize s.load name source = r
  obtain ⟨r, s₁⟩ := r
  cases r with
  | error o => exact ⟨rfl, rfl, rfl⟩
  | ok p => exact execute_layout s₁ fuel p

/-- The tokens of the prelude stand on lines that have been laid out. -/
def Laid (s : Session) : Prop :=
  ∀ ts, s.preludeTokens = some ts → ∀ t ∈ ts, t.kind ≠ .endMark ∧ t.line < s.sources.nextLine

/-- A source that can be scanned can be laid out first. -/
theorem layFirst_ok (h : s.Laid) (name : String) {text : String}
    (hscan : ∃ tokens, tokenizeFrom s.sources.nextLine text = .ok tokens) :
    ∃ leading s₁, s.layFirst name text = (.ok leading, s₁) ∧ s₁.Laid ∧
      s.sources.nextLine ≤ s₁.sources.nextLine ∧
      (∀ t ∈ leading, t.kind ≠ .endMark ∧ t.line < s₁.sources.nextLine) ∧
      s₁.preludeTokens = some leading := by
  cases htokens : s.preludeTokens with
  | some ts =>
    refine ⟨ts, s, ?_, h, Nat.le_refl _, h ts htokens, htokens⟩
    rw [layFirst, htokens]
  | none =>
    obtain ⟨tokens, hscan⟩ := hscan
    obtain ⟨inner, mark, rfl, _, _, hinner⟩ := tokenizeFrom_ok hscan
    have hlines : ∀ t ∈ inner, t.kind ≠ .endMark ∧ t.line < (s.sources.add name text).2.nextLine :=
      fun t ht => ⟨(hinner t ht).1, (hinner t ht).2.2⟩
    refine ⟨inner, { s with
      sources := (s.sources.add name text).2
      preludeTokens := some inner }, ?_, ?_, Nat.le_add_right _ _, hlines, rfl⟩
    · rw [layFirst, htokens]
      simp only [SourceMap.add]
      rw [hscan]
      dsimp only
      rw [List.dropLast_concat]
    · rintro ts hts
      obtain rfl := Option.some.inj hts
      exact hlines

/-- The prelude can always be put in front of a source. -/
theorem leadingTokens_ok (h : s.Laid) :
    ∃ leading s₁, s.leadingTokens = (.ok leading, s₁) ∧ s₁.Laid ∧
      s.sources.nextLine ≤ s₁.sources.nextLine ∧
      (∀ t ∈ leading, t.kind ≠ .endMark ∧ t.line < s₁.sources.nextLine) ∧
      (s.preludePending = true → s₁.preludeTokens = some leading) ∧
      (s.preludePending = false → s₁ = s) := by
  cases hpending : s.preludePending with
  | false =>
    refine ⟨[], s, ?_, h, Nat.le_refl _, by simp, by simp, fun _ => rfl⟩
    rw [leadingTokens, hpending]
    rfl
  | true =>
    obtain ⟨leading, s₁, hlay, hlaid, hle, hlines, hsome⟩ :=
      layFirst_ok h Prelude.name (tokenizeFrom_prelude s.sources.nextLine)
    refine ⟨leading, s₁, ?_, hlaid, hle, hlines, fun _ => hsome, by simp⟩
    rw [leadingTokens, if_pos hpending, layPrelude, hlay]

/-- Scanning a source: its tokens stand on lines that have been laid out. -/
theorem Laid.scanSource (h : s.Laid) (name source : String) :
    (s.scanSource name source).2.Laid ∧
      s.sources.nextLine ≤ (s.scanSource name source).2.sources.nextLine ∧
      ∀ ts, (s.scanSource name source).1 = .ok ts → ∀ t ∈ ts, t.kind = .endMark ∨
        t.line < (s.scanSource name source).2.sources.nextLine := by
  obtain ⟨leading, s₁, hlead, hlaid, hle, hleading, _, _⟩ := leadingTokens_ok h
  have hgrow : s₁.sources.nextLine ≤ (s₁.sources.add name source).2.nextLine := Nat.le_add_right _ _
  refine ⟨?_, ?_, fun ts hts t ht => ?_⟩
  · rw [scanSource_of_leading hlead]
    intro ts hts t ht
    obtain ⟨hkind, hline⟩ := hlaid ts hts t ht
    exact ⟨hkind, Nat.lt_of_lt_of_le hline hgrow⟩
  · rw [scanSource_of_leading hlead]
    exact Nat.le_trans hle hgrow
  · obtain ⟨leading', s₂, own, hlead', hown, rfl⟩ := scanSource_ok hts
    obtain ⟨hsame, rfl⟩ := Prod.mk.inj (hlead'.symm.trans hlead)
    obtain rfl := Except.ok.inj hsame
    rw [scanSource_of_leading hlead]
    obtain ⟨inner, mark, rfl, hmark, _, hinner⟩ := tokenizeFrom_ok hown
    rcases List.mem_append.1 ht with ht | ht
    · exact .inr (Nat.lt_of_lt_of_le (hleading t ht).2 hgrow)
    · obtain ⟨u, hu, rfl⟩ := List.mem_map.1 ht
      rcases List.mem_append.1 hu with hu | hu
      · exact .inr (hinner u hu).2.2
      · obtain rfl := List.mem_singleton.1 hu
        exact .inl hmark

end

/-! ### Histories -/

section

variable {s : Session} {first k : Nat}

/-- A session by itself, as long as its lines are in front of the line `first`. -/
structure Settled (first k : Nat) (s : Session) : Prop where
  beside : s.Beside first k 0 s
  laid : s.Laid

theorem forall₂_viewed {ts : List Token} (h : ∀ t ∈ ts, t.kind = .endMark ∨ t.line < first) :
    List.Forall₂ (Viewed (fun t t' => t' = t.moved first k) Eq) ts ts :=
  List.forall₂_same.2 fun t ht => (h t ht).elim (fun hmark => .inr ⟨hmark, hmark, rfl⟩)
    fun hline => .inl (Token.moved_of_lt hline).symm

theorem perform_nextLine (h : s.Laid) (a : Action) :
    s.sources.nextLine ≤ (s.perform a).sources.nextLine := by
  cases a with
  | run fuel name source =>
    rw [perform, (run_layout s fuel name source).1]
    exact (h.scanSource name source).2.1
  | _ => exact Nat.le_refl _

theorem Laid.perform (h : s.Laid) (a : Action) : (s.perform a).Laid := by
  cases a with
  | run fuel name source =>
    obtain ⟨hsources, htokens, _⟩ := run_layout s fuel name source
    unfold Laid
    rw [Session.perform, hsources, htokens]
    exact (h.scanSource name source).1
  | _ => exact h

/-- One action. -/
theorem Settled.perform (h : s.Settled first k) {a : Action}
    (ha : ∀ f ∈ a.hosts, f.MissesMoves first k) (hfirst : (s.perform a).sources.nextLine ≤ first) :
    (s.perform a).Settled first k := by
  refine ⟨?_, h.laid.perform a⟩
  cases a with
  | run fuel name source =>
    rw [Session.perform, (run_layout s fuel name source).1] at hfirst
    obtain ⟨_, _, hlines⟩ := h.laid.scanSource name source
    refine (Beside.run fuel (h.beside.load Eq (E := fun _ _ => True) name source
      (fun _ _ _ _ => trivial) (fun _ => trivial) ?_)).1
    cases hscan : (s.scanSource name source).1 with
    | error e => exact .inl ⟨e, e, rfl, rfl, trivial⟩
    | ok ts =>
      refine .inr ⟨ts, ts, rfl, rfl, forall₂_viewed fun t ht => ?_⟩
      exact (hlines ts hscan t ht).imp_right fun hline => Nat.lt_of_lt_of_le hline hfirst
  | native name arity f held =>
    exact h.beside.defineNative name arity (ha f (List.mem_singleton_self f)) held
  | takeOutput => exact h.beside.takeOutput

theorem after_nextLine (h : s.Laid) (history : List Action) :
    s.sources.nextLine ≤ (s.after history).sources.nextLine := by
  induction history generalizing s with
  | nil => exact Nat.le_refl _
  | cons a history ih => exact Nat.le_trans (perform_nextLine h a) (ih (h.perform a))

/-- Any number of actions. -/
theorem Settled.after (h : s.Settled first k) {history : List Action}
    (hhosts : ∀ a ∈ history, ∀ f ∈ a.hosts, f.MissesMoves first k)
    (hfirst : (s.after history).sources.nextLine ≤ first) :
    (s.after history).Settled first k := by
  induction history generalizing s with
  | nil => exact h
  | cons a history ih =>
    obtain ⟨ha, hhosts⟩ := List.forall_mem_cons.1 hhosts
    refine ih (h.perform ha ?_) hhosts hfirst
    exact Nat.le_trans (after_nextLine (h.laid.perform a) history) hfirst

theorem Laid.after (h : s.Laid) (history : List Action) : (s.after history).Laid := by
  induction history generalizing s with
  | nil => exact h
  | cons a history ih => exact ih (h.perform a)

theorem laid_start (prelude : Bool) (input : List UInt8) (limit : Option Nat) (clock : Clock) :
    (Session.start prelude input limit clock).Laid := by
  intro ts hts
  cases hts

/-- A new session. -/
theorem settled_start (prelude : Bool) (input : List UInt8) (limit : Option Nat) (clock : Clock)
    (first k : Nat) : (Session.start prelude input limit clock).Settled first k where
  beside :=
    { machine :=
        Machine.initial_alike rfl rfl input limit clock
      nextId := rfl
      fresh := fun _ _ => Std.HashMap.getElem?_empty
      fresh' := fun _ _ => Std.HashMap.getElem?_empty }
  laid := laid_start prelude input limit clock

end

/-! ### The source more -/

section

variable {s s' : Session} {first k shift : Nat}

theorem Level.congr (h : Level first k s s') {r r' : Session} (hs : r.sources = s.sources)
    (hs' : r'.sources = s'.sources) (ht : r.preludeTokens = s.preludeTokens)
    (ht' : r'.preludeTokens = s'.preludeTokens)
    (hp : r.preludePending = true → s.preludePending = true)
    (hp' : r'.preludePending = r.preludePending) : Level first k r r' := by
  refine ⟨by rw [hs, hs']; exact h.sources, hp', by rw [ht, ht', h.tokens], fun hpending => ?_⟩
  rw [ht]
  exact h.laid (hp hpending)

theorem layFirst_withMachine (s : Session) (m : Machine) (name source : String) :
    Session.layFirst { s with machine := m } name source =
      ((s.layFirst name source).1, { (s.layFirst name source).2 with machine := m }) := by
  obtain ⟨machine, sources, pending, tokens, nextId⟩ := s
  unfold layFirst
  cases tokens with
  | some tokens => rfl
  | none =>
    dsimp only
    cases tokenizeFrom (sources.add name source).1 source <;> rfl

/-- Only the layouts matter. -/
theorem Shifted.withMachine (h : Shifted first k s s') (m m' : Machine) :
    Shifted first k { s with machine := m } { s' with machine := m' } := by
  cases h with
  | level h => exact .level ⟨h.sources, h.pending, h.tokens, h.laid⟩
  | @ahead s₁ leading hpending hlay h =>
    have hlay' : layPrelude { s with machine := m } = (.ok leading, { s₁ with machine := m }) := by
      rw [layPrelude] at hlay ⊢
      rw [layFirst_withMachine, hlay]
    exact .ahead hpending hlay' ⟨h.sources, h.pending, h.tokens, h.laid⟩

/-- An error is reported as the error on the line that it has moved to. -/
theorem Level.report (h : Level first k s s') (hlater : s.sources.nextLine ≠ first) (e : Error) :
    s'.report (e.moved first k) = s.report e := by
  unfold Session.report
  rw [Error.moved_line, Error.moved_column, Error.moved_message, h.sources.locate hlater]

/-- What a run or another action comes to in the two sessions that it leaves behind. -/
structure SameStep (first k : Nat) (x x' : Option Outcome × Session) : Prop where
  output : x'.2.machine.sink = x.2.machine.sink
  input : x'.2.machine.input = x.2.machine.input
  machine : x.2.machine.Alike (.moving first k x.2.nextId x'.2.nextId x.2.machine.distances
    x'.2.machine.distances) x'.2.machine
  outcome : Option.Rel (Ran first k x.2 x'.2) x.1 x'.1
  report : ∀ e, x.1 = some (.failed e) → x'.2.report (e.moved first k) = x.2.report e

/-- What an action comes to, if it is a run. -/
def outcome? (s : Session) : Action → Option Outcome
  | .run fuel name source => some (s.run fuel name source).1
  | _ => none

/-- What actions come to one after another, with the sessions that they leave behind. -/
def trace (s : Session) : List Action → List (Option Outcome × Session)
  | [] => []
  | a :: history => (s.outcome? a, s.perform a) :: (s.perform a).trace history

/-- An action that is no run. -/
theorem Beside.sameStep (h : s.Beside first k shift s') (hshift : Shifted first k s s') :
    s.Beside first k shift s' ∧ Shifted first k s s' ∧ SameStep first k (none, s) (none, s') :=
  ⟨h, hshift, h.machine.sink, h.machine.input, h.machine, .none, by simp⟩

/-- One action in both sessions. -/
theorem Beside.perform (h : s.Beside first k shift s') (hshift : Shifted first k s s') {a : Action}
    (ha : ∀ f ∈ a.hosts, f.MissesMoves first k) :
    (s.perform a).Beside first k shift (s'.perform a) ∧
      Shifted first k (s.perform a) (s'.perform a) ∧
      SameStep first k (s.outcome? a, s.perform a) (s'.outcome? a, s'.perform a) := by
  cases a with
  | run fuel name source =>
    obtain ⟨hscan, hlevel, hlater⟩ := hshift.scanSource name source
    have hloads : Loads (fun e e' => e' = e.moved first k) first k shift (s.load name source)
        (s'.load name source) := by
      refine h.load (fun t t' => t' = t.moved first k) name source ?_ (fun _ => rfl) ?_
      · rintro fault t t' (rfl | ⟨_, _, rfl⟩) <;> rfl
      · cases hr : (s.scanSource name source).1 with
        | error e =>
          rw [hr] at hscan
          exact .inl ⟨e, _, rfl, hscan, rfl⟩
        | ok ts =>
          rw [hr] at hscan
          exact .inr ⟨ts, _, rfl, hscan, List.forall₂_map_right_iff.2
            (List.forall₂_same.2 fun _ _ => .inl rfl)⟩
    obtain ⟨hbeside, hran⟩ := Beside.run fuel hloads
    obtain ⟨hsources, htokens, hpending⟩ := run_layout s fuel name source
    obtain ⟨hsources', htokens', hpending'⟩ := run_layout s' fuel name source
    have hlevel₁ : Level first k (s.run fuel name source).2 (s'.run fuel name source).2 := by
      refine hlevel.congr hsources hsources' htokens htokens' (fun h => ?_) ?_
      · rw [hpending] at h
        exact (Bool.and_eq_true_iff.1 h).1
      · rw [hpending, hpending', hlevel.pending, hloads.isOk]
    refine ⟨hbeside, .level hlevel₁, hbeside.machine.sink, hbeside.machine.input, hbeside.machine,
      .some (hran fun _ _ he => he), fun e _ => hlevel₁.report ?_ e⟩
    rw [hsources]
    exact hlater
  | native name arity f held =>
    exact (h.defineNative name arity (ha f (List.mem_singleton_self f)) held).sameStep
      (hshift.withMachine _ _)
  | takeOutput =>
    exact h.takeOutput.sameStep (hshift.withMachine _ _)

/-- Any number of actions in both sessions. -/
theorem Beside.trace (h : s.Beside first k shift s') (hshift : Shifted first k s s')
    {more : List Action} (hhosts : ∀ a ∈ more, ∀ f ∈ a.hosts, f.MissesMoves first k) :
    List.Forall₂ (SameStep first k) (s.trace more) (s'.trace more) := by
  induction more generalizing s s' with
  | nil => exact .nil
  | cons a more ih =>
    obtain ⟨ha, hhosts⟩ := List.forall_mem_cons.1 hhosts
    obtain ⟨hbeside, hshift₁, hstep⟩ := h.perform hshift ha
    exact .cons hstep (ih hbeside hshift₁ hhosts)

end

/-! ### A run that fails before anything runs -/

section

variable {s : Session} {fuel : Nat} {name source : String} {e : Error}

/-- Such a run does not get beyond loading. -/
theorem run_static (hrun : (s.run fuel name source).1 = .failed e) (he : e.isStatic = true) :
    s.load name source = (.error (.failed e), (s.run fuel name source).2) := by
  unfold run at hrun ⊢
  generalize s.load name source = r at hrun ⊢
  obtain ⟨r, s₁⟩ := r
  cases r with
  | error o =>
    obtain rfl : o = .failed e := hrun
    rfl
  | ok p =>
    dsimp only at hrun
    unfold execute at hrun
    split at hrun <;> cases hrun
    cases he

/-- What it leaves is beside what it was given. -/
theorem Settled.failed {first k : Nat} (h : s.Settled first k) {s₁ : Session}
    (hload : s.load name source = (.error (.failed e), s₁)) :
    s₁.machine = { s.machine with distances := s₁.machine.distances } ∧
      ∃ shift, s.Beside first k shift s₁ := by
  obtain ⟨hmachine, hid, _⟩ := scanSource_machine s name source
  have hloaded := load_loaded s name source
  rw [hload] at hloaded
  cases hloaded with
  | scan hscan | parse hscan _ =>
    rw [hscan] at hmachine hid
    dsimp only at hmachine hid
    exact ⟨by rw [hmachine], 0, h.beside.congr rfl rfl hmachine hid⟩
  | @scope tokens s₁ program nextId e distances hscan hparse hres =>
    rw [hscan] at hmachine
    dsimp only at hmachine
    obtain ⟨-, hnum⟩ := parseFrom_numbered hparse true .top
    have hle : s.nextId ≤ nextId := hnum.le
    have hout : ∀ id : NodeId, id < s.nextId ∨ nextId ≤ id →
        distances[id]? = s.machine.distances[id]? := fun id hid => by
      rw [← show (resolve s.machine.distances program).2 = distances from congrArg Prod.snd hres]
      exact resolve_of_outside hnum fun hin => hid.elim
        (fun hlt => absurd hin.1 (Nat.not_le.2 hlt)) fun hge => absurd hin.2 (Nat.not_lt.2 hge)
    unfold Session.analysed
    rw [hmachine]
    refine ⟨rfl, nextId - s.nextId, ?_, (Nat.add_sub_of_le hle).symm, h.beside.fresh, ?_⟩
    · exact h.beside.machine.carry (carries_moving (Nat.le_refl _) hle (fun _ _ => rfl)
        (fun id hid => hout id (.inl hid)) _) h.beside.machine.fits rfl fun h => h.elim
    · exact fun id hid => (hout id (.inr hid)).trans (h.beside.fresh id (Nat.le_trans hle hid))

/-- The line that the next source starts on. -/
def nextSourceLine (s : Session) : Nat := s.leadingTokens.2.sources.nextLine

/-- The tokens of a source that can be scanned, when it is known what goes in front of it. -/
theorem scanned_of_leading {leading tokens : List Token} {s₁ s₂ : Session}
    (hlead : s.leadingTokens = (.ok leading, s₁))
    (h : s.scanSource name source = (.ok tokens, s₂)) :
    ∃ own, tokenizeFrom s.nextSourceLine source = .ok own ∧
      tokens = leading ++ own.map (Token.shift leading.length) := by
  obtain ⟨leading', s₁', own, hlead', hown, rfl⟩ := scanSource_ok (congrArg Prod.fst h)
  obtain ⟨hsame, rfl⟩ := Prod.mk.inj (hlead.symm.trans hlead')
  obtain rfl := Except.ok.inj hsame
  exact ⟨own, by rwa [nextSourceLine, hlead], rfl⟩

/-- One source more. -/
theorem moved_add (m : SourceMap) (name source : String) :
    SourceMap.Moved m.nextLine (SourceMap.lineCount source) m (m.add name source).2 where
  nextLine := rfl
  reached := Nat.le_refl _
  segments := ⟨[], m.segments, ⟨name, m.nextLine⟩, rfl, rfl, rfl, by simp, fun _ => rfl, by simp⟩

/-- Its lines are laid out behind those of the prelude. -/
theorem Laid.failed (h : s.Laid) {s₁ : Session}
    (hload : s.load name source = (.error (.failed e), s₁)) :
    s.sources.nextLine ≤ s.nextSourceLine ∧
      Shifted s.nextSourceLine (SourceMap.lineCount source) s s₁ := by
  obtain ⟨hsources, htokens, hpending⟩ := load_layout s name source
  obtain ⟨_, _, hkeeps⟩ := scanSource_machine s name source
  obtain ⟨leading, s₂, hlead, _, hle, hlines, hsome, hnone⟩ := leadingTokens_ok h
  rw [hload, scanSource_of_leading hlead] at hsources htokens hpending
  rw [scanSource_of_leading hlead] at hkeeps
  dsimp only at hsources htokens hpending hkeeps
  have hfirst : s.nextSourceLine = s₂.sources.nextLine := by rw [nextSourceLine, hlead]
  rw [hfirst]
  refine ⟨hle, ?_⟩
  have hlevel : Level s₂.sources.nextLine (SourceMap.lineCount source) s₂ s₁ := by
    refine ⟨?_, ?_, htokens, fun hp => ⟨leading, hsome ?_, fun t ht => (hlines t ht).2⟩⟩
    · rw [hsources]
      exact moved_add s₂.sources name source
    · rw [hpending]
      exact Bool.and_true _
    · exact hkeeps.symm.trans hp
  cases hp : s.preludePending with
  | false => exact .level (hnone hp ▸ hlevel)
  | true =>
    rw [leadingTokens, if_pos hp] at hlead
    exact .ahead hp hlead hlevel

end

/-- A run that fails with an error of the scanner, the parser or the analysis cannot be seen.  It
leaves the machine as it was, except for distances of nodes that nobody keeps, and whatever is
done afterwards comes to the same as without it, step by step.  Only the lines after that source are
further down, by the number of its lines.  The functions of the host do not look at the line or the
index of a token. -/
theorem static_failure_invisible (prelude : Bool) (input : List UInt8) (limit : Option Nat)
    (clock : Clock) {history : List Action}
    (hhistory : ∀ a ∈ history, ∀ f ∈ a.hosts, f.IgnoresPlace) {s : Session}
    (hs : s = (start prelude input limit clock).after history) {fuel : Nat} {name source : String}
    {e : Error} (hrun : (s.run fuel name source).1 = .failed e) (he : e.isStatic = true) :
    (s.run fuel name source).2.machine =
        { s.machine with distances := (s.run fuel name source).2.machine.distances } ∧
      ∀ more : List Action, (∀ a ∈ more, ∀ f ∈ a.hosts, f.IgnoresPlace) →
        List.Forall₂ (SameStep s.nextSourceLine (SourceMap.lineCount source)) (s.trace more)
          ((s.run fuel name source).2.trace more) := by
  have hload := run_static hrun he
  have hlaid : s.Laid := hs ▸ (laid_start prelude input limit clock).after history
  obtain ⟨hle, hshift⟩ := hlaid.failed hload
  have hsettled : s.Settled s.nextSourceLine (SourceMap.lineCount source) := by
    have := (settled_start prelude input limit clock s.nextSourceLine
      (SourceMap.lineCount source)).after
        (fun a ha f hf => (hhistory a ha f hf).missesMoves _ _) (hs ▸ hle)
    rwa [← hs] at this
  obtain ⟨hmachine, shift, hbeside⟩ := hsettled.failed hload
  exact ⟨hmachine, fun more hmore => hbeside.trace hshift fun a ha f hf =>
    (hmore a ha f hf).missesMoves _ _⟩

/-- A source that cannot be scanned, in a session with functions of the host, which has still to run
the prelude. -/
theorem scan_failure_invisible : ∃ e,
    ((hosted true).run 0 "main" "@").1 = .failed e ∧ e.isStatic = true ∧
    ∀ more : List Action, (∀ a ∈ more, ∀ f ∈ a.hosts, f.IgnoresPlace) →
      List.Forall₂ (SameStep (hosted true).nextSourceLine 1) ((hosted true).trace more)
        (((hosted true).run 0 "main" "@").2.trace more) := by
  have hlaid : (hosted true).Laid := (laid_start true [] none (.still 0)).after _
  obtain ⟨leading, s₁, hlead, -⟩ := leadingTokens_ok hlaid
  obtain ⟨e, hscan⟩ : ∃ e, tokenizeFrom (0 + s₁.sources.nextLine) "@" = .error e := by
    obtain ⟨e, he⟩ : ∃ e, tokenizeFrom 0 "@" = .error e := ⟨_, by cbv⟩
    rw [tokenizeFrom_down, he]
    exact ⟨_, rfl⟩
  rw [Nat.zero_add] at hscan
  have hsource : (hosted true).scanSource "main" "@" = _ := scanSource_of_leading hlead
  rw [hscan] at hsource
  have hrun : ((hosted true).run 0 "main" "@").1 = .failed (.scan e) := by
    rw [run, load_of_scan_error hsource]
  have hhosts : ∀ a ∈ hostStart, ∀ f ∈ a.hosts, f.IgnoresPlace :=
    forall_hosts_hostStart HostFunction.plain_ignoresPlace
  exact ⟨_, hrun, rfl, (static_failure_invisible true [] none (.still 0) hhosts rfl hrun rfl).2⟩

end Session

end ScopedScript
