import ScopedScript.Proofs.Parsing.Words
import ScopedScript.Proofs.Prelude
import ScopedScript.Proofs.Sessions.Joining

/-! # Where tokens come from

Every token that a session holds on to, in a tree or in an error, has been scanned from a text of
its layout: a source that was run, or the prelude.

* `Diagonal Q` relates a token with the property `Q` to itself, so the comparison of two readings,
  two analyses and two runs says where the tokens of one reading, analysis and run come from.
* A `LaidText` is a text with the number of its first line; `Session.texts` are those that a
  history lays out, and `SourceMap.Holds` relates them to the layout that the session keeps.
* `LaidText.Scanned` are the tokens of a text, with their places in it; `Stems` says that a token
  is one of these, or an operator that a compound assignment stands for.  What runs in a session
  stems from its texts, if the functions of the host report errors at their calls
  (`Session.Rooted`).
* An error that is found before anything runs stems from the source that has just been given, even
  where the prelude stands in front of it (`Session.Grounded.parsed`): the prelude is read and
  analysed first, without an error, whatever comes after it. -/

namespace ScopedScript

open Grammar Scope

/-! ### Tokens that have a property -/

section

variable {Q : Token → Prop}

/-- The analysis of one program, compared with itself. -/
def Scope.Walking.diagonal (Q : Token → Prop) : Walking where
  toTreeLikeness := shifting (Diagonal Q) 0
  extra := []
  distances _ _ := True
  exact := True
  named h := h
  lexeme h := by rw [h.1]
  whole := Walking.nothing_besides
  found _ _ _ _ _ := trivial

/-- If one program can be analysed and, with another one behind it, cannot, the error is in the
other. -/
theorem resolve_behind {p q : Program} {i j : NodeId} {D E F : Distances} {e : ScopeError}
    (hq : stmtsMade (Diagonal Q) 0 i j q q) (hp : resolve D p = (.ok (), E))
    (h : resolve D (p ++ q) = (.error e, F)) : Q e.token := by
  rw [resolve_eq] at hp h
  rw [walkStmts_append] at h
  change outcome (EStateM.bind (walkStmts ⟨.program, false⟩ p)
    (fun _ => walkStmts ⟨.program, false⟩ q) ⟨[[]], D⟩) = _ at h
  unfold EStateM.bind at h
  cases hwalk : walkStmts ⟨.program, false⟩ p ⟨[[]], D⟩ with
  | error e s =>
    rw [hwalk] at hp
    cases hp
  | ok u s =>
    rw [hwalk] at h
    dsimp only at h
    have hstates : (Walking.diagonal Q).States s s := ⟨.inl rfl, trivial⟩
    have hresults := (Walking.walkStmts_along (.diagonal Q) ⟨.program, false⟩ q
      (hq true .top).1).results hstates
    generalize walkStmts ⟨.program, false⟩ q s = r at hresults h
    cases hresults with
    | ok _ => cases h
    | failed he =>
      obtain ⟨e', s', hr, _, ht, _⟩ := he trivial
      rw [hr] at h
      obtain rfl := Except.error.inj (Prod.mk.inj h).1
      exact ht.2

end

/-! ### Texts -/

/-- A text in the layout of a session. -/
structure LaidText where
  name : String
  source : String
  /-- The number of its first line. -/
  first : Nat

/-- The number of the first line behind the text. -/
def LaidText.stop (text : LaidText) : Nat := text.first + SourceMap.lineCount text.source

/-- The layout is that of the texts, one after another. -/
structure SourceMap.Holds (m : SourceMap) (texts : List LaidText) : Prop where
  segments : m.segments = (texts.map fun t => ⟨t.name, t.first⟩).reverse
  apart : texts.Pairwise fun t u => t.stop ≤ u.first
  below : ∀ t ∈ texts, t.stop ≤ m.nextLine

namespace SourceMap.Holds

variable {m : SourceMap} {texts : List LaidText}

/-- Another text at the end. -/
theorem add (h : m.Holds texts) (name source : String) :
    (m.add name source).2.Holds (texts ++ [⟨name, source, m.nextLine⟩]) := by
  refine ⟨?_, ?_, fun t ht => ?_⟩
  · rw [List.map_append, List.reverse_append, ← h.segments]
    rfl
  · refine List.pairwise_append.2 ⟨h.apart, List.pairwise_singleton _ _, fun t ht u hu => ?_⟩
    rw [List.mem_singleton.1 hu]
    exact h.below t ht
  · rcases List.mem_append.1 ht with ht | ht
    · exact Nat.le_trans (h.below t ht) (Nat.le_add_right _ _)
    · rw [List.mem_singleton.1 ht]
      exact Nat.le_refl _

/-- A line of a text is located in it, as long as the texts behind it start further down. -/
theorem locate_of_lt {before after : List LaidText} {text : LaidText}
    (h : m.Holds (before ++ text :: after)) {line : Nat} (hline : text.first ≤ line)
    (hafter : ∀ t ∈ after, line < t.first) :
    m.locate line = (text.name, line - text.first + 1) := by
  have hnone : (after.map fun t => (⟨t.name, t.first⟩ : Segment)).reverse.find?
      (·.firstLine ≤ line) = none := by
    refine List.find?_eq_none.2 fun s hs => ?_
    obtain ⟨t, ht, rfl⟩ := List.mem_map.1 (List.mem_reverse.1 hs)
    have := hafter t ht
    simp only [decide_eq_true_eq]
    omega
  unfold SourceMap.locate
  rw [h.segments, List.map_append, List.map_cons, List.reverse_append, List.reverse_cons,
    List.append_assoc, List.find?_append, hnone, List.singleton_append, List.find?_cons_of_pos]
  · rfl
  · simpa using hline

/-- A line of a text is located in it. -/
theorem locate (h : m.Holds texts) {text : LaidText} (ht : text ∈ texts) {line : Nat}
    (hlow : text.first ≤ line) (hhigh : line < text.stop) :
    m.locate line = (text.name, line - text.first + 1) := by
  obtain ⟨before, after, rfl⟩ := List.append_of_mem ht
  refine h.locate_of_lt hlow fun t ht => ?_
  have hstop := (List.pairwise_cons.1 (List.pairwise_append.1 h.apart).2.1).1 t ht
  omega

end SourceMap.Holds

namespace Session

/-- The texts that an action lays out. -/
def lays (s : Session) : Action → List LaidText
  | .run _ name source =>
    (if s.preludePending && s.preludeTokens.isNone then
      [⟨Prelude.name, Prelude.source, s.sources.nextLine⟩] else []) ++
    [⟨name, source, s.nextSourceLine⟩]
  | .native _ _ _ _ | .takeOutput => []

/-- The texts that a history lays out, in order. -/
def texts (s : Session) : List Action → List LaidText
  | [] => []
  | a :: history => s.lays a ++ (s.perform a).texts history

theorem texts_append (s : Session) (history more : List Action) :
    s.texts (history ++ more) = s.texts history ++ (s.after history).texts more := by
  induction history generalizing s with
  | nil => rfl
  | cons a history ih =>
    rw [List.cons_append, texts, texts, ih, List.append_assoc]
    rfl

/-- Laying out a text in front of others. -/
theorem layFirst_sources {s : Session} {texts : List LaidText} (h : s.sources.Holds texts)
    (name text : String) :
    (s.layFirst name text).2.sources.Holds (texts ++
      if s.preludeTokens.isNone then [⟨name, text, s.sources.nextLine⟩] else []) := by
  unfold layFirst
  cases htokens : s.preludeTokens with
  | some tokens =>
    rw [if_neg (by simp), List.append_nil]
    exact h
  | none =>
    have hadd := h.add name text
    rw [Option.isNone_none, if_pos rfl]
    simp only [SourceMap.add] at hadd ⊢
    cases tokenizeFrom s.sources.nextLine text with
    | error e => exact hadd
    | ok tokens => exact hadd

/-- What stands in front of the next source. -/
theorem leadingTokens_sources {s : Session} {texts : List LaidText} (h : s.sources.Holds texts) :
    s.leadingTokens.2.sources.Holds (texts ++
      if s.preludePending && s.preludeTokens.isNone then
        [⟨Prelude.name, Prelude.source, s.sources.nextLine⟩] else []) := by
  unfold leadingTokens
  cases hpending : s.preludePending with
  | false =>
    rw [Bool.false_and, if_neg Bool.false_ne_true, if_neg Bool.false_ne_true, List.append_nil]
    exact h
  | true =>
    rw [Bool.true_and, if_pos rfl]
    exact layFirst_sources h Prelude.name Prelude.source

/-- One action. -/
theorem perform_sources {s : Session} {texts : List LaidText} (hlaid : s.Laid)
    (h : s.sources.Holds texts) (a : Action) :
    (s.perform a).sources.Holds (texts ++ s.lays a) := by
  cases a with
  | run fuel name source =>
    obtain ⟨leading, s₁, hlead, _⟩ := leadingTokens_ok hlaid
    have hfirst := leadingTokens_sources h
    rw [hlead] at hfirst
    rw [perform, (run_layout s fuel name source).1, scanSource_of_leading hlead, lays,
      ← List.append_assoc, nextSourceLine, hlead]
    exact hfirst.add name source
  | native name arity f held => rwa [lays, List.append_nil]
  | takeOutput => rwa [lays, List.append_nil]

/-- Any number of actions. -/
theorem after_sources {s : Session} {texts : List LaidText} (hlaid : s.Laid)
    (h : s.sources.Holds texts) (history : List Action) :
    (s.after history).sources.Holds (texts ++ s.texts history) := by
  induction history generalizing s texts with
  | nil => rwa [Session.texts, List.append_nil]
  | cons a history ih =>
    rw [Session.texts, ← List.append_assoc]
    exact ih (hlaid.perform a) (perform_sources hlaid h a)

end Session

/-! ### Tokens of texts -/

/-- The token of the span is one that the text is scanned into. -/
def LaidText.Scanned (text : LaidText) (span : Span) : Prop :=
  ∃ spans : List Span, tokenizeFrom text.first text.source = .ok (spans.map (·.token)) ∧
    Covers text.first text.source.toList 0 0 spans ∧ span ∈ spans

/-- The second token is the first one at its place in a longer row, or an operator that is derived
from it. -/
def Token.Becomes (u t : Token) : Prop :=
  ∃ k, t = u.shift k ∨ ∃ kind ∈ arithmetic, ∃ lexeme, t = .derived kind lexeme (u.shift k)

/-- The token stems from a token of the text, not from its end mark. -/
def LaidText.Bears (text : LaidText) (t : Token) : Prop :=
  ∃ span, text.Scanned span ∧ span.token.kind ≠ .endMark ∧ span.token.Becomes t

/-- The token is the end mark of the text. -/
def LaidText.Ends (text : LaidText) (t : Token) : Prop :=
  ∃ span, text.Scanned span ∧ span.token.kind = .endMark ∧ span.token.Becomes t

/-- The token stems from one of the texts. -/
def Stems (texts : List LaidText) (t : Token) : Prop := ∃ text ∈ texts, text.Bears t

theorem Token.Becomes.place {u t : Token} (h : u.Becomes t) :
    t.line = u.line ∧ t.column = u.column := by
  obtain ⟨k, rfl | ⟨_, _, _, rfl⟩⟩ := h <;> exact ⟨rfl, rfl⟩

theorem Token.Becomes.derived {u t : Token} (h : u.Becomes t) {kind : Token.Kind}
    (hkind : kind ∈ arithmetic) (lexeme : String) : u.Becomes (.derived kind lexeme t) := by
  obtain ⟨k, rfl | ⟨_, _, _, rfl⟩⟩ := h <;> exact ⟨k, .inr ⟨kind, hkind, lexeme, rfl⟩⟩

theorem LaidText.passedOn_bears (text : LaidText) : PassedOn text.Bears := by
  rintro t kind lexeme hkind ⟨span, hspan, hmark, ht⟩
  exact ⟨span, hspan, hmark, ht.derived hkind lexeme⟩

theorem passedOn_stems (texts : List LaidText) : PassedOn (Stems texts) := by
  rintro t kind lexeme hkind ⟨text, htext, ht⟩
  exact ⟨text, htext, text.passedOn_bears t kind lexeme hkind ht⟩

theorem Stems.append {texts : List LaidText} {t : Token} (h : Stems texts t)
    (more : List LaidText) : Stems (texts ++ more) t := by
  obtain ⟨text, htext, ht⟩ := h
  exact ⟨text, List.mem_append_left more htext, ht⟩

/-- The tokens of a text, moved up in a longer row: each stems from the text, except for the end
mark. -/
theorem LaidText.marked (text : LaidText) {tokens : List Token}
    (h : tokenizeFrom text.first text.source = .ok tokens) (k : Nat) :
    ∀ t ∈ tokens.map (Token.shift k), Marked text.Bears text.Ends t := by
  intro t ht
  obtain ⟨u, hu, rfl⟩ := List.mem_map.1 ht
  obtain ⟨spans, rfl, hcovers⟩ := spans_of_tokenizeFrom h
  obtain ⟨span, hspan, rfl⟩ := List.mem_map.1 hu
  have hscanned : text.Scanned span := ⟨spans, h, hcovers, hspan⟩
  by_cases hmark : span.token.kind = .endMark
  · exact .inr ⟨hmark, span, hscanned, hmark, k, .inl rfl⟩
  · exact .inl ⟨span, hscanned, hmark, k, .inl rfl⟩

/-! ### What runs in a session -/

/-- A program compared with itself: its tokens have a property, and so do its nodes. -/
def Likeness.diagonal (Q : Token → Prop) (P : Node → Prop) (distances : Distances) : Likeness where
  token := Diagonal Q
  name := Diagonal Q
  annotation _ _ := True
  function _ _ := True
  node _ n n' :=
    (∀ id t, n.reference? = some (id, t) → ∃ t', n'.reference? = some (id, t')) ∧ P n
  reported := Diagonal Q
  tracked := False
  left := distances
  right := distances
  renamed _ := id
  watched := False
  same h := by
    rw [h.1]
    exact ⟨rfl, rfl⟩
  unnamed := id
  home hn hr hr' _ := by
    obtain ⟨_, ht'⟩ := hn.1 _ _ hr
    obtain ⟨rfl, _⟩ := Prod.mk.inj (Option.some.inj (hr'.symm.trans ht'))
    rfl
  found _ _ h _ _ _ _ := by
    rw [h.1]
    rfl
  declared _ _ _ h _ _ := by
    rw [h.1]
    rfl
  params _ h := h.imp fun _ _ hp => hp.name_eq trivial (by rw [hp.left.1])
  injective _ := Function.injective_id
  globals := id_eq
  receiver _ := id_eq _
  returns _ h := h.elim
  spares _ h := h.elim

/-- The distances make no difference to what has the properties. -/
theorem carries_diagonal {Q : Token → Prop} {P : Node → Prop} (D D' : Distances) (fr : Array Frame) :
    Carries (.diagonal Q P D) (.diagonal Q P D') fr fr where
  trees :=
    { token := id
      name := id
      annotation := id
      function := fun _ _ => trivial
      node := fun _ _ _ hn => hn
      push := fun _ h => h ▸ rfl
      declare := fun _ _ h => h ▸ rfl }
  aligned := fun _ h => h.elim
  held := fun _ h => h.elim

/-- How a reading compared with itself is seen as a part of a run. -/
theorem sharpens_diagonal {Q Q' : Token → Prop} {P : Node → Prop} (P' : Place → Prop)
    (hQ : ∀ t, Q t → Q' t) (hP : ∀ {ctx : Surroundings} {n : Node}, P' ⟨ctx, n⟩ →
      (∀ t, n.declares? = some t → Q t) → P n) (D : Distances) :
    Sharpens (shifting (Diagonal Q) 0) (Likeness.diagonal Q' P D).toTreeLikeness (· = ·)
      (fun _ => True) P' where
  token ht := ⟨ht.1, hQ _ ht.2⟩
  name ht := ⟨ht.1, hQ _ ht.2⟩
  annotation _ := trivial
  function _ _ := trivial
  node := by
    rintro ctx _ n n' rfl - hplace ⟨hrefs, hdeclares⟩
    refine ⟨fun id t hr => ?_, hP hplace fun t ht => ?_⟩
    · obtain ⟨-, t', hr', -⟩ := hrefs id t hr
      exact ⟨t', hr'⟩
    · obtain ⟨-, t', -, -, hq⟩ := hdeclares t ht
      exact hq
  push _ h := h ▸ rfl
  declare _ _ h := h ▸ rfl

namespace Session

/-- All tokens and nodes on the machine of the session have a property. -/
def Consists (Q : Token → Prop) (P : Node → Prop) (s : Session) : Prop :=
  s.machine.Alike (.diagonal Q P s.machine.distances) s.machine

section

variable {Q Q' : Token → Prop} {P P' : Node → Prop} {texts : List LaidText} {s : Session}

/-- Other distances. -/
theorem Consists.withDistances (h : s.Consists Q P) {r : Session} {D : Distances}
    (hr : r.machine = { s.machine with distances := D }) : r.Consists Q P := by
  unfold Consists
  rw [hr]
  exact h.carry (carries_diagonal _ D _) h.fits rfl fun h => h.elim

/-- The host registers a function that bears out the property. -/
theorem Consists.defineNative (h : s.Consists Q P) (name : String) (arity : Nat) {f : HostFunction}
    (hf : f.Respects (Diagonal Q) (Diagonal Q)) (held : Datum) :
    (s.defineNative name arity f held).Consists Q P :=
  Machine.Alike.defineHost h name arity hf held

/-- A program whose tokens have one property, which gives its nodes the other. -/
theorem program_consists {p : Program} {i j : NodeId} (D : Distances) (hQ : ∀ t, Q t → Q' t)
    (hP : ∀ n : Node, (∀ t, n.declares? = some t → Q t) → P n)
    (hp : stmtsMade (Diagonal Q) 0 i j p p) :
    stmtsAlike (Likeness.diagonal Q' P D).toTreeLikeness true .top p p :=
  stmtsAlike_refine (sharpens_diagonal (fun _ => True) hQ (fun _ h => hP _ h) D) rfl p
    (hp true .top).1 (fun _ _ => trivial) fun _ _ => trivial

theorem token_of_raised {D : Distances} {stop stop' : Stop}
    (h : Stop.Alike (.diagonal Q P D) stop stop') {e : RuntimeError} (he : stop = .raised e) :
    Q e.token := by
  cases h with
  | raised fault ht | named fault ht | reported message ht =>
    obtain rfl := Stop.raised.inj he
    exact ht.2
  | outOfFuel => cases he

/-- Running a program: what is on the machine then has the properties, and so does the token of an
error. -/
theorem Consists.execute (h : s.Consists Q P) (fuel : Nat) {p : Program}
    (hp : stmtsAlike (Likeness.diagonal Q P s.machine.distances).toTreeLikeness true .top p p) :
    (s.execute fuel p).2.Consists Q P ∧
      ∀ e, (s.execute fuel p).1 = .failed e → ∃ err, e = .runtime err ∧ Q err.token := by
  have hsim := Evaluation.Sims.runProgram
    (Evaluation.sims_run (.diagonal Q P s.machine.distances) fuel)
    (fun h => h.elim) Surroundings.not_inFunction_top hp .undefined h (.refl _) rfl
  unfold Session.execute
  generalize Evaluation.runProgram (Evaluation.run fuel) p .undefined s.machine = r at hsim
  -- the machine in the end has the distances of the beginning, so the likeness is the same
  have hend : ∀ m : Machine, m.Alike (.diagonal Q P s.machine.distances) m →
      Consists Q P { s with machine := m } := by
    intro m hm
    have hleft : m.distances = s.machine.distances := hm.left
    unfold Consists
    rwa [← hleft] at hm
  cases hsim with
  | ok hm _ _ _ => exact ⟨hend _ hm, fun e he => by cases he⟩
  | @error stop _ m _ hm _ _ hstop =>
    cases stop with
    | raised err =>
      refine ⟨hend m hm, fun e he => ?_⟩
      obtain rfl := Outcome.failed.inj he
      exact ⟨err, rfl, token_of_raised hstop rfl⟩
    | outOfFuel => exact ⟨hend m hm, fun e he => by cases he⟩

theorem consists_start (prelude : Bool) (input : List UInt8) (limit : Option Nat) (clock : Clock) :
    (start prelude input limit clock).Consists Q P :=
  Machine.initial_alike rfl rfl input limit clock

/-- What is on the machine of the session stems from the texts, and will do so when there are more of
them. -/
def Rooted (texts : List LaidText) (s : Session) : Prop :=
  ∀ more, s.Consists (Stems (texts ++ more)) fun _ => True

/-- More texts and other distances. -/
theorem Rooted.widen (h : s.Rooted texts) (more : List LaidText) {r : Session}
    {D : Distances} (hr : r.machine = { s.machine with distances := D }) :
    r.Rooted (texts ++ more) := by
  intro rest
  rw [List.append_assoc]
  exact (h (more ++ rest)).withDistances hr

/-- Running a program whose tokens stem from the texts. -/
theorem Rooted.execute (h : s.Rooted texts) (fuel : Nat) {p : Program} {i j : NodeId}
    (hp : stmtsMade (Diagonal (Stems texts)) 0 i j p p) :
    (s.execute fuel p).2.Rooted texts ∧
      ∀ e, (s.execute fuel p).1 = .failed e → ∃ err, e = .runtime err ∧ Stems texts err.token := by
  have hmore (more : List LaidText) := (h more).execute fuel
    (program_consists _ (fun _ ht => ht.append more) (fun _ _ => trivial) hp)
  refine ⟨fun more => (hmore more).1, fun e he => ?_⟩
  obtain ⟨err, herr, hstems⟩ := (hmore []).2 e he
  rw [List.append_nil] at hstems
  exact ⟨err, herr, hstems⟩

end

/-! ### Reading and analysing behind the prelude -/

/-- What holds of every session that comes about. -/
structure Grounded (texts : List LaidText) (s : Session) : Prop where
  laid : s.Laid
  fronted : s.preludePending = true → s.Fronted
  sources : s.sources.Holds texts
  /-- The prelude is among the texts once it has been laid out. -/
  shown : s.preludePending = true → s.preludeTokens.isSome = true →
    ⟨Prelude.name, Prelude.source, 1⟩ ∈ texts
  sound : ∃ programs, s.Sound programs

/-- What stands in front of a source: nothing, or the prelude. -/
inductive Leads (texts : List LaidText) : List Token → Prop
  | nothing : Leads texts []
  | prelude {inner : List Token} {feed mark : Token} {program : Program} :
      SelfContained inner feed mark program → (∀ t ∈ inner ++ [feed], Stems texts t) →
      Leads texts (inner ++ [feed])

section

variable {texts : List LaidText} {s : Session}

theorem prelude_stems {inner : List Token} {feed mark : Token} {program : Program}
    (hscan : tokenizeFrom 1 Prelude.source = .ok (inner ++ [feed] ++ [mark]))
    (hself : SelfContained inner feed mark program)
    (htexts : ⟨Prelude.name, Prelude.source, 1⟩ ∈ texts) :
    ∀ t ∈ inner ++ [feed], Stems texts t := by
  intro t ht
  have hkind : t.kind ≠ .endMark := by
    rcases List.mem_append.1 ht with ht | ht
    · exact (hself.plain t ht).1
    · rw [List.mem_singleton.1 ht, hself.isFeed]
      decide
  have hmarked := LaidText.marked ⟨Prelude.name, Prelude.source, 1⟩ hscan 0 t (by
    rw [show (Token.shift 0) = id from rfl, List.map_id]
    exact List.mem_append_left _ ht)
  exact ⟨_, htexts, hmarked.resolve_right fun hmark => hkind hmark.1⟩

/-- A session that has still to run the prelude has it among its texts when it runs a source. -/
theorem Grounded.prelude_laid (h : s.Grounded texts) (hpending : s.preludePending = true)
    (fuel : Nat) (name source : String) :
    ⟨Prelude.name, Prelude.source, 1⟩ ∈ texts ++ s.lays (.run fuel name source) := by
  cases htokens : s.preludeTokens with
  | some tokens => exact List.mem_append_left _ (h.shown hpending (by rw [htokens]; rfl))
  | none =>
    have hline : s.sources.nextLine = 1 := by
      cases h.fronted hpending with
      | fresh _ hline => exact hline
      | laid hsome => simp [htokens] at hsome
    refine List.mem_append_right _ ?_
    rw [lays, hpending, htokens, hline]
    exact List.mem_cons_self

/-- What stands in front of a source. -/
theorem Grounded.leading (h : s.Grounded texts) (fuel : Nat) (name source : String) :
    ∃ leading s₁, s.leadingTokens = (.ok leading, s₁) ∧
      Leads (texts ++ s.lays (.run fuel name source)) leading := by
  cases hpending : s.preludePending with
  | false => exact ⟨[], s, by rw [leadingTokens, hpending]; rfl, .nothing⟩
  | true =>
    obtain ⟨leading, mark, s₁, hlead, hscan, _⟩ := (h.fronted hpending).leading hpending
    obtain ⟨inner, feed, program, rfl, hself⟩ := selfContained_of_leading hscan
    exact ⟨_, s₁, hlead, .prelude hself (prelude_stems hscan hself (h.prelude_laid hpending _ _ _))⟩

theorem exists_dropWhile {ts : List Token} (h : ∃ t ∈ ts, t.kind = .endMark) :
    ∃ t rest, ts.dropWhile (·.kind == .newline) = t :: rest ∧ ∀ u ∈ t :: rest, u ∈ ts := by
  obtain ⟨mark, hmem, hmark⟩ := h
  cases hdrop : ts.dropWhile (·.kind == .newline) with
  | nil =>
    have hall := List.dropWhile_eq_nil_iff.1 hdrop mark hmem
    simp [hmark] at hall
  | cons t rest =>
    refine ⟨t, rest, rfl, fun u hu => ?_⟩
    rw [← hdrop] at hu
    exact (List.dropWhile_sublist _).subset hu

/-- The token is no `if`. -/
def NoIf (t : Token) : Prop := t.kind ≠ .kwIf

theorem passedOn_noIf : PassedOn NoIf := by
  intro t kind lexeme hkind _
  have harith : ∀ kind ∈ arithmetic, kind ≠ .kwIf := by decide
  exact harith kind hkind

/-- Reading what stands behind something that leads: a fault is in what stands behind, and if there
is none, so is an error of the analysis. -/
theorem Leads.parseFrom {leading more : List Token} (h : Leads texts leading)
    {Q M : Token → Prop} (hQ : PassedOn Q) (hmore : ∀ t ∈ more, Marked Q M t)
    (hends : ∃ t ∈ more, t.kind = .endMark) (i : NodeId) :
    (∀ e, parseFrom i (leading ++ more) = .error (.rejected e) → Marked Q M e.token) ∧
      ∀ p j, parseFrom i (leading ++ more) = .ok (p, j) → ∀ D : Distances,
        (∀ id : NodeId, i ≤ id → D[id]? = none) → ∀ e E, resolve D p = (.error e, E) →
        Q e.token := by
  cases h with
  | nothing =>
    obtain ⟨hfail, hread⟩ := parseFrom_marked hQ hmore i
    refine ⟨hfail, fun p j hp D _ e E he => ?_⟩
    exact resolve_behind (p := []) (E := D) (hread p j hp) rfl he
  | @prelude inner feed mark program hself _ =>
    obtain ⟨t, rest, hdrop, hsub⟩ := exists_dropWhile hends
    obtain ⟨j₀, hread₀⟩ := hself.read
    have hrows : List.Forall₂ (Diagonal NoIf) inner inner :=
      List.forall₂_same.2 fun t ht => ⟨rfl, (hself.plain t ht).2⟩
    obtain ⟨p', d, hmade, hd, hid, hparse⟩ := parseFrom_behind (matches_diagonal passedOn_noIf) i
      hrows hself.isMark hself.isFeed (fun t ht => (hself.plain t ht).1) hdrop
      (fun _ u _ hu => hu.2) hread₀ (filled_of_places hself.filled)
    obtain ⟨hfail, hread⟩ := programRow_marked (M := M) hQ (d := d) (by rw [hd]; simp)
      (fun u hu => hmore u (hsub u (hd ▸ hu))) (depthBound (inner ++ feed :: more).length)
    rw [List.append_assoc, List.singleton_append]
    rw [Nat.zero_add] at hparse
    rw [hparse]
    generalize programRow (depthBound (inner ++ feed :: more).length) d = r at hfail hread
    cases r with
    | error failure =>
      refine ⟨fun e he => hfail e ?_, fun p j hp => (by cases hp)⟩
      exact congrArg Except.error (Except.error.inj he)
    | ok r =>
      obtain ⟨q, c⟩ := r
      refine ⟨fun e he => (by cases he), fun p j hp D hD e E he => ?_⟩
      obtain ⟨rfl, rfl⟩ := Prod.mk.inj (Except.ok.inj hp)
      -- the prelude by itself is analysed without an error, under other numbers too
      obtain ⟨F, hF⟩ := hself.analysed
      have hfresh : ∀ x : NodeId, 0 ≤ x → D[x + i]? = ({} : Distances)[x]? := fun x _ => by
        rw [hD _ (Nat.le_add_left i x)]
        exact Std.HashMap.getElem?_empty.symm
      have hsame := resolve_alike (fun ht => by rw [ht.1]) hmade hfresh
      rw [hF] at hsame
      generalize hp' : resolve D p' = r' at hsame
      cases hsame with
      | ok _ => exact resolve_behind (hread q c rfl) hp' he
      | failed hfail' =>
        obtain ⟨_, _, hr, _⟩ := hfail' trivial
        cases (Prod.mk.inj hr).1

/-- The row of tokens that a source is read from. -/
theorem Grounded.row (h : s.Grounded texts) (fuel : Nat) {name source : String}
    {tokens : List Token} {s₁ : Session} (hscan : s.scanSource name source = (.ok tokens, s₁)) :
    ∃ leading own, tokens = leading ++ own.map (Token.shift leading.length) ∧
      Leads (texts ++ s.lays (.run fuel name source)) leading ∧
      tokenizeFrom s.nextSourceLine source = .ok own := by
  obtain ⟨leading, s₂, hlead, hleads⟩ := h.leading fuel name source
  obtain ⟨own, hown, rfl⟩ := scanned_of_leading hlead hscan
  exact ⟨leading, own, rfl, hleads, hown⟩

theorem Leads.stems {leading : List Token} (h : Leads texts leading) :
    ∀ t ∈ leading, Stems texts t := by
  cases h with
  | nothing => simp
  | prelude _ hstems => exact hstems

/-- Reading and analysing a source: all tokens of the program stem from the texts, and the token of
an error from the source itself. -/
theorem Grounded.parsed (h : s.Grounded texts) (fuel : Nat) {name source : String}
    {tokens : List Token} {s₁ : Session} (hscan : s.scanSource name source = (.ok tokens, s₁))
    {text : LaidText} (htext : text = ⟨name, source, s.nextSourceLine⟩) :
    (∀ e, parseFrom s.nextId tokens = .error (.rejected e) →
      Marked text.Bears text.Ends e.token) ∧
    ∀ p j, parseFrom s.nextId tokens = .ok (p, j) →
      stmtsMade (Diagonal (Stems (texts ++ s.lays (.run fuel name source)))) 0 s.nextId j p p ∧
      ∀ e E, resolve s.machine.distances p = (.error e, E) → text.Bears e.token := by
  obtain ⟨leading, own, rfl, hleads, hown⟩ := h.row fuel hscan
  obtain ⟨programs, hsound⟩ := h.sound
  have hown' : tokenizeFrom text.first text.source = .ok own := by rw [htext, hown]
  have hmarked := text.marked hown' leading.length
  obtain ⟨hfail, hscope⟩ :=
    hleads.parseFrom text.passedOn_bears hmarked (endMark_mem_shift hown _) s.nextId
  refine ⟨hfail, fun p j hp => ⟨?_, hscope p j hp _ hsound.fresh⟩⟩
  have hmem : text ∈ texts ++ s.lays (.run fuel name source) := by
    rw [htext, lays]
    simp
  have hall : ∀ t ∈ leading ++ own.map (Token.shift leading.length),
      Marked (Stems (texts ++ s.lays (.run fuel name source))) text.Ends t := fun t ht => by
    rcases List.mem_append.1 ht with ht | ht
    · exact .inl (hleads.stems t ht)
    · exact (hmarked t ht).imp_left fun hbears => ⟨text, hmem, hbears⟩
  exact (parseFrom_marked (passedOn_stems _) hall s.nextId).2 p j hp

/-! ### Histories -/

/-- Running a source: what is on the machine then stems from the texts. -/
theorem Grounded.run_rooted (h : s.Grounded texts) (hroot : s.Rooted texts) (fuel : Nat)
    (name source : String) :
    (s.run fuel name source).2.Rooted (texts ++ s.lays (.run fuel name source)) ∧
      ∀ e, (s.run fuel name source).1 = .failed (.runtime e) →
        Stems (texts ++ s.lays (.run fuel name source)) e.token := by
  obtain ⟨hmachine, _, _⟩ := scanSource_machine s name source
  have hloaded := load_loaded s name source
  unfold run
  generalize s.load name source = r at hloaded
  cases hloaded with
  | scan hscan | parse hscan | unfinished hscan =>
    rw [hscan] at hmachine
    dsimp only at hmachine ⊢
    refine ⟨hroot.widen _ (D := s.machine.distances) ?_, fun e he => by cases he⟩
    rw [hmachine]
  | @scope _ _ _ _ _ distances hscan hparse hres =>
    rw [hscan] at hmachine
    dsimp only at hmachine ⊢
    refine ⟨hroot.widen _ (D := distances) ?_, fun e he => by cases he⟩
    rw [analysed, hmachine]
  | @accepted _ s₁ program nextId distances hscan hparse hres =>
    obtain ⟨hmade, _⟩ := (h.parsed fuel hscan rfl).2 _ _ hparse
    rw [hscan] at hmachine
    dsimp only at hmachine ⊢
    have hwide : Rooted (texts ++ s.lays (.run fuel name source))
        { s₁.analysed nextId distances with preludePending := false } :=
      hroot.widen _ (by rw [analysed, hmachine])
    obtain ⟨hrest, herror⟩ := hwide.execute fuel hmade
    refine ⟨hrest, fun e he => ?_⟩
    obtain ⟨err, heq, hstems⟩ := herror _ he
    obtain rfl := Error.runtime.inj heq
    exact hstems

/-- One action. -/
theorem Grounded.perform (h : s.Grounded texts) (a : Action) :
    (s.perform a).Grounded (texts ++ s.lays a) := by
  obtain ⟨programs, hsound⟩ := h.sound
  refine ⟨h.laid.perform a, Fronted.perform h.fronted a, perform_sources h.laid h.sources a, ?_,
    _, hsound.perform a⟩
  intro hpending hsome
  cases a with
  | run fuel name source =>
    rw [Session.perform, (run_layout s fuel name source).2.2, Bool.and_eq_true,
      (scanSource_machine s name source).2.2] at hpending
    exact h.prelude_laid hpending.1 fuel name source
  | native name arity f held => exact List.mem_append_left _ (h.shown hpending hsome)
  | takeOutput => exact List.mem_append_left _ (h.shown hpending hsome)

/-- One action of a host whose functions report errors at the call. -/
theorem Rooted.perform (h : s.Rooted texts) (hground : s.Grounded texts) {a : Action}
    (ha : ∀ f ∈ a.hosts, f.ReportsAtSite) : (s.perform a).Rooted (texts ++ s.lays a) := by
  cases a with
  | run fuel name source => exact (hground.run_rooted h fuel name source).1
  | native name arity f held =>
    rw [lays, List.append_nil]
    have hf := ha f (List.mem_singleton_self f)
    exact fun more => (h more).defineNative name arity (hf.respects And.left) held
  | takeOutput =>
    rw [lays, List.append_nil]
    exact fun more => (h more).withSink _

/-- Any number of actions. -/
theorem Grounded.after (h : s.Grounded texts) (history : List Action) :
    (s.after history).Grounded (texts ++ s.texts history) := by
  induction history generalizing s texts with
  | nil =>
    rw [Session.texts, List.append_nil]
    exact h
  | cons a history ih =>
    rw [Session.texts, ← List.append_assoc]
    exact ih (h.perform a)

/-- Any number of actions of a host whose functions report errors at the call. -/
theorem Rooted.after (h : s.Rooted texts) (hground : s.Grounded texts) {history : List Action}
    (hhosts : ∀ a ∈ history, ∀ f ∈ a.hosts, f.ReportsAtSite) :
    (s.after history).Rooted (texts ++ s.texts history) := by
  induction history generalizing s texts with
  | nil =>
    rw [Session.texts, List.append_nil]
    exact h
  | cons a history ih =>
    obtain ⟨ha, hhosts⟩ := List.forall_mem_cons.1 hhosts
    rw [Session.texts, ← List.append_assoc]
    exact ih (h.perform hground ha) (hground.perform a) hhosts

section

variable (prelude : Bool) (input : List UInt8) (limit : Option Nat) (clock : Clock)

theorem grounded_start : (start prelude input limit clock).Grounded [] where
  laid := laid_start prelude input limit clock
  fronted _ := fronted_start prelude input limit clock
  sources := ⟨rfl, .nil, by simp⟩
  shown _ h := by cases h
  sound := ⟨[], sound_start prelude input limit clock⟩

theorem rooted_start : (start prelude input limit clock).Rooted [] := fun _ =>
  consists_start prelude input limit clock

end

end

end Session

end ScopedScript
