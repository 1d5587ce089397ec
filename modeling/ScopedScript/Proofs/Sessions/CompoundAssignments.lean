import ScopedScript.Proofs.Parsing.CompoundAssignments
import ScopedScript.Proofs.Sessions.Paraphrases
import ScopedScript.Proofs.Sessions.Parts
import ScopedScript.Proofs.Sessions.This

/-! # Compound assignments in programs

`T op= E` means what `T = T op (E)` means, and `T++` what `T = T + (1)` means
(`compound_assignment_expands`).

* Either row is a program of its own.
* Wherever one may stand as a statement, so may the other, and a session treats the two sources
  alike (`Session.TreatsAlike`): the analysis has the same verdict, corresponding names are found at the
  same distance, and the runs come to the same.
* If `T` is a property, its object is evaluated to write it and once more to read it, in either form
  (`Evaluation.updateProperty`).

Two things are excepted (`expansion_refused_or_seen`).  Empty braces are a statement by themselves, so a
target that starts with them is not assigned to in either form.  And a native of the host that looks at
the place of its call can tell the forms apart. -/

namespace ScopedScript

open Grammar

namespace Evaluation

open Eval

/-- Writes to a property what an operator makes of its value and an operand.  The object is evaluated,
and evaluated `again` to read the property. -/
def updateProperty (fuel : Nat) (object : Expr) (name : Token) (again : Expr) (readName : Token)
    (operator : Token) (operand : Expr) : Eval Value := do
  let ref ← fieldsOf name (← run (fuel + 2) (.expr object))
  let old ← run fuel (.property (← run fuel (.expr again)) readName)
  let operandValue ← run (fuel + 1) (.expr operand)
  let v ← liftAt operator (← inspect fun m => applyBinary m.heap operator old operandValue)
  writeRecord ref name.lexeme v
  return v

theorem run_update (fuel : Nat) (object : Expr) (name : Token) (again : Expr) (readName : Token)
    {operator : Token} (hoperator : operator.kind ∈ arithmetic) (operand : Expr) :
    run (fuel + 3) (.expr (.set object name (.binary (.get again readName) operator operand))) =
      updateProperty fuel object name again readName operator operand := by
  have hlogical : isLogical operator = false := by
    unfold isLogical
    revert hoperator
    generalize operator.kind = kind
    cases kind <;> decide
  have hset : run (fuel + 3)
      (.expr (.set object name (.binary (.get again readName) operator operand))) =
      evalSet (run (fuel + 2)) object name (.binary (.get again readName) operator operand) := rfl
  have hbinary : run (fuel + 2) (.expr (.binary (.get again readName) operator operand)) =
      evalBinary (run (fuel + 1)) (.get again readName) operator operand :=
    congrArg (fun b : Bool =>
      if b then evalLogical (run (fuel + 1)) (.get again readName) operator operand
      else evalBinary (run (fuel + 1)) (.get again readName) operator operand) hlogical
  have hget : run (fuel + 1) (.expr (.get again readName)) = evalGet (run fuel) again readName := rfl
  rw [hset, evalSet, hbinary, evalBinary, hget, evalGet]
  simp only [updateProperty, bind_assoc]

end Evaluation

namespace Session

/-- The session reads both rows of tokens, and the two sources come to the same: one verdict of the
analysis, matching values of corresponding expressions, and runs that finish alike. -/
def TreatsAlike (s : Session) (name source name' source' : String) (tokens tokens' : List Token) :
    Prop :=
  ∃ p p' j j', parseFrom s.nextId tokens = .ok (p, j) ∧ parseFrom s.nextId tokens' = .ok (p', j') ∧
    ∃ r E r' E', resolve s.machine.distances p = (r, E) ∧ resolve s.machine.distances p' = (r', E') ∧
      SameVerdict r r' ∧ (r = .ok () → stmtsParaphrase (SameDistance E E') p p') ∧
      (∀ e e' : Expr, e.Paraphrases (SameDistance E E') e' → ∀ m m' : Machine,
        m.Matches (SameDistance E E') m' →
        Evaluation.EndAlike (SameDistance E E') (Value.Matches (SameDistance E E'))
          (fun fuel => Evaluation.run fuel (.expr e) m)
          fun fuel => Evaluation.run fuel (.expr e') m') ∧
      FinishAlike (SameDistance E E') (fun fuel => s.run fuel name source)
        fun fuel => s.run fuel name' source'

section

variable {s s₁ s₁' : Session} {name source name' source' : String} {tokens tokens' : List Token}
  {p p' : Program} {j j' : NodeId}

/-- Programs that say the same are treated alike. -/
theorem Settled.treatsAlike {first k : Nat} (h : s.Settled first k)
    (hfits : ∀ f ∈ s.machine.hosts, f.ReadsWord) (hscan : s.scanSource name source = (.ok tokens, s₁))
    (hscan' : s.scanSource name' source' = (.ok tokens', s₁'))
    (hparse : parseFrom s.nextId tokens = .ok (p, j))
    (hparse' : parseFrom s.nextId tokens' = .ok (p', j'))
    (hp : stmtsParaphrase (fun _ _ => True) p p') :
    s.TreatsAlike name source name' source' tokens tokens' := by
  have hverdict := resolve_paraphrase hp s.machine.distances s.machine.distances
  refine ⟨p, p', j, j', hparse, hparse', (resolve s.machine.distances p).1,
    (resolve s.machine.distances p).2, (resolve s.machine.distances p').1,
    (resolve s.machine.distances p').2, rfl, rfl, hverdict, fun haccepted => ?_,
    fun e e' he m m' hm => Evaluation.evaluation_paraphrase he hm,
    h.run_paraphrase hfits hscan hscan' hparse hparse' hp⟩
  have haccepted' : (resolve s.machine.distances p').1 = .ok () := by
    rw [haccepted] at hverdict
    generalize (resolve s.machine.distances p').1 = r at hverdict
    cases hverdict
    rfl
  exact stmtsParaphrase_sharpen true (rfl : Surroundings.SameNames .top .top) p hp
    (places_foundIn h.beside.fresh hparse (Prod.ext haccepted rfl))
    (places_foundIn h.beside.fresh hparse' (Prod.ext haccepted' rfl))

end

end Session

section

variable {x : Expansion Token.SameText}

/-- What is read is read under other numbers, too. -/
theorem parseFrom_of_parse {ts : List Token} (h : ∃ p, parse ts = .ok p) (i : NodeId) :
    ∃ r, parseFrom i ts = .ok r := by
  obtain ⟨p, hp⟩ := h
  obtain ⟨j, hread⟩ : ∃ j, parseFrom 0 ts = .ok (p, j) := by
    unfold parse at hp
    generalize parseFrom 0 ts = r at hp
    cases r with
    | error e => cases hp
    | ok r =>
      obtain rfl := Except.ok.inj hp
      exact ⟨r.2, rfl⟩
  obtain ⟨p', hp', -⟩ := parseFrom_sameText (k := i) hread
    (List.forall₂_same.2 fun _ _ => ⟨rfl, rfl, rfl⟩)
  rw [Nat.zero_add] at hp'
  exact ⟨_, hp'⟩

/-- In the place of a statement, either row is read, and the programs say the same. -/
theorem Grammar.Gap.paraphrases (G : Gap Token.SameText)
    (hbraces : startsEmptyBraces x.targetRow = false)
    (hadmits : G.Admits x.short ∨ G.AdmitsSecond x.long) (i : NodeId) :
    ∃ p p' j j', parseFrom i (G.first x.short) = .ok (p, j) ∧
      parseFrom i (G.second x.long) = .ok (p', j') ∧ stmtsParaphrase (fun _ _ => True) p p' := by
  have hsymm {t t' : Token} (ht : t.SameText t') : t'.SameText t :=
    ⟨ht.1.symm, ht.2.1.symm, ht.2.2.symm⟩
  rcases hadmits with hadmits | hadmits
  · obtain ⟨r, hr⟩ := parseFrom_of_parse hadmits i
    exact (x.replacement matches_sameText hbraces G).parseFrom_paraphrases G.pres hr
  · -- the other way round
    obtain ⟨r, hr⟩ := parseFrom_of_parse hadmits i
    obtain ⟨p', p, j', j, hp', hp, hsame⟩ :=
      ((x.replacement matches_sameText hbraces G).swap hsymm).parseFrom_paraphrases
        (G.swap matches_sameText hsymm).pres hr
    exact ⟨p, p', j, j', hp, hp', stmtsParaphrase_symm p' hsame⟩

/-- If the target is a property, either assignment evaluates its object twice. -/
theorem Grammar.Expansion.Unfolds.updates {e e' object : Expr} {name : Token} (h : x.Unfolds e e')
    (htarget : x.target = .get object name) : ∃ o o₁ o₂ v v₁ t t₁ t₂ i j,
      object.Made Eq i 0 j o ∧ o.Paraphrases (fun _ _ => True) o₁ ∧
      o.Paraphrases (fun _ _ => True) o₂ ∧ v.Paraphrases (fun _ _ => True) v₁ ∧
      t.SameWord t₁ ∧ t.SameWord t₂ ∧ ∀ fuel,
        Evaluation.run (fuel + 3) (.expr e) =
          Evaluation.updateProperty fuel o t o t (compoundOperator x.operator) v ∧
        Evaluation.run (fuel + 3) (.expr e') =
          Evaluation.updateProperty fuel o₁ t₁ o₂ t₂ x.plain (.grouping v₁) := by
  cases h with
  | @mk d d₁ d₂ v v₁ _ _ i j _ _ hd hv hwhole hwhole₁ hd₁ hd₂ hd₂' hv₁ =>
    rw [htarget] at hd
    obtain ⟨o, t, rfl, -, ho⟩ := made_get hd
    obtain ⟨o₁, t₁, hbare₁, ht₁, ho₁⟩ := hd₁
    obtain ⟨o₂, t₂, hbare₂, ht₂, ho₂⟩ := hd₂
    cases hwhole
    cases hwhole₁ with
    | name => cases hbare₁
    | get =>
      cases hd₂' with
      | name => cases hbare₂
      | get =>
        obtain ⟨rfl, rfl⟩ := Expr.get.inj hbare₁
        obtain ⟨rfl, rfl⟩ := Expr.get.inj hbare₂
        exact ⟨o, _, _, v, v₁, t, _, _, i, j, ho, ho₁, ho₂, hv₁, ht₁, ht₂, fun fuel =>
          ⟨Evaluation.run_update fuel o t o t (Expansion.compoundOperator_arithmetic x.operator) v,
            Evaluation.run_update fuel _ _ _ _ x.plain_arithmetic (.grouping v₁)⟩⟩

end

/-- An assignment `T op= E` or `T++` whose target does not start with empty braces is read as what
`T = T op (E)` or `T = T + (1)` is read as.  In any session in which the functions of the host do not
look at the place of their call, but at most at its word, and in any program, one can stand for the
other as a statement, either way.  If the target is a property, its object is evaluated twice by
either. -/
theorem compound_assignment_expands (x : Expansion Token.SameText)
    (hbraces : startsEmptyBraces x.targetRow = false) :
    (∀ mark mark' : Token, mark.kind = .endMark → mark'.kind = .endMark → ∀ i, ∃ e e' t t' j j',
      x.Unfolds e e' ∧ parseFrom i (x.short ++ [mark]) = .ok ([.expression e t], j) ∧
      parseFrom i (x.long ++ [mark']) = .ok ([.expression e' t'], j')) ∧
    (∀ prelude input limit clock (history : List Action) s,
      s = (Session.start prelude input limit clock).after history →
      (∀ f ∈ s.machine.hosts, f.ReadsWord) →
      ∀ G : Gap Token.SameText, (G.Admits x.short ∨ G.AdmitsSecond x.long) →
      ∀ name source name' source' s₁ s₁',
      s.scanSource name source = (.ok (G.first x.short), s₁) →
      s.scanSource name' source' = (.ok (G.second x.long), s₁') →
      s.TreatsAlike name source name' source' (G.first x.short) (G.second x.long)) ∧
    ∀ e e' object name, x.Unfolds e e' → x.target = .get object name →
      ∃ o o₁ o₂ v v₁ t t₁ t₂ i j, object.Made Eq i 0 j o ∧ o.Paraphrases (fun _ _ => True) o₁ ∧
        o.Paraphrases (fun _ _ => True) o₂ ∧ v.Paraphrases (fun _ _ => True) v₁ ∧
        t.SameWord t₁ ∧ t.SameWord t₂ ∧ ∀ fuel,
          Evaluation.run (fuel + 3) (.expr e) =
            Evaluation.updateProperty fuel o t o t (compoundOperator x.operator) v ∧
          Evaluation.run (fuel + 3) (.expr e') =
            Evaluation.updateProperty fuel o₁ t₁ o₂ t₂ x.plain (.grouping v₁) := by
  refine ⟨fun mark mark' hmark hmark' i => x.parseFrom_alone matches_sameText hbraces hmark hmark' i,
    ?_, fun e e' object name hunfolds htarget => hunfolds.updates htarget⟩
  rintro prelude input limit clock history s hs hfits G hadmits name source name' source' s₁ s₁' hscan
    hscan'
  -- the session is compared with itself, so no line moves
  have hhosts : ∀ a ∈ history, ∀ f ∈ a.hosts, f.MissesMoves s.sources.nextLine 0 :=
    fun _ _ f _ => f.missesMoves_zero _
  have hsettled := (Session.settled_start prelude input limit clock _ 0).after hhosts
    (by rw [hs])
  rw [← hs] at hsettled
  obtain ⟨p, p', j, j', hparse, hparse', hp⟩ := G.paraphrases hbraces hadmits _
  exact hsettled.treatsAlike hfits hscan hscan' hparse hparse' hp

/-! ### An addition to a property -/

/-- The rows `o.n += "b"` and `o.n = o.n + ("b")`, on a second line. -/
def textAppended : Expansion Token.SameText where
  target := .get (.name 0 (.make .name "o" 2 1 9 none)) (.make .name "n" 2 3 11 none)
  operand := .literal .string (.str "b")
  targetRow := [.make .name "o" 2 1 9 none, .make .dot "." 2 2 10 none, .make .name "n" 2 3 11 none]
  writtenRow := [.make .name "o" 2 1 9 none, .make .dot "." 2 2 10 none, .make .name "n" 2 3 11 none]
  readRow := [.make .name "o" 2 7 13 none, .make .dot "." 2 8 14 none, .make .name "n" 2 9 15 none]
  operandRow := [.make .string "\"b\"" 2 8 13 (some (.str "b"))]
  innerRow := [.make .string "\"b\"" 2 14 18 (some (.str "b"))]
  operator := .make .plusAssign "+=" 2 5 12 none
  equals := .make .assign "=" 2 5 12 none
  plain := .make .plus "+" 2 11 16 none
  opening := .make .leftParen "(" 2 13 17 none
  closing := .make .rightParen ")" 2 17 19 none
  isTarget := .get _ _
  spelled := ⟨20, .make .endMark "" 2 4 12 none, .make .endMark "" 2 4 12 none, _, rfl, by cbv, rfl⟩
  written := List.forall₂_same.2 fun _ _ => ⟨rfl, rfl, rfl⟩
  read := by simp [Token.SameText, Token.make]
  applied := .compound (by decide)
    ⟨20, .make .endMark "" 2 11 14 none, .make .endMark "" 2 11 14 none, _, rfl, by cbv, rfl⟩
    (.cons ⟨rfl, rfl, rfl⟩ .nil)
  equals_kind := rfl
  plain_word := ⟨rfl, rfl⟩
  opening_kind := rfl
  closing_kind := rfl

/-- Behind the line `let o = {n: "a"}`, at the end of a source. -/
def behindDeclaration : Gap Token.SameText where
  pre := [.make .kwLet "let" 1 1 0 none, .make .name "o" 1 5 1 none, .make .assign "=" 1 7 2 none,
    .make .leftBrace "\x7b" 1 9 3 none, .make .name "n" 1 10 4 none, .make .colon ":" 1 11 5 none,
    .make .string "\"a\"" 1 13 6 (some (.str "a")), .make .rightBrace "\x7d" 1 16 7 none,
    .make .newline "\n" 1 17 8 none]
  pre' := [.make .kwLet "let" 1 1 0 none, .make .name "o" 1 5 1 none, .make .assign "=" 1 7 2 none,
    .make .leftBrace "\x7b" 1 9 3 none, .make .name "n" 1 10 4 none, .make .colon ":" 1 11 5 none,
    .make .string "\"a\"" 1 13 6 (some (.str "a")), .make .rightBrace "\x7d" 1 16 7 none,
    .make .newline "\n" 1 17 8 none]
  post := [.make .endMark "" 2 11 14 none]
  post' := [.make .endMark "" 2 18 20 none]
  word := .make .kwLet "let" 2 1 9 none
  name := .make .name "p" 2 5 10 none
  equals := .make .assign "=" 2 7 11 none
  pres := List.forall₂_same.2 fun _ _ => ⟨rfl, rfl, rfl⟩
  posts := .cons ⟨rfl, rfl, rfl⟩ .nil
  marked := ⟨_, List.mem_cons_self, rfl⟩
  ends := ⟨_, _, rfl, rfl⟩
  word_kind := by decide
  name_kind := rfl
  equals_kind := rfl

/-- Text is appended to the property in both forms, in a session with functions of the host. -/
theorem appended_text_expands :
    startsEmptyBraces textAppended.targetRow = false ∧
    (Session.hosted false).TreatsAlike
      "main" "let o = \x7bn: \"a\"\x7d\no.n += \"b\""
      "main" "let o = \x7bn: \"a\"\x7d\no.n = o.n + (\"b\")"
      (behindDeclaration.first textAppended.short) (behindDeclaration.second textAppended.long) := by
  have hbraces : startsEmptyBraces textAppended.targetRow = false := by decide
  obtain ⟨-, hreplaced, -⟩ := compound_assignment_expands textAppended hbraces
  have hfits : ∀ f ∈ (Session.hosted false).machine.hosts, f.ReadsWord := by
    simp [Session.hosts_hosted, HostFunction.shout, HostFunction.double, HostFunction.plain_respects]
  have htokens : tokenizeFrom 1 "let o = \x7bn: \"a\"\x7d\no.n += \"b\"" =
      .ok (behindDeclaration.first textAppended.short) := by cbv
  have htokens' : tokenizeFrom 1 "let o = \x7bn: \"a\"\x7d\no.n = o.n + (\"b\")" =
      .ok (behindDeclaration.second textAppended.long) := by cbv
  have hadmits : behindDeclaration.Admits textAppended.short := ⟨_, by cbv⟩
  exact ⟨hbraces, hreplaced false [] none (.still 0) _ _ rfl hfits behindDeclaration (.inl hadmits)
    _ _ _ _ _ _ (Session.scanSource_of_ready rfl "main" htokens)
    (Session.scanSource_of_ready rfl "main" htokens')⟩

/-! ### Where an expansion differs -/

namespace Session

/-- What is written by a source that has nothing in front of it and is accepted. -/
theorem output_of_ready {s : Session} (hready : s.preludePending = false) (name : String)
    {source : String} {tokens : List Token} {p : Program} {j : NodeId} {D : Distances}
    (htokens : tokenizeFrom s.sources.nextLine source = .ok tokens)
    (hparse : parseFrom s.nextId tokens = .ok (p, j))
    (hres : resolve s.machine.distances p = (.ok (), D)) (fuel : Nat) :
    (s.run fuel name source).2.takeOutput.1 = ((s.analysed j D).execute fuel p).2.takeOutput.1 := by
  rw [run, load_of_accepted (scanSource_of_ready hready name htokens) hparse hres]
  simp only [takeOutput, execute_machine]
  rfl

end Session

/-- The row `{}.a += b`, and `{}.a = {}.a + (b)`. -/
def bracesAssigned : Expansion Token.SameText where
  target := .get (.literal .emptyObject .emptyObject) (.plain .name "a")
  operand := .name 0 (.plain .name "b")
  targetRow := [.plain .emptyObject "\x7b\x7d", .plain .dot ".", .plain .name "a"]
  writtenRow := [.plain .emptyObject "\x7b\x7d", .plain .dot ".", .plain .name "a"]
  readRow := [.plain .emptyObject "\x7b\x7d", .plain .dot ".", .plain .name "a"]
  operandRow := [.plain .name "b"]
  innerRow := [.plain .name "b"]
  operator := .plain .plusAssign "+="
  equals := .plain .assign "="
  plain := .plain .plus "+"
  opening := .plain .leftParen "("
  closing := .plain .rightParen ")"
  isTarget := .get _ _
  spelled := ⟨20, .plain .endMark "", .plain .endMark "", _, rfl, by cbv, rfl⟩
  written := List.forall₂_same.2 fun _ _ => ⟨rfl, rfl, rfl⟩
  read := List.forall₂_same.2 fun _ _ => ⟨rfl, rfl, rfl⟩
  applied := .compound (by decide) ⟨20, .plain .endMark "", .plain .endMark "", _, rfl, by cbv, rfl⟩
    (List.forall₂_same.2 fun _ _ => ⟨rfl, rfl, rfl⟩)
  equals_kind := rfl
  plain_word := ⟨rfl, rfl⟩
  opening_kind := rfl
  closing_kind := rfl

/-- A function of the host that yields the place of its call. -/
def HostFunction.place : HostFunction := ofSights fun site _ =>
  .ok (.str (toString site.line ++ ":" ++ toString site.column ++ ":" ++ site.lexeme))

/-- A session with this function. -/
def sessionWithPlaces : Session :=
  (Session.start false [] none (.still 0)).after [.native "f" 0 .place (.scalar .undefined)]

set_option maxRecDepth 100000 in
/-- With empty braces in front neither row is accepted, and a function of the host that looks at the
place of its call sees in which of two rows it stands. -/
theorem expansion_refused_or_seen :
    parse (bracesAssigned.short ++ [.plain .endMark ""]) =
        .error (.rejected ⟨.expected .statementEnd, .plain .dot "."⟩) ∧
      parse (bracesAssigned.long ++ [.plain .endMark ""]) =
        .error (.rejected ⟨.expected .statementEnd, .plain .dot "."⟩) ∧
      (sessionWithPlaces.run 60 "main" "f += print(f())").2.takeOutput.1 = "1:14:)\n" ∧
      (sessionWithPlaces.run 60 "main" "f = f + (print(f()))").2.takeOutput.1 = "1:18:)\n" := by
  have hwritten : ∃ tokens p j D,
      tokenizeFrom sessionWithPlaces.sources.nextLine "f += print(f())" = .ok tokens ∧
      parseFrom sessionWithPlaces.nextId tokens = .ok (p, j) ∧
      resolve sessionWithPlaces.machine.distances p = (.ok (), D) ∧
      ((sessionWithPlaces.analysed j D).execute 60 p).2.takeOutput.1 = "1:14:)\n" :=
    ⟨_, _, _, _, by cbv, by cbv, by cbv, by cbv⟩
  have hwritten' : ∃ tokens p j D,
      tokenizeFrom sessionWithPlaces.sources.nextLine "f = f + (print(f()))" = .ok tokens ∧
      parseFrom sessionWithPlaces.nextId tokens = .ok (p, j) ∧
      resolve sessionWithPlaces.machine.distances p = (.ok (), D) ∧
      ((sessionWithPlaces.analysed j D).execute 60 p).2.takeOutput.1 = "1:18:)\n" :=
    ⟨_, _, _, _, by cbv, by cbv, by cbv, by cbv⟩
  obtain ⟨_, _, _, _, htokens, hparse, hres, hwritten⟩ := hwritten
  obtain ⟨_, _, _, _, htokens', hparse', hres', hwritten'⟩ := hwritten'
  exact ⟨by cbv, by cbv, (Session.output_of_ready rfl "main" htokens hparse hres 60).trans hwritten,
    (Session.output_of_ready rfl "main" htokens' hparse' hres' 60).trans hwritten'⟩

end ScopedScript
