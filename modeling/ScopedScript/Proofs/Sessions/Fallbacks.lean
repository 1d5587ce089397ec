import Mathlib
import ScopedScript.Proofs.Parsing.WellFormed
import ScopedScript.Proofs.Sessions.Histories

/-! # What the evaluator never falls back on

There are trees for which the evaluator has a branch that no program needs: a variable with a
statement for its initialiser, a `return` of anything but an expression, and operators that are none
(`Node.FallsBack`).  Programs that have been parsed are well-formed, and the trees of functions and
classes that a session holds on to are parts of such programs.  So nothing that a session evaluates
falls back on one of these branches (`Session.wellFormed_and_handled`). -/

namespace ScopedScript

open Evaluation

/-! ### Places and sites -/

/-- Every node that has a place is among the sites. -/
def Listed (places : List Place) (sites : List Site) : Prop :=
  ∀ q ∈ places, ∃ s ∈ sites, s.node = q.node

namespace Listed

variable {ps qs : List Place} {ss ts : List Site}

theorem nil : Listed [] ss := fun _ h => nomatch h

theorem append (hp : Listed ps ss) (hq : Listed qs ts) : Listed (ps ++ qs) (ss ++ ts) := by
  intro q hmem
  rcases List.mem_append.1 hmem with h | h
  · obtain ⟨s, hs, heq⟩ := hp q h
    exact ⟨s, List.mem_append_left ts hs, heq⟩
  · obtain ⟨s, hs, heq⟩ := hq q h
    exact ⟨s, List.mem_append_right ss hs, heq⟩

/-- A node in front of the nodes below it. -/
theorem node (ctx : Surroundings) (outer : List Enclosure) (n : Node) (h : Listed ps ss) :
    Listed (⟨ctx, n⟩ :: ps) (⟨outer, n⟩ :: ss) := by
  intro q hmem
  rcases List.mem_cons.1 hmem with rfl | hmem
  · exact ⟨_, List.mem_cons_self, rfl⟩
  · obtain ⟨s, hs, heq⟩ := h q hmem
    exact ⟨s, List.mem_cons_of_mem _ hs, heq⟩

/-- A node behind the nodes below it. -/
theorem node_last (ctx : Surroundings) (outer : List Enclosure) (n : Node) (h : Listed ps ss) :
    Listed (ps ++ [⟨ctx, n⟩]) (⟨outer, n⟩ :: ss) := by
  intro q hmem
  rcases List.mem_append.1 hmem with hmem | hmem
  · obtain ⟨s, hs, heq⟩ := h q hmem
    exact ⟨s, List.mem_cons_of_mem _ hs, heq⟩
  · obtain rfl := List.mem_singleton.1 hmem
    exact ⟨_, List.mem_cons_self, rfl⟩

end Listed

mutual

theorem Expr.listed (ctx : Surroundings) (outer : List Enclosure) :
    (e : Expr) → Listed (e.places ctx) (e.sites outer)
  | .grouping inner => by
    simp only [Expr.places, Expr.sites]
    exact .node _ _ _ (inner.listed ctx outer)
  | .binary left _ right => by
    simp only [Expr.places, Expr.sites]
    exact .node _ _ _ ((left.listed ctx outer).append (right.listed ctx outer))
  | .unary _ operand => by
    simp only [Expr.places, Expr.sites]
    exact .node _ _ _ (operand.listed ctx outer)
  | .literal _ value => by
    simp only [Expr.places, Expr.sites]
    exact .node _ _ _ (value.listed ctx outer)
  | .name _ _ | .this _ _ => by
    simp only [Expr.places, Expr.sites]
    exact .node _ _ _ .nil
  | .function _ declaration => by
    simp only [Expr.places, Expr.sites]
    exact .node _ _ _ (declaration.listed ctx _)
  | .call callee _ args => by
    simp only [Expr.places, Expr.sites]
    exact .node _ _ _ ((callee.listed ctx outer).append (exprs_listed ctx outer args))
  | .index _ _ index => by
    simp only [Expr.places, Expr.sites]
    exact .node _ _ _ (index.listed ctx outer)
  | .get object _ => by
    simp only [Expr.places, Expr.sites]
    exact .node _ _ _ (object.listed ctx outer)
  | .set object _ value => by
    simp only [Expr.places, Expr.sites]
    exact .node _ _ _ ((value.listed ctx outer).append (object.listed ctx outer))
  | .object _ entries => by
    simp only [Expr.places, Expr.sites]
    exact .node _ _ _ (entries_listed ctx outer entries)
  | .assign _ _ value => by
    simp only [Expr.places, Expr.sites]
    exact .node_last _ _ _ (value.listed ctx outer)

theorem exprs_listed (ctx : Surroundings) (outer : List Enclosure) :
    (es : List Expr) → Listed (exprsPlaces ctx es) (exprsSites outer es)
  | [] => .nil
  | e :: es => by
    simp only [exprsPlaces, exprsSites]
    exact (e.listed ctx outer).append (exprs_listed ctx outer es)

theorem LiteralValue.listed (ctx : Surroundings) (outer : List Enclosure) :
    (v : LiteralValue) → Listed (v.places ctx) (v.sites outer)
  | .list elements => by
    simp only [LiteralValue.places, LiteralValue.sites]
    exact exprs_listed ctx outer elements
  | .num _ | .str _ | .bool _ | .null | .undefined | .emptyObject => .nil

theorem entries_listed (ctx : Surroundings) (outer : List Enclosure) :
    (es : List Entry) → Listed (entriesPlaces ctx es) (entriesSites outer es)
  | [] => .nil
  | .mk _ value :: entries => by
    simp only [entriesPlaces, entriesSites]
    exact (value.listed ctx outer).append (entries_listed ctx outer entries)

theorem Stmt.listed (sure : Bool) (ctx : Surroundings) (outer : List Enclosure) :
    (s : Stmt) → Listed (s.places sure ctx) (s.sites outer)
  | .empty => by
    simp only [Stmt.places, Stmt.sites]
    exact .node _ _ _ .nil
  | .block statements => by
    simp only [Stmt.places, Stmt.sites]
    exact .node _ _ _ (stmts_listed true _ outer statements)
  | .expression e _ => by
    simp only [Stmt.places, Stmt.sites]
    exact .node _ _ _ (e.listed ctx outer)
  | .variable _ _ _ init => by
    simp only [Stmt.places, Stmt.sites]
    exact .node _ _ _ (option_listed false _ _ init)
  | .indexAssign _ _ index value => by
    simp only [Stmt.places, Stmt.sites]
    exact .node_last _ _ _ ((index.listed ctx outer).append (value.listed ctx outer))
  | .functionDecl declaration => by
    simp only [Stmt.places, Stmt.sites]
    exact .node _ _ _ (declaration.listed _ _)
  | .cond _ condition thenBranch elseBranch => by
    simp only [Stmt.places, Stmt.sites, List.append_assoc]
    refine .node _ _ _ ((condition.listed ctx outer).append ?_)
    exact (thenBranch.listed false ctx outer).append (option_listed false _ outer elseBranch)
  | .loop condition body _ => by
    simp only [Stmt.places, Stmt.sites]
    exact .node _ _ _ ((condition.listed ctx outer).append (body.listed false ctx outer))
  | .returns _ value => by
    simp only [Stmt.places, Stmt.sites]
    exact .node _ _ _ (value.listed false ctx outer)
  | .object properties => by
    simp only [Stmt.places, Stmt.sites]
    exact .node _ _ _ (properties_listed false ctx outer properties)
  | .classDecl declaration => by
    simp only [Stmt.places, Stmt.sites]
    exact .node _ _ _ (declaration.listed _ _)

theorem option_listed (sure : Bool) (ctx : Surroundings) (outer : List Enclosure) :
    (o : Option Stmt) → Listed (optionPlaces sure ctx o) (optionSites outer o)
  | none => .nil
  | some s => by
    simp only [optionPlaces, optionSites]
    exact s.listed sure ctx outer

theorem stmts_listed (sure : Bool) (ctx : Surroundings) (outer : List Enclosure) :
    (ss : List Stmt) → Listed (stmtsPlaces sure ctx ss) (stmtsSites outer ss)
  | [] => .nil
  | s :: ss => by
    simp only [stmtsPlaces, stmtsSites]
    exact (s.listed sure ctx outer).append (stmts_listed sure _ outer ss)

theorem properties_listed (sure : Bool) (ctx : Surroundings) (outer : List Enclosure) :
    (ps : List StmtEntry) → Listed (propertiesPlaces sure ctx ps) (propertiesSites outer ps)
  | [] => .nil
  | .mk _ s :: properties => by
    simp only [propertiesPlaces, propertiesSites]
    exact (s.listed sure ctx outer).append (properties_listed sure _ outer properties)

theorem FunctionDecl.listed (ctx : Surroundings) (outer : List Enclosure) :
    (f : FunctionDecl) → Listed (f.places ctx) (f.sites outer)
  | .mk _ _ body _ => by
    simp only [FunctionDecl.places, FunctionDecl.sites]
    exact stmts_listed true _ outer body

theorem ClassDecl.listed (ctx : Surroundings) (outer : List Enclosure) :
    (c : ClassDecl) → Listed (c.places ctx) (c.sites outer)
  | .mk _ methods fields => by
    simp only [ClassDecl.places, ClassDecl.sites]
    exact (fields_listed _ outer fields).append (methods_listed _ outer methods)

theorem fields_listed (ctx : Surroundings) (outer : List Enclosure) :
    (fs : List FieldDecl) → Listed (fieldsPlaces ctx fs) (fieldsSites outer fs)
  | [] => .nil
  | .mk _ _ init :: fields => by
    simp only [fieldsPlaces, fieldsSites]
    exact (init.listed ctx outer).append (fields_listed ctx outer fields)

theorem methods_listed (ctx : Surroundings) (outer : List Enclosure) :
    (ms : List FunctionDecl) → Listed (methodsPlaces ctx ms) (methodsSites outer ms)
  | [] => .nil
  | m :: ms => by
    simp only [methodsPlaces, methodsSites]
    exact (m.listed ctx _).append (methods_listed ctx outer ms)

end

/-- The nodes of a well-formed program are well-formed, wherever they stand. -/
theorem Program.WellFormed.placed {program : Program} (h : Program.WellFormed program) :
    ∀ q ∈ Program.places program, q.node.WellFormed := by
  intro q hq
  obtain ⟨s, hs, heq⟩ := stmts_listed true .top [] program q hq
  exact heq ▸ h.nodes s hs

/-! ### Nodes -/

/-- The evaluator falls back on a branch that is there for trees that no program has. -/
def Node.FallsBack : Node → Prop
  | .stmt (.variable _ _ _ (some init)) => ∀ e token, init ≠ .expression e token
  | .stmt (.returns _ value) => ∀ e token, value ≠ .expression e token
  | .expr (.binary _ operator _) => operator.kind ∉ Grammar.binaryKinds
  | .expr (.unary operator _) => operator.kind ≠ .not ∧ operator.kind ≠ .minus
  | _ => False

theorem Node.WellFormed.not_fallsBack {n : Node} (h : n.WellFormed) : ¬n.FallsBack := by
  intro hback
  unfold FallsBack at hback
  split at hback
  · obtain ⟨e, token, rfl⟩ := h.2 _ rfl
    exact hback e token rfl
  · obtain ⟨e, token, rfl⟩ := h
    exact hback e token rfl
  · exact hback h
  · exact h.elim hback.1 hback.2
  · exact hback

/-! ### Sessions -/

namespace Session

/-- What has been loaded has been parsed. -/
theorem loaded_wellFormed (s : Session) (name source : String) :
    ∀ p ∈ loaded (s.load name source).1, Program.WellFormed p := by
  have hloaded := load_loaded s name source
  generalize s.load name source = r at hloaded
  intro p hp
  cases hloaded with
  | accepted _ hparse _ =>
    obtain rfl := List.mem_singleton.1 hp
    exact parseFrom_wellFormed hparse
  | scan | parse | unfinished | scope => cases hp

/-- The programs that a history runs have been parsed. -/
theorem programs_wellFormed (s : Session) (history : List Action) :
    ∀ p ∈ s.programs history, Program.WellFormed p := by
  induction history generalizing s with
  | nil => simp [programs]
  | cons a history ih =>
    intro p hp
    rcases List.mem_append.1 hp with hp | hp
    · cases a with
      | run fuel name source => exact s.loaded_wellFormed name source p hp
      | native | takeOutput => cases hp
    · exact ih _ p hp

/-- Programs that have been parsed are well-formed.  When a session runs such a program, whatever it
has done before, every node that is evaluated has a branch of the evaluator made for it. -/
theorem wellFormed_and_handled :
    (∀ (i j : NodeId) (tokens : List Token) (program : Program),
      parseFrom i tokens = .ok (program, j) → Program.WellFormed program) ∧
    ∀ (prelude : Bool) (input : List UInt8) (limit : Option Nat) (clock : Clock)
      (history : List Action) (name source : String) (program : Program) (s : Session),
      ((start prelude input limit clock).after history).load name source = (.ok program, s) →
      ∀ (fuel : Nat) (c : Config),
        Visits fuel (fun self => runProgram self program .undefined) s.machine c →
        ∀ n, c.task.node? = some n → ¬n.FallsBack := by
  refine ⟨fun _ _ _ _ => parseFrom_wellFormed, ?_⟩
  intro prelude input limit clock history name source program s hload fuel c hvisits n hn
  have hsound := sound_after prelude input limit clock history
  have hloaded := hsound.load name source
  have hnew := loaded_wellFormed ((start prelude input limit clock).after history) name source
  rw [hload] at hloaded hnew
  have hwell : ∀ p ∈ (start prelude input limit clock).programs history ++ loaded (.ok program),
      Program.WellFormed p := by
    intro p hp
    exact (List.mem_append.1 hp).elim (programs_wellFormed _ history p) (hnew p)
  have hgood := hloaded.good (hsound.accepted_alike hload) hvisits
  obtain ⟨ctx, n', ⟨⟨p, hp, hplace⟩, -⟩, -⟩ := hgood.placed hn
  exact ((hwell p hp).placed _ hplace).not_fallsBack

/-- A `for` loop whose body is cut off, as a tree. -/
def cutOff : Stmt :=
  .loop (.literal .trueLit (.bool true))
    (.block [.empty, .expression (.literal .trueLit (.bool true)) (.make .kwFor "for" 1 1 0 none)])
    (.make .kwFor "for" 1 1 0 none)

set_option maxRecDepth 100000 in
theorem cutOff_spelled : ∃ tokens, tokenizeFrom 1 "for(;;true)" = .ok tokens ∧
    parseFrom 0 tokens = .ok ([.block [cutOff]], 0) :=
  ⟨_, by cbv, by cbv⟩

/-- The empty body comes before the increment, and the block of the loop is evaluated. -/
theorem cutOff_handled : ∃ tokens s, tokenizeFrom 1 "for(;;true)" = .ok tokens ∧
    parseFrom 0 tokens = .ok ([.block [cutOff]], 0) ∧ Program.WellFormed [.block [cutOff]] ∧
    (start false [] none (.still 0)).load "main" "for(;;true)" = (.ok [.block [cutOff]], s) ∧
    Visits 1 (fun self => runProgram self [.block [cutOff]] .undefined) s.machine
      ⟨.stmt (.block [cutOff]), s.machine⟩ ∧
    ¬(Node.stmt (.block [cutOff])).FallsBack := by
  obtain ⟨tokens, htokens, hparse⟩ := cutOff_spelled
  obtain ⟨s, hload, -⟩ :=
    load_of_ready (s := start false [] none (.still 0)) rfl "main" htokens hparse rfl
  have hvisits : Visits 1 (fun self => runProgram self [.block [cutOff]] .undefined) s.machine
      ⟨.stmt (.block [cutOff]), s.machine⟩ := .call (.program (by simp) .undefined)
  exact ⟨tokens, s, htokens, hparse, wellFormed_and_handled.1 0 0 tokens _ hparse, hload, hvisits,
    wellFormed_and_handled.2 false [] none (.still 0) [] "main" _ _ s hload 1 _ hvisits _ rfl⟩

end Session

end ScopedScript
