import ScopedScript.Proofs.Parsing.Programs
import ScopedScript.Proofs.Scope.SideBySide

/-! # The analysis of programs

What the scope analysis does to the table of distances of a session, for programs whose nodes are
numbered as the parser numbers them.

* It changes only the numbers of the program (`resolve_of_outside`).
* If it succeeds, each variable node of the program has the distance of its place
  (`resolve_distance`).
* Programs that have been read side by side are analysed alike (`resolve_alike`).
* If the analysis succeeds for two programs one after the other, it succeeds for the first and for
  the second by themselves (`resolve_append`). -/

namespace ScopedScript

open Scope

/-! ### Distances -/

section

variable {D E : Distances} {i j : NodeId} {p : Program}

/-- An analysis changes only the numbers of its program. -/
theorem resolve_of_outside (hp : NumberedIn i j p.places) {x : NodeId} (hx : ¬(i ≤ x ∧ x < j)) :
    (resolve D p).2[x]? = D[x]? := by
  obtain ⟨qs, hqs, hD, -⟩ := resolve_visits D p
  rw [hD]
  exact recordPlaces_of_ne fun q hq hid => hx (hp.within q (hqs.subset hq) x hid)

/-- After a successful analysis the nodes of a program have the distances of their places, if their
numbers were not in use. -/
theorem resolve_distance (hp : NumberedIn i j p.places) (hfresh : ∀ x : NodeId, i ≤ x → D[x]? = none)
    (h : resolve D p = (.ok (), E)) {q : Place} (hq : q ∈ p.places) {id : NodeId}
    (hid : q.id? = some id) : E[id]? = q.distance? := by
  obtain ⟨rfl, _⟩ := resolve_records h
  exact recordPlaces_getElem? (hfresh id (hp.within q hq id hid).1) hq hid
    fun r hr hrid => hp.agree r hr q hq id hrid hid

end

/-! ### Two programs -/

/-- Walks over programs that have been read side by side.  From the number `i` on, the distances
are the same. -/
def Scope.Walking.shifted {token : Token → Token → Prop}
    (lexeme : ∀ {t t' : Token}, token t t' → t'.lexeme = t.lexeme) (shift : Nat) (i : NodeId) :
    Walking where
  toTreeLikeness := shifting token shift
  extra := []
  distances D D' := ∀ x : NodeId, i ≤ x → D'[x + shift]? = D[x]?
  exact := True
  named h := h
  lexeme := lexeme
  whole := Walking.nothing_besides
  found {_ _ _ id id' t t' D D' d d'} hn hr hr' hD hd := by
    obtain ⟨-, u, hu, -⟩ := hn.1 id t hr
    obtain ⟨rfl, rfl⟩ := Prod.mk.inj (Option.some.inj (hr'.symm.trans hu))
    obtain rfl := hd rfl
    intro x hx
    cases d' with
    | none => exact hD x hx
    | some d =>
      have hiff : (id + shift == x + shift) = (id == x) := by simp
      rw [put, put, Std.HashMap.getElem?_insert, Std.HashMap.getElem?_insert, hiff, hD x hx]

/-- Programs that have been read side by side are analysed alike. -/
theorem resolve_alike {token : Token → Token → Prop}
    (lexeme : ∀ {t t' : Token}, token t t' → t'.lexeme = t.lexeme) {shift : Nat} {i j : NodeId}
    {p p' : Program} {D D' : Distances} (hp : stmtsMade token shift i j p p')
    (hD : ∀ x : NodeId, i ≤ x → D'[x + shift]? = D[x]?) :
    (Walking.shifted lexeme shift i).Analyses (resolve D p) (resolve D' p') :=
  (Walking.shifted lexeme shift i).resolve_along (hp true .top).1 hD

/-! ### One program after another -/

/-- What a walk says of a program. -/
def Scope.outcome : EStateM.Result ScopeError State Unit → Except ScopeError Unit × Distances
  | .ok _ s => (.ok (), s.distances)
  | .error e s => (.error e, s.distances)

theorem resolve_eq (D : Distances) (p : Program) :
    resolve D p = outcome (walkStmts ⟨.program, false⟩ p ⟨[[]], D⟩) := by
  have hwithin : within [] (walkStmts ⟨.program, false⟩ p) ⟨[], D⟩ =
      EStateM.bind (walkStmts ⟨.program, false⟩ p)
        (fun _ => modify fun s => { s with layers := s.layers.tail }) ⟨[[]], D⟩ := rfl
  unfold resolve
  rw [hwithin]
  unfold EStateM.bind
  cases walkStmts ⟨.program, false⟩ p ⟨[[]], D⟩ <;> rfl

theorem walkStmts_append (k : Context) (p q : List Stmt) :
    walkStmts k (p ++ q) = (walkStmts k p >>= fun _ => walkStmts k q) := by
  induction p with
  | nil =>
    rw [List.nil_append, walkStmts, pure_bind]
  | cons s p ih => rw [List.cons_append, walkStmts, walkStmts, ih, bind_assoc]

/-- A walk over one program, by itself and with more names in the outermost layer. -/
def Scope.Walking.alone (extra : Layer) : Walking where
  toTreeLikeness := shifting Eq 0
  extra := extra
  distances _ _ := True
  exact := False
  named h := h
  lexeme h := h ▸ rfl
  whole := False.elim
  found _ _ _ _ _ := trivial

/-- If two programs can be analysed one after the other, each can be analysed by itself. -/
theorem resolve_append {p q : Program} {i j : NodeId} {D F : Distances}
    (hq : stmtsMade Eq 0 i j q q) (h : resolve D (p ++ q) = (.ok (), F)) :
    (∃ E, resolve D p = (.ok (), E)) ∧ ∀ D', ∃ E', resolve D' q = (.ok (), E') := by
  rw [resolve_eq, walkStmts_append] at h
  change outcome (EStateM.bind (walkStmts ⟨.program, false⟩ p)
    (fun _ => walkStmts ⟨.program, false⟩ q) ⟨[[]], D⟩) = _ at h
  unfold EStateM.bind at h
  cases hp : walkStmts ⟨.program, false⟩ p ⟨[[]], D⟩ with
  | error e s =>
    rw [hp] at h
    cases h
  | ok u s =>
    refine ⟨⟨s.distances, by rw [resolve_eq, hp]; rfl⟩, fun D' => ?_⟩
    rw [hp] at h
    -- after the first program there is one layer, with the names it declares
    have hfits : Context.Fits ⟨.program, false⟩ .top := .program
    obtain ⟨rfl, _⟩ := (walkStmts_records hfits true p).result hp
    obtain ⟨r, hr⟩ : ∃ r, stmtsAfter true .top p = [r] := by
      have htail := (stmtsAfter_extends true .top p).tail
      have hregions := (stmtsAfter_extends true .top p).regions
      cases hctx : stmtsAfter true .top p with
      | nil =>
        rw [hctx] at hregions
        cases hregions
      | cons r ctx =>
        rw [hctx] at htail
        exact ⟨r, by rw [show ctx = [] from htail]⟩
    rw [hr] at h
    change outcome (walkStmts ⟨.program, false⟩ q ⟨Surroundings.layers [r], _⟩) = _ at h
    have hstart : (Walking.alone r.layer).States ⟨[[]], D'⟩
        ⟨Surroundings.layers [r], recordPlaces D (stmtsPlaces true .top p)⟩ :=
      ⟨.inr ⟨[], [], rfl, rfl⟩, trivial⟩
    have hwalk := (Walking.walkStmts_along (.alone r.layer) ⟨.program, false⟩ q
      (hq true .top).1).results hstart
    rw [resolve_eq]
    generalize walkStmts ⟨.program, false⟩ q ⟨[[]], D'⟩ = r₁,
      walkStmts ⟨.program, false⟩ q ⟨Surroundings.layers [r], _⟩ = r₂ at hwalk h
    cases hwalk with
    | ok _ => exact ⟨_, rfl⟩
    | failed _ => cases h

end ScopedScript
