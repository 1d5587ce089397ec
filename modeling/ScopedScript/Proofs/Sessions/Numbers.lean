import Mathlib
import ScopedScript.Proofs.Sessions.Histories

/-! # Numbers throughout a history

A tree that reaches the analysis has its numbers from the session, which hands out later ones from
then on, whether the analysis accepts the tree or not (`Session.Numbered`).  A tree that cannot be
scanned or parsed uses none up.  So two nodes of a history with the same number stand in the tree of
one run and are linked by copies, and what is recorded for a number is not touched again
(`Session.numbers_never_clash`). -/

namespace ScopedScript

/-- The distance of the variable node at a position. -/
def distanceAt (ps : List Place) (a : Nat) : Option Nat := ps[a]?.bind Place.distance?

namespace Session

/-- The tree that an action hands to the analysis, if it gets as far as that. -/
def handsOver (s : Session) : Action → List Program
  | .run _ name source =>
    match (s.scanSource name source).1 with
    | .error _ => []
    | .ok tokens =>
      match parseFrom s.nextId tokens with
      | .error _ => []
      | .ok (program, _) => [program]
  | .native _ _ _ _ | .takeOutput => []

/-- The trees that the runs of a history hand to the analysis, in order. -/
def trees (s : Session) : List Action → List Program
  | [] => []
  | a :: history => s.handsOver a ++ (s.perform a).trees history

/-- What becomes of numbers and distances when trees are handed to the analysis: at most one, whose
numbers are new. -/
inductive Numbered (s t : Session) : List Program → Prop
  | none : t.nextId = s.nextId → t.machine.distances = s.machine.distances → Numbered s t []
  | one {p : Program} : NumberedIn s.nextId t.nextId p.places →
      t.machine.distances = (resolve s.machine.distances p).2 → Numbered s t [p]

namespace Numbered

variable {s t : Session} {ps : List Program}

theorem le (h : Numbered s t ps) : s.nextId ≤ t.nextId := by
  cases h with
  | none hid _ => exact Nat.le_of_eq hid.symm
  | one hnum _ => exact hnum.le

theorem within (h : Numbered s t ps) {p : Program} (hp : p ∈ ps) :
    NumberedIn s.nextId t.nextId p.places := by
  cases h with
  | none _ _ => cases hp
  | one hnum _ =>
    obtain rfl := List.mem_singleton.1 hp
    exact hnum

/-- Older numbers keep their distances. -/
theorem kept (h : Numbered s t ps) {id : NodeId} (hid : id < s.nextId) :
    t.machine.distances[id]? = s.machine.distances[id]? := by
  cases h with
  | none _ hD => rw [hD]
  | one hnum hD =>
    rw [hD]
    exact resolve_of_outside hnum fun hin => absurd hin.1 (Nat.not_le.2 hid)

/-- The places that the analysis of the tree comes to. -/
theorem visits (h : Numbered s t ps) {p : Program} (hp : p ∈ ps) :
    ∃ qs, qs <+: p.places ∧ t.machine.distances = recordPlaces s.machine.distances qs ∧
      ((resolve s.machine.distances p).1 = .ok () → qs = p.places) := by
  cases h with
  | none _ _ => cases hp
  | one _ hD =>
    obtain rfl := List.mem_singleton.1 hp
    rw [hD]
    exact resolve_visits s.machine.distances p

end Numbered

section

variable {s : Session} {programs : List Program}

theorem handsOver_of_scanned {fuel : Nat} {name source : String} {tokens : List Token}
    {s₁ : Session} (hscan : s.scanSource name source = (.ok tokens, s₁)) :
    s.handsOver (.run fuel name source) =
      match parseFrom s.nextId tokens with
      | .error _ => []
      | .ok (program, _) => [program] := by
  rw [handsOver, hscan]

/-- A program that is accepted is the tree that the analysis was handed. -/
theorem handsOver_of_accepts {a : Action} {p : Program} (h : p ∈ s.accepts a) :
    s.handsOver a = [p] ∧ (resolve s.machine.distances p).1 = .ok () := by
  cases a with
  | native _ _ _ _ | takeOutput => cases h
  | run fuel name source =>
    have hloaded := load_loaded s name source
    rw [accepts] at h
    generalize s.load name source = r at hloaded h
    cases hloaded with
    | scan _ | parse _ _ | unfinished _ _ _ | scope _ _ _ => cases h
    | accepted hscan hparse hres =>
      obtain rfl := List.mem_singleton.1 h
      rw [handsOver_of_scanned hscan, hparse, hres]
      exact ⟨rfl, rfl⟩

/-- Running a program changes neither the numbers nor the distances. -/
theorem Sound.execute_keeps (h : s.Sound programs) (fuel : Nat) {p : Program}
    (hp : stmtsAlike (Likeness.ofPrograms programs s.machine.distances).toTreeLikeness true .top
      p p) : (s.execute fuel p).2.nextId = s.nextId ∧
        (s.execute fuel p).2.machine.distances = s.machine.distances := by
  obtain ⟨m, hm, halike, -⟩ := h.executed fuel hp
  have hleft : m.distances = s.machine.distances := halike.left
  rw [hm]
  exact ⟨rfl, hleft⟩

/-- One action. -/
theorem Sound.numbered_perform (h : s.Sound programs) (a : Action) :
    Numbered s (s.perform a) (s.handsOver a) := by
  cases a with
  | native name arity f held => exact .none rfl rfl
  | takeOutput => exact .none rfl rfl
  | run fuel name source =>
    obtain ⟨hmachine, hid, -⟩ := scanSource_machine s name source
    have hloaded := load_loaded s name source
    have hsound := h.load name source
    have halike := fun program s₁ => @Sound.accepted_alike _ _ h name source program s₁
    rw [Session.perform, Session.run]
    generalize hload : s.load name source = r at hloaded hsound halike
    cases hloaded with
    | scan hscan =>
      rw [hscan] at hmachine hid
      rw [handsOver, hscan]
      exact .none hid (congrArg Machine.distances hmachine)
    | parse hscan hparse | unfinished hscan hparse _ =>
      rw [hscan] at hmachine hid
      rw [handsOver_of_scanned hscan, hparse]
      exact .none hid (congrArg Machine.distances hmachine)
    | scope hscan hparse hres =>
      rw [handsOver_of_scanned hscan, hparse]
      obtain ⟨-, hnum⟩ := parseFrom_numbered hparse true .top
      exact .one hnum (congrArg Prod.snd hres).symm
    | accepted hscan hparse hres =>
      rw [handsOver_of_scanned hscan, hparse]
      obtain ⟨-, hnum⟩ := parseFrom_numbered hparse true .top
      obtain ⟨hid', hD⟩ := hsound.execute_keeps fuel (halike _ _ rfl)
      refine .one ?_ (hD.trans (congrArg Prod.snd hres).symm)
      rw [hid']
      exact hnum

/-- The numbers of a history's trees are those that the session hands out in it. -/
theorem Sound.trees_within (h : s.Sound programs) (history : List Action) :
    s.nextId ≤ (s.after history).nextId ∧
      ∀ p ∈ s.trees history, ∀ q ∈ Program.places p, ∀ id : Nat, q.id? = some id →
        s.nextId ≤ id ∧ id < (s.after history).nextId := by
  induction history generalizing s programs with
  | nil => exact ⟨Nat.le_refl _, by simp [trees]⟩
  | cons a history ih =>
    have hstep := h.numbered_perform a
    obtain ⟨hle, hwithin⟩ := ih (h.perform a)
    refine ⟨Nat.le_trans hstep.le hle, fun p hp q hq id hid => ?_⟩
    rcases List.mem_append.1 hp with hp | hp
    · obtain ⟨hlow, hhigh⟩ := (hstep.within hp).within q hq id hid
      exact ⟨hlow, Nat.lt_of_lt_of_le hhigh hle⟩
    · obtain ⟨hlow, hhigh⟩ := hwithin p hp q hq id hid
      exact ⟨Nat.le_trans hstep.le hlow, hhigh⟩

/-- A history does not touch the distances of older numbers. -/
theorem Sound.after_keeps (h : s.Sound programs) (history : List Action) {id : NodeId}
    (hid : id < s.nextId) : (s.after history).machine.distances[id]? = s.machine.distances[id]? := by
  induction history generalizing s programs with
  | nil => rfl
  | cons a history ih =>
    have hstep := h.numbered_perform a
    exact (ih (h.perform a) (Nat.lt_of_lt_of_le hid hstep.le)).trans (hstep.kept hid)

/-- Nodes of a history's trees with the same number stand in the same tree and are linked. -/
theorem Sound.same_tree (h : s.Sound programs) (history : List Action) {m n a b : Nat}
    {p q : Program} {id : NodeId} (hm : (s.trees history)[m]? = some p)
    (hn : (s.trees history)[n]? = some q) (ha : idAt p.places a = some id)
    (hb : idAt q.places b = some id) :
    m = n ∧ ∃ i j, NumberedIn i j p.places := by
  induction history generalizing s programs m n with
  | nil => cases hm
  | cons x history ih =>
    have hstep := h.numbered_perform x
    obtain ⟨-, hlater⟩ := (h.perform x).trees_within history
    obtain ⟨v, hv, -, hvid⟩ := mem_of_idAt ha
    obtain ⟨w, hw, -, hwid⟩ := mem_of_idAt hb
    rw [trees, List.getElem?_append] at hm hn
    split at hm <;> split at hn
    · next hlm hln =>
      -- an action hands over one tree at most
      have hone : m = n := by
        cases hands : s.handsOver x with
        | nil => rw [hands] at hlm; cases hlm
        | cons p₀ rest =>
          rw [hands] at hstep hlm hln
          cases hstep with
          | one _ _ =>
            rw [List.length_singleton] at hlm hln
            omega
      exact ⟨hone, _, _, hstep.within (List.mem_of_getElem? hm)⟩
    · have hlt := ((hstep.within (List.mem_of_getElem? hm)).within v hv id hvid).2
      have hge := (hlater q (List.mem_of_getElem? hn) w hw id hwid).1
      exact absurd hlt (Nat.not_lt.2 hge)
    · have hlt := ((hstep.within (List.mem_of_getElem? hn)).within w hw id hwid).2
      have hge := (hlater p (List.mem_of_getElem? hm) v hv id hvid).1
      exact absurd hlt (Nat.not_lt.2 hge)
    · obtain ⟨hmn, hnum⟩ := ih (h.perform x) hm hn
      exact ⟨by omega, hnum⟩

end

/-- Numbers never clash.  Two variable nodes of a history's trees with the same number stand in the
tree of one run, at positions that a chain of copies leads from one to the other, and are equally far
from the declaration of their variable.

The analysis of a tree comes to its nodes in order, to all of them if it accepts the tree, and
records at each the distance of its place; nothing that comes later in the history, whatever becomes
of it, touches what is recorded for the nodes of the tree. -/
theorem numbers_never_clash (prelude : Bool) (input : List UInt8) (limit : Option Nat)
    (clock : Clock) (history : List Action) :
    (∀ (m n a b : Nat) (p q : Program) (id : NodeId),
      ((start prelude input limit clock).trees history)[m]? = some p →
      ((start prelude input limit clock).trees history)[n]? = some q →
      idAt p.places a = some id → idAt q.places b = some id →
      m = n ∧ Linked p.places a b ∧ distanceAt p.places a = distanceAt q.places b) ∧
    ∀ (earlier later : List Action) (action : Action) (p : Program),
      history = earlier ++ action :: later →
      p ∈ ((start prelude input limit clock).after earlier).handsOver action →
      ∃ visited, visited <+: p.places ∧
        (p ∈ ((start prelude input limit clock).after earlier).accepts action →
          visited = p.places) ∧
        (∀ q ∈ visited, ∀ id, q.id? = some id →
          ((start prelude input limit clock).after (earlier ++ [action])).machine.distances[id]? =
            q.distance?) ∧
        ∀ q ∈ p.places, ∀ id, q.id? = some id →
          ((start prelude input limit clock).after history).machine.distances[id]? =
            ((start prelude input limit clock).after
              (earlier ++ [action])).machine.distances[id]? := by
  have hstart := sound_start prelude input limit clock
  generalize start prelude input limit clock = s at hstart
  constructor
  · intro m n a b p q id hm hn ha hb
    obtain ⟨rfl, i, j, hnum⟩ := hstart.same_tree history hm hn ha hb
    obtain rfl := Option.some.inj (hm.symm.trans hn)
    refine ⟨rfl, hnum.sole a b id ha hb, ?_⟩
    obtain ⟨v, hv, hav, hvid⟩ := mem_of_idAt ha
    obtain ⟨w, hw, hbw, hwid⟩ := mem_of_idAt hb
    rw [distanceAt, distanceAt, hav, hbw]
    exact hnum.agree v hv w hw id hvid hwid
  · rintro earlier later action p rfl hp
    have hearlier := hstart.after earlier
    have hstep := hearlier.numbered_perform action
    have hnum := hstep.within hp
    have hafter : s.after (earlier ++ [action]) = (s.after earlier).perform action := by
      rw [after_append]
      rfl
    obtain ⟨visited, hvisits, hD, hall⟩ := hstep.visits hp
    refine ⟨visited, hvisits, fun hacc => hall (handsOver_of_accepts hacc).2, ?_, ?_⟩
    · intro q hq id hid
      have hplace := hvisits.subset hq
      rw [hafter, hD]
      refine recordPlaces_getElem? (hearlier.fresh id (hnum.within q hplace id hid).1) hq hid ?_
      intro r hr hrid
      exact hnum.agree r (hvisits.subset hr) q hplace id hrid hid
    · intro q hq id hid
      have hlater : s.after (earlier ++ action :: later) =
          ((s.after earlier).perform action).after later := by
        rw [after_append]
        rfl
      rw [hlater, hafter]
      exact (hearlier.perform action).after_keeps later (hnum.within q hq id hid).2

/-! ### A compound assignment -/

/-- A block that declares a variable and adds it to a property of its own. -/
def addToProperty : Program :=
  let a := Token.make .name "a" 1 11 6 none
  let b := Token.make .name "b" 1 13 8 none
  [.block [
    .variable (.make .name "a" 1 6 2 none) .let_ none
      (some (.expression (.literal .emptyObject .emptyObject) (.make .assign "=" 1 7 3 none))),
    .expression (.set (.name 0 a) b (.binary (.get (.name 0 a) b)
      (.derived .plus "+" (.make .plusAssign "+=" 1 14 9 none))
      (.name 1 (.make .name "a" 1 16 10 none)))) a]]

set_option maxRecDepth 100000 in
theorem addToProperty_spelled : ∃ tokens,
    tokenizeFrom 1 "\x7blet a=\x7b\x7d;a.b+=a\x7d" = .ok tokens ∧
    parseFrom 0 tokens = .ok (addToProperty, 2) :=
  ⟨_, by cbv, by cbv⟩

/-- The object `a` of the assignment stands at two places, with one number; what is recorded for it
is not touched by a source that cannot be scanned. -/
theorem addToProperty_numbered :
    ((start false [] none (.still 0)).trees
      [.run 0 "main" "\x7blet a=\x7b\x7d;a.b+=a\x7d", .run 0 "more" "$"])[0]? = some addToProperty ∧
    idAt addToProperty.places 8 = some 0 ∧ idAt addToProperty.places 10 = some 0 ∧
    Linked addToProperty.places 8 10 ∧
    ((start false [] none (.still 0)).after [.run 0 "main" "\x7blet a=\x7b\x7d;a.b+=a\x7d",
      .run 0 "more" "$"]).machine.distances[(0 : NodeId)]? = some 0 := by
  obtain ⟨tokens, htokens, hparse⟩ := addToProperty_spelled
  obtain ⟨s, hload, -⟩ :=
    load_of_ready (s := start false [] none (.still 0)) rfl "main" htokens hparse rfl
  have haccepts : addToProperty ∈ (start false [] none (.still 0)).accepts
      (.run 0 "main" "\x7blet a=\x7b\x7d;a.b+=a\x7d") := by
    rw [accepts, hload]
    exact List.mem_singleton_self _
  obtain ⟨hhands, -⟩ := handsOver_of_accepts haccepts
  have hfirst : ((start false [] none (.still 0)).trees
      [.run 0 "main" "\x7blet a=\x7b\x7d;a.b+=a\x7d", .run 0 "more" "$"])[0]? =
        some addToProperty := by
    rw [trees, hhands]
    rfl
  have hread : (addToProperty.places)[8]? = some _ := rfl
  have hmem := List.mem_of_getElem? hread
  have hclash := numbers_never_clash false [] none (.still 0)
    [.run 0 "main" "\x7blet a=\x7b\x7d;a.b+=a\x7d", .run 0 "more" "$"]
  obtain ⟨-, hlinked, -⟩ := hclash.1 0 0 8 10 _ _ 0 hfirst hfirst rfl rfl
  obtain ⟨visited, -, hall, hrecorded, hkept⟩ := hclash.2 [] [.run 0 "more" "$"] _ _ rfl
    (by rw [after, List.foldl_nil, hhands]; exact List.mem_singleton_self _)
  refine ⟨hfirst, rfl, rfl, hlinked, (hkept _ hmem 0 rfl).trans ?_⟩
  exact hrecorded _ (by rw [hall haccepts]; exact hmem) 0 rfl

end Session

end ScopedScript
