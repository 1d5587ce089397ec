import Mathlib
import ScopedScript.Host

/-! # What is relied on of a host

Two runs can be compared across the calls of a host function.  That values which the host cannot tell
apart make no difference is part of what a host function is (`HostFunction.blind`); that different
tokens make none is something to be asked of it.

* `HostFunction.Respects` says that tokens which are the same in some respect get the same answer.
  Together with blindness it relates what two calls come to (`HostFunction.Respects.related`).
* `HostFunction.IgnoresPlace` asks that the function does not look at the line or the index of its
  token, and `HostFunction.ReportsAtSite` that it reports errors at the call. -/

namespace ScopedScript

/-! ### Rows -/

theorem rowsRelated_iff {α β : Type} {rel : α → β → Prop} {xs : List α} {ys : List β} :
    RowsRelated rel xs ys ↔ List.Forall₂ rel xs ys := by
  constructor
  · intro h
    induction xs generalizing ys with
    | nil =>
      obtain rfl : ys = [] := List.length_eq_zero_iff.1 h.length_eq
      exact .nil
    | cons x xs ih =>
      cases ys with
      | nil => cases h.length_eq
      | cons y ys =>
        have h₀ := h 0
        cases h₀ with
        | some hxy => exact .cons hxy (ih fun i => h (i + 1))
  · intro h
    induction h with
    | nil => exact .nil
    | cons hxy _ ih => exact .cons hxy ih

/-- Heaps are related list by list and record by record. -/
theorem Heap.related_iff {rel : Value → Value → Prop} {h h' : Heap} : h.Related rel h' ↔
    List.Forall₂ (fun xs ys => List.Forall₂ rel xs.toList ys.toList)
        h.lists.toList h'.lists.toList ∧
      List.Forall₂ (List.Forall₂ fun p q => q.1 = p.1 ∧ rel p.2 q.2)
        h.records.toList h'.records.toList := by
  constructor
  · exact fun hh => ⟨(rowsRelated_iff.1 hh.lists).imp fun _ _ => rowsRelated_iff.1,
      (rowsRelated_iff.1 hh.records).imp fun _ _ => rowsRelated_iff.1⟩
  · rintro ⟨hlists, hrecords⟩
    exact ⟨rowsRelated_iff.2 (hlists.imp fun _ _ => rowsRelated_iff.2),
      rowsRelated_iff.2 (hrecords.imp fun _ _ => rowsRelated_iff.2)⟩

theorem RowsRelated.self {α : Type} {rel : α → α → Prop} {xs : List α} (h : RowsRelated rel xs xs)
    {x : α} (hx : x ∈ xs) : rel x x :=
  List.forall₂_same.1 (rowsRelated_iff.1 h) x hx

theorem Heap.Related.eq {h h' : Heap} (hh : h.Related Eq h') : h' = h := by
  obtain ⟨lists, records⟩ := h
  obtain ⟨lists', records'⟩ := h'
  have hrows : ∀ {α : Type} {xs ys : List α}, RowsRelated Eq xs ys → ys = xs := fun h => by
    simpa using h.map_eq (f := id) (g := id) fun _ _ hxy => hxy.symm
  have hlists : lists'.toList = lists.toList := by
    simpa using hh.lists.map_eq (f := id) (g := id) fun xs ys hxy => Array.toList_inj.1 (hrows hxy)
  have hrecords : records'.toList = records.toList := by
    simpa using hh.records.map_eq (f := id) (g := id) fun r r' hr =>
      by simpa using hr.map_eq (f := id) (g := id) fun p q hpq => Prod.ext hpq.1 hpq.2.symm
  rw [Array.toList_inj.1 hlists, Array.toList_inj.1 hrecords]

theorem Heap.Related.refl {rel : Value → Value → Prop} {h : Heap}
    (hlists : ∀ xs ∈ h.lists, ∀ v ∈ xs, rel v v) (hrecords : ∀ r ∈ h.records, ∀ p ∈ r, rel p.2 p.2) :
    h.Related rel h where
  lists := .refl fun xs hxs => .refl fun v hv =>
    hlists xs (Array.mem_toList_iff.1 hxs) v (Array.mem_toList_iff.1 hv)
  records := .refl fun r hr => .refl fun p hp => ⟨rfl, hrecords r (Array.mem_toList_iff.1 hr) p hp⟩

/-! ### Tokens -/

/-- The answer with the token of an error moved. -/
def HostAnswer.moved (move : Token → Token) (answer : HostAnswer) : HostAnswer :=
  { answer with result := answer.result.mapError fun e => { e with token := move e.token } }

section

variable {reported : Token → Token → Prop} {answer : HostAnswer}

theorem HostAnswer.related_moved {move : Token → Token}
    (h : ∀ e, answer.result = .error e → reported e.token (move e.token)) :
    answer.Related Eq reported (answer.moved move) := by
  have hh : answer.heap.Related Eq answer.heap := .refl (fun _ _ _ _ => rfl) fun _ _ _ _ => rfl
  obtain ⟨result, heap⟩ := answer
  cases result with
  | ok v => exact .value rfl hh
  | error e => exact .error e.message (h e rfl) hh

theorem HostAnswer.moved_id : answer.moved id = answer := by
  obtain ⟨result, heap⟩ := answer
  cases result <;> rfl

end

namespace HostFunction

variable {same reported : Token → Token → Prop} {f : HostFunction}

/-- Called with tokens that are the same in this respect, the function does the same; errors are
reported at tokens that correspond. -/
def Respects (f : HostFunction) (same reported : Token → Token → Prop) : Prop :=
  ∀ ⦃t t' : Token⦄, same t t' → ∀ (held : Value) (args : List Value) (h : Heap),
    (f.run t held args h).Related Eq reported (f.run t' held args h)

/-- The function does not look at the line or the index of the token: given another line and another
index it does the same, and its error is on that line and has that index. -/
def IgnoresPlace (f : HostFunction) : Prop :=
  ∀ (site : Token) (line index : Nat) (held : Value) (args : List Value) (h : Heap),
    f.run { site with line := line, index := index } held args h =
      (f.run site held args h).moved fun t => { t with line := line, index := index }

/-- The function reports errors at the token of the call. -/
def ReportsAtSite (f : HostFunction) : Prop :=
  ∀ (site : Token) (held : Value) (args : List Value) (h : Heap) (e : HostError),
    (f.run site held args h).result = .error e → e.token = site

/-- The same token gets the same answer. -/
theorem respects_of_eq (hsame : ∀ {t t'}, same t t' → t' = t) (hreported : ∀ t, reported t t) :
    f.Respects same reported := by
  intro t t' ht held args h
  obtain rfl := hsame ht
  have hanswer : (f.run t' held args h).Related Eq reported ((f.run t' held args h).moved id) :=
    HostAnswer.related_moved fun _ _ => hreported _
  rwa [HostAnswer.moved_id] at hanswer

theorem respects_eq (f : HostFunction) : f.Respects Eq Eq := respects_of_eq Eq.symm fun _ => rfl

/-- Errors at the token of the call are at tokens that are the same. -/
theorem ReportsAtSite.respects (hf : f.ReportsAtSite) (hsame : ∀ {t t'}, same t t' → t' = t) :
    f.Respects same same := by
  intro t t' ht held args h
  obtain rfl := hsame ht
  have hanswer : (f.run t' held args h).Related Eq same ((f.run t' held args h).moved id) :=
    HostAnswer.related_moved fun e he => by rwa [id, hf t' held args h e he]
  rwa [HostAnswer.moved_id] at hanswer

/-- A function that does not look at the place reports errors at the place of the call. -/
theorem IgnoresPlace.error_at (hf : f.IgnoresPlace) {site : Token} {held : Value}
    {args : List Value} {h : Heap} {e : HostError} (he : (f.run site held args h).result = .error e) :
    e.token.line = site.line ∧ e.token.index = site.index := by
  have hresult := congrArg HostAnswer.result (hf site site.line site.index held args h)
  dsimp only [HostAnswer.moved] at hresult
  rw [he] at hresult
  have htoken : e.token = { e.token with line := site.line, index := site.index } :=
    congrArg HostError.token (Except.error.inj hresult)
  rw [htoken]
  exact ⟨rfl, rfl⟩

/-- Tokens that differ in their place alone are the same to it. -/
theorem IgnoresPlace.respects (hf : f.IgnoresPlace)
    (hsame : ∀ {t t'}, same t t' → ∃ line index, t' = { t with line := line, index := index } ∧
      ∀ u : Token, u.line = t.line → u.index = t.index →
        same u { u with line := line, index := index }) : f.Respects same same := by
  intro t t' ht held args h
  obtain ⟨line, index, rfl, hmove⟩ := hsame ht
  rw [hf t line index held args h]
  exact HostAnswer.related_moved fun e he => hmove e.token (hf.error_at he).1 (hf.error_at he).2

/-- Calls with tokens that are the same, on what the host cannot tell apart. -/
theorem Respects.related (hf : f.Respects same reported) {rel : Value → Value → Prop}
    (hrel : Indiscernible rel) {t t' : Token} (ht : same t t') {held held' : Value}
    (hheld : rel held held') {args args' : List Value} (hargs : List.Forall₂ rel args args')
    {h h' : Heap} (hh : h.Related rel h') :
    (f.run t held args h).Related rel reported (f.run t' held' args' h') := by
  have hsame := hf ht held args h
  have hblind := f.blind hrel t' hheld (rowsRelated_iff.2 hargs) hh
  generalize f.run t held args h = a, f.run t' held args h = b, f.run t' held' args' h' = c
    at hsame hblind
  cases hsame with
  | value hv hg =>
    obtain rfl := hv
    obtain rfl := hg.eq
    cases hblind with
    | value hv hh => exact .value hv hh
  | error message ht hg =>
    obtain rfl := hg.eq
    cases hblind with
    | error _ heq hh =>
      obtain rfl := heq
      exact .error message ht hh

/-! ### Functions that look at their arguments alone -/

/-- A function of what is seen of the arguments.  It reports errors at the token of the call. -/
def plain (f : List Sight → Except String Scalar) : HostFunction :=
  ofSights fun site seen => (f seen).mapError fun message => ⟨message, site⟩

/-- The text of the argument with an exclamation mark. -/
def shout : HostFunction := plain fun seen => .ok (.str ((seen.map Sight.text).headD "" ++ "!"))

/-- Twice the argument, if that is a number. -/
def double : HostFunction := plain fun seen =>
  match seen.head?.bind Sight.scalar? with
  | some (.num x) => .ok (.num (x * 2))
  | _ => .ok .undefined

section

variable {g : List Sight → Except String Scalar}

theorem run_plain (site : Token) (held : Value) (args : List Value) (h : Heap) :
    (plain g).run site held args h =
      ⟨((g (args.map (Value.sight h))).mapError fun message => ⟨message, site⟩).map Scalar.toValue,
        h⟩ := rfl

theorem plain_ignoresPlace : (plain g).IgnoresPlace := by
  intro site line index held args h
  rw [run_plain, run_plain]
  cases g (args.map (Value.sight h)) <;> rfl

theorem plain_reportsAtSite : (plain g).ReportsAtSite := by
  intro site held args h e he
  rw [run_plain] at he
  cases hg : g (args.map (Value.sight h)) with
  | ok s =>
    rw [hg] at he
    cases he
  | error message =>
    rw [hg] at he
    obtain rfl := Except.error.inj he
    rfl

/-- No token makes a difference. -/
theorem plain_respects : (plain g).Respects same same := by
  intro t t' ht held args h
  have hh : h.Related Eq h := .refl (fun _ _ _ _ => rfl) fun _ _ _ _ => rfl
  rw [run_plain, run_plain]
  cases g (args.map (Value.sight h)) with
  | ok s => exact .value rfl hh
  | error message => exact .error message ht hh

end

end HostFunction

end ScopedScript
