import ScopedScript.Fault
import ScopedScript.Value.Equality

/-! # Functions of the host

Beside the natives that every program can use, a host registers functions of its own.  What such a
function does is the host's affair: a `HostFunction` takes the token of the call, its arguments and
the heap, and comes to a value or an error and to the heap that it leaves.

* **What is held.** What a function keeps from one call to the next is in a value of its own, which is
  on the heap like all others.  A list there is a memory that calls can read and write.
* **What is seen.** Numbers, strings, truth values, `null` and `undefined` are open to a host, and it
  may read and change lists and objects.  Functions, methods, natives, classes and instances are
  *sealed*: a host can keep them, hand them on, compare them and take their text, but nothing lets it
  look inside.  So it does the same with values that it cannot tell apart (`HostFunction.blind`).
* **Errors.** An error has a message and a token, which need not be that of the call.  Its kind is that
  of the errors of natives.
* **What is left out.** A call has no effect but on the heap: it takes no part in what the session
  reads and writes, and it registers no further functions.

Nothing more is taken for granted.  Whether a function looks at the place of its call, or reports its
errors there, is for those to say who rely on it. -/

namespace ScopedScript

/-! ### What a host cannot tell apart -/

/-- Is the inside of the value hidden from hosts? -/
def Value.isSealed : Value → Bool
  | .function _ | .method _ | .native _ | .cls _ | .instance _ => true
  | _ => false

/-- What is sealed can be told from the name of the type. -/
theorem Value.isSealed_eq (v : Value) :
    v.isSealed = (v.typeName == "function" || v.typeName == "class" || v.typeName == "instance") := by
  cases v <;> simp [isSealed, typeName]

/-- A relation that no host can tell from equality: what is not sealed is related to itself alone, and
sealed values to some that look the same and compare the same. -/
structure Indiscernible (rel : Value → Value → Prop) : Prop where
  plain : ∀ {v : Value}, v.isSealed = false → rel v v
  eq_of_plain : ∀ {v v' : Value}, rel v v' → v.isSealed = false → v' = v
  typeName : ∀ {v v' : Value}, rel v v' → v'.typeName = v.typeName
  closedText : ∀ {v v' : Value}, rel v v' → v'.closedText = v.closedText
  same : ∀ {v v' w w' : Value}, rel v v' → rel w w' →
    Value.sameClosed v' w' = Value.sameClosed v w

/-- Rows of one length, with what is related in the same places. -/
def RowsRelated {α β : Type} (rel : α → β → Prop) (xs : List α) (ys : List β) : Prop :=
  ∀ i : Nat, Option.Rel rel xs[i]? ys[i]?

/-- Heaps with the same lists and records, of values that are related. -/
structure Heap.Related (rel : Value → Value → Prop) (h h' : Heap) : Prop where
  lists : RowsRelated (fun xs ys => RowsRelated rel xs.toList ys.toList) h.lists.toList h'.lists.toList
  records : RowsRelated (RowsRelated fun p q => q.1 = p.1 ∧ rel p.2 q.2) h.records.toList
    h'.records.toList

namespace RowsRelated

variable {α β γ : Type} {rel : α → β → Prop} {xs : List α} {ys : List β}

theorem nil : RowsRelated rel [] [] := fun _ => .none

theorem cons {x : α} {y : β} (h : rel x y) (hs : RowsRelated rel xs ys) :
    RowsRelated rel (x :: xs) (y :: ys)
  | 0 => .some h
  | i + 1 => hs i

/-- A row is related to itself if its entries are. -/
theorem refl {rel : α → α → Prop} (h : ∀ x ∈ xs, rel x x) : RowsRelated rel xs xs := by
  intro i
  cases hx : xs[i]? with
  | none => exact .none
  | some x => exact .some (h x (List.mem_of_getElem? hx))

theorem length_eq (h : RowsRelated rel xs ys) : ys.length = xs.length := by
  have hle : ∀ {n m : Nat}, (∀ i, m ≤ i ↔ n ≤ i) → n = m := fun h =>
    Nat.le_antisymm ((h _).1 (Nat.le_refl _)) ((h _).2 (Nat.le_refl _))
  refine hle fun i => ?_
  rw [← List.getElem?_eq_none_iff, ← List.getElem?_eq_none_iff]
  have hi := h i
  generalize xs[i]? = x, ys[i]? = y at hi
  cases hi <;> simp

/-- What is the same of related entries is the same of the rows. -/
theorem map_eq {f : α → γ} {g : β → γ} (h : RowsRelated rel xs ys)
    (hfg : ∀ x y, rel x y → g y = f x) : ys.map g = xs.map f := by
  refine List.ext_getElem? fun i => ?_
  rw [List.getElem?_map, List.getElem?_map]
  have hi := h i
  generalize xs[i]? = x, ys[i]? = y at hi
  cases hi with
  | none => rfl
  | some hxy => exact congrArg some (hfg _ _ hxy)

/-- The entries of a place, or what stands for them where there are none. -/
theorem getD (h : RowsRelated rel xs ys) (i : Nat) {x : α} {y : β} (hxy : rel x y) :
    rel (xs[i]?.getD x) (ys[i]?.getD y) := by
  have hi := h i
  generalize xs[i]? = x, ys[i]? = y at hi
  cases hi with
  | none => exact hxy
  | some h => exact h

end RowsRelated

section

variable {rel : Value → Value → Prop} {h h' : Heap} {v v' : Value}

theorem Heap.Related.elements (hh : h.Related rel h') (ref : Ref) :
    RowsRelated rel (h.elements ref).toList (h'.elements ref).toList := by
  have hd := hh.lists.getD ref (x := #[]) (y := #[]) .nil
  simpa [Heap.elements, Array.getD_eq_getD_getElem?] using hd

theorem Heap.Related.record (hh : h.Related rel h') (ref : Ref) :
    RowsRelated (fun p q => q.1 = p.1 ∧ rel p.2 q.2) (h.record ref) (h'.record ref) := by
  have hd := hh.records.getD ref (x := []) (y := []) .nil
  simpa [Heap.record, Array.getD_eq_getD_getElem?] using hd

theorem Indiscernible.isSealed (hrel : Indiscernible rel) (hv : rel v v') :
    v'.isSealed = v.isSealed := by
  rw [Value.isSealed_eq, Value.isSealed_eq, hrel.typeName hv]

theorem Indiscernible.textWithin (hrel : Indiscernible rel) (hh : h.Related rel h') (budget : Nat)
    (chain : List Container) (hv : rel v v') :
    v'.textWithin h' budget chain = v.textWithin h budget chain := by
  induction budget generalizing chain v v' with
  | zero =>
    have hc := hrel.closedText hv
    simpa only [Value.textWithin] using hc
  | succ budget ih =>
    cases hs : v.isSealed with
    | true =>
      have hc := hrel.closedText hv
      have hs' := (hrel.isSealed hv).trans hs
      cases v <;> cases hs <;> cases v' <;> cases hs' <;> exact hc
    | false =>
      obtain rfl := hrel.eq_of_plain hv hs
      cases v' with
      | list ref =>
        simp only [Value.textWithin]
        rw [(hh.elements ref).map_eq fun x y hxy => ih (.list ref :: chain) hxy]
      | object ref =>
        simp only [Value.textWithin]
        rw [(hh.record ref).map_eq fun p q hpq => by rw [hpq.1, ih (.object ref :: chain) hpq.2]]
      | _ => rfl

/-- Values that no host can tell apart have the same text. -/
theorem Indiscernible.text (hrel : Indiscernible rel) (hh : h.Related rel h') (hv : rel v v') :
    v'.text h' = v.text h := by
  have hlists := hh.lists.length_eq
  have hrecords := hh.records.length_eq
  have hbound : Value.depthBound h' = Value.depthBound h := by
    simp only [Array.length_toList] at hlists hrecords
    rw [Value.depthBound, Value.depthBound, hlists, hrecords]
  unfold Value.text
  rw [hbound]
  exact hrel.textWithin hh _ _ hv

end

/-! ### Host functions -/

/-- An error that a host function reports. -/
structure HostError where
  message : String
  token : Token

/-- What a call of a host function comes to, and the heap that it leaves. -/
structure HostAnswer where
  result : Except HostError Value
  heap : Heap

/-- Related values, or errors with the same message at related tokens, and related heaps. -/
inductive HostAnswer.Related (rel : Value → Value → Prop) (reported : Token → Token → Prop) :
    HostAnswer → HostAnswer → Prop
  | value {v v' : Value} {h h' : Heap} : rel v v' → h.Related rel h' →
      HostAnswer.Related rel reported ⟨.ok v, h⟩ ⟨.ok v', h'⟩
  | error (message : String) {t t' : Token} {h h' : Heap} : reported t t' → h.Related rel h' →
      HostAnswer.Related rel reported ⟨.error ⟨message, t⟩, h⟩ ⟨.error ⟨message, t'⟩, h'⟩

/-- A function of the host. -/
structure HostFunction where
  /-- What a call comes to, from its token, the value that the function holds, the arguments and the
  heap. -/
  run : (site : Token) → (held : Value) → (args : List Value) → Heap → HostAnswer
  /-- From values that the host cannot tell apart, it comes to values that it cannot tell apart. -/
  blind : ∀ {rel : Value → Value → Prop}, Indiscernible rel → ∀ (site : Token) {held held' : Value}
    {args args' : List Value} {h h' : Heap}, rel held held' → RowsRelated rel args args' →
    h.Related rel h' → (run site held args h).Related rel Eq (run site held' args' h')

/-! ### Functions of some kinds -/

/-- A value that is all that there is to it. -/
inductive Scalar where
  | null
  | undefined
  | bool (value : Bool)
  | num (value : Float)
  | str (value : String)
  deriving Inhabited

/-- The scalar as a value. -/
def Scalar.toValue : Scalar → Value
  | .null => .null
  | .undefined => .undefined
  | .bool b => .bool b
  | .num x => .num x
  | .str s => .str s

theorem Scalar.isSealed_toValue (s : Scalar) : s.toValue.isSealed = false := by cases s <;> rfl

/-- The scalar that a value is. -/
def Value.scalar? : Value → Option Scalar
  | .null => some .null
  | .undefined => some .undefined
  | .bool b => some (.bool b)
  | .num x => some (.num x)
  | .str s => some (.str s)
  | _ => none

/-- A value as it is seen from outside: the scalar that it is, if it is one, and its text. -/
structure Sight where
  scalar? : Option Scalar
  text : String

/-- What is seen of a value. -/
def Value.sight (h : Heap) (v : Value) : Sight := ⟨v.scalar?, v.text h⟩

theorem Indiscernible.sight {rel : Value → Value → Prop} (hrel : Indiscernible rel) {h h' : Heap}
    (hh : h.Related rel h') {v v' : Value} (hv : rel v v') : v'.sight h' = v.sight h := by
  have hscalar : v'.scalar? = v.scalar? := by
    cases hs : v.isSealed with
    | true =>
      have hs' := (hrel.isSealed hv).trans hs
      cases v <;> cases hs <;> cases v' <;> cases hs' <;> rfl
    | false => rw [hrel.eq_of_plain hv hs]
  rw [Value.sight, Value.sight, hscalar, hrel.text hh hv]

namespace HostFunction

/-- A function of the token and of what is seen of the arguments.  It leaves the heap as it is. -/
def ofSights (f : Token → List Sight → Except HostError Scalar) : HostFunction where
  run site _ args h := ⟨(f site (args.map (Value.sight h))).map Scalar.toValue, h⟩
  blind := by
    intro rel hrel site held held' args args' h h' _ hargs hh
    rw [hargs.map_eq fun v v' hv => hrel.sight hh hv]
    cases f site (args.map (Value.sight h)) with
    | ok s => exact .value (hrel.plain s.isSealed_toValue) hh
    | error e => exact .error e.message rfl hh

/-- Always the value that the function holds. -/
def constant : HostFunction where
  run _ held _ h := ⟨.ok held, h⟩
  blind _ _ _ _ _ _ _ _ hheld _ hh := .value hheld hh

/-- The first argument. -/
def first : HostFunction where
  run _ _ args h := ⟨.ok (args[0]?.getD .undefined), h⟩
  blind hrel _ _ _ _ _ _ _ _ hargs hh := .value (hargs.getD 0 (hrel.plain rfl)) hh

end HostFunction

end ScopedScript
