import ScopedScript.Proofs.Equality

/-! # The text of cyclic values

A list or object may contain itself.  `Printing` says how a value is written, with no bound on how
deep that goes: what is no container has a text by itself (`Leaf`), a container inside of which the
writing already is gets a mark (`Container.mark`), and any other one is entered
(`Container.framed`).  The writing always ends (`printing_text`), because a container that is entered
was not in the row before and is on the heap, so the bound on the depth is never reached. -/

namespace ScopedScript

namespace Value

/-- The container that a value is. -/
def container? : Value → Option Container
  | .list ref => some (.list ref)
  | .object ref => some (.object ref)
  | _ => none

/-- The text of a value that is no container. -/
inductive Leaf : Value → String → Prop
  | num (x : Float) : Leaf (.num x) (Number.text x)
  | str (s : String) : Leaf (.str s) s
  | true : Leaf (.bool true) "true"
  | false : Leaf (.bool false) "false"
  | null : Leaf .null "null"
  | undefined : Leaf .undefined "undefined"
  | anonymous {f : Closure} : f.anonymous = true → Leaf (.function f) "<anonymous function>"
  | function {f : Closure} : f.anonymous = false →
      Leaf (.function f) ("<function " ++ f.declaration.name.lexeme ++ ">")
  | method (m : Method) : Leaf (.method m) ("<function " ++ m.declaration.name.lexeme ++ ">")
  | native (n : Native) : Leaf (.native n) ("<native fn " ++ n.name ++ ">")
  | cls (c : Class) : Leaf (.cls c) ("<class " ++ c.declaration.name.lexeme ++ ">")
  | instance (i : Instance) :
      Leaf (.instance i) ("<" ++ i.cls.declaration.name.lexeme ++ " instance>")

end Value

/-- The mark for a container inside of which the writing already is. -/
def Container.mark : Container → String
  | .list _ => "[...]"
  | .object _ => "\x7b...\x7d"

/-- The text of a container, from the texts of the values in it. -/
def Container.framed (h : Heap) (part : Value → String) : Container → String
  | .list ref => "[" ++ String.intercalate ", " ((h.elements ref).toList.map part) ++ "]"
  | .object ref =>
    "\x7b" ++ String.intercalate ", " ((h.record ref).map fun p => p.1 ++ ": " ++ part p.2) ++ "\x7d"

namespace Value

/-- The writing of a value inside the containers of `chain`, with the text that is written. -/
inductive Printing (h : Heap) : List Container → Value → String → Prop
  | leaf {chain : List Container} {v : Value} {s : String} : v.Leaf s → Printing h chain v s
  | repeated {chain : List Container} {v : Value} {c : Container} :
      v.container? = some c → c ∈ chain → Printing h chain v c.mark
  | entered {chain : List Container} {v : Value} {c : Container} {part : Value → String} :
      v.container? = some c → c ∉ chain →
      (∀ w ∈ v.children h, Printing h (c :: chain) w (part w)) →
      Printing h chain v (c.framed h part)

section

variable {v : Value} {c : Container} {s s' : String}

theorem Leaf.container? (hs : v.Leaf s) : v.container? = none := by cases hs <;> rfl

theorem Leaf.unique (hs : v.Leaf s) (hs' : v.Leaf s') : s = s' := by
  cases hs <;> cases hs' <;> first | rfl | simp_all

theorem leaf_closedText (hc : v.container? = none) : v.Leaf v.closedText := by
  cases v with
  | num x => exact .num x
  | str s => exact .str s
  | bool b =>
    cases b with
    | false => exact .false
    | true => exact .true
  | null => exact .null
  | undefined => exact .undefined
  | list ref => cases hc
  | object ref => cases hc
  | function f =>
    rw [closedText]
    split
    · next hf => exact .anonymous hf
    · next hf => exact .function (Bool.eq_false_iff.2 hf)
  | method m => exact .method m
  | native n => exact .native n
  | cls c => exact .cls c
  | «instance» i => exact .instance i

end

section

variable {h : Heap} {chain : List Container} {c : Container} {v w : Value} {n : Nat}

theorem textWithin_closed (hc : v.container? = none) : textWithin h n chain v = v.closedText := by
  cases n <;> cases v <;> first | rfl | cases hc

theorem textWithin_container (hc : v.container? = some c) : textWithin h (n + 1) chain v =
    if chain.contains c then c.mark else c.framed h (textWithin h n (c :: chain)) := by
  cases v <;> cases hc <;> rfl

/-- The lists and the records on the heap. -/
def heapContainers (h : Heap) : List Container :=
  (List.range h.lists.size).map .list ++ (List.range h.records.size).map .object

theorem length_heapContainers (h : Heap) : (heapContainers h).length + 1 = depthBound h := by
  simp [heapContainers, depthBound]

/-- A container with something in it is on the heap. -/
theorem mem_heapContainers (hc : v.container? = some c) (hw : w ∈ v.children h) :
    c ∈ heapContainers h := by
  cases v <;> cases hc
  · simpa [heapContainers] using lt_of_mem_elements hw
  · simpa [heapContainers] using lt_of_mem_record hw

/-- The writing never comes to the bound on its depth. -/
theorem printing_textWithin (hnodup : chain.Nodup) (hchain : chain ⊆ heapContainers h)
    (hn : depthBound h ≤ n + chain.length) : Printing h chain v (textWithin h n chain v) := by
  induction n generalizing chain v with
  | zero =>
    have := (List.subperm_of_subset hnodup hchain).length_le
    have := length_heapContainers h
    omega
  | succ n ih =>
    cases hc : v.container? with
    | none =>
      rw [textWithin_closed hc]
      exact .leaf (leaf_closedText hc)
    | some c =>
      rw [textWithin_container hc]
      split
      · next hmem => exact .repeated hc (by simpa using hmem)
      · next hmem =>
        have hnew : c ∉ chain := by simpa using hmem
        refine .entered hc hnew fun w hw => ih (List.nodup_cons.2 ⟨hnew, hnodup⟩) ?_ ?_
        · exact List.cons_subset.2 ⟨mem_heapContainers hc hw, hchain⟩
        · rw [List.length_cons]
          omega

end

theorem printing_text (h : Heap) (v : Value) : Printing h [] v (v.text h) :=
  printing_textWithin List.nodup_nil (List.nil_subset _) (Nat.le_refl _)

end Value

end ScopedScript
