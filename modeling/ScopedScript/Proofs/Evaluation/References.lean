import Mathlib
import ScopedScript.Proofs.Parsing.WellFormed
import ScopedScript.Proofs.Records
import ScopedScript.Proofs.Simulation.Visits

/-! # References into the heap

A machine is *intact* if all that its values refer to is on the heap, the names in each record are
distinct, and the functions and classes around carry well-formed trees (`Machine.Intact`).  The
functions of the host have to keep the heap like this as well (`HostFunction.KeepsSound`).

* **Evolution.** Lists and records are added to the heap and stay on it.  A record changes by writes
  alone, one name at a time (`Heap.Evolves`), so its names stay where they are.
* **Steps.** `Upholds h x x' post` says that `x`, on an intact machine with a heap that `h` has evolved
  into, leaves an intact machine whose heap has evolved further, and a result as `post` has it; and
  that `x'` does the same as `x`.  The second step is there for evaluations that differ in their
  interpreter: interpreters that do the same with tasks in order do the same in everything
  (`UpholdsTasks`), and so what an evaluation visits is in order (`intact_of_visits`).
* **Object literals.** They are the only place where a record is made with more than one name at a
  time, and the keys of a well-formed literal are distinct. -/

namespace ScopedScript

/-! ### Trees -/

/-- The nodes of a tree are well-formed, where the tree stands. -/
def Sited (sites : List Enclosure → List Site) : Prop :=
  ∃ outer, ∀ s ∈ sites outer, s.node.WellFormed

namespace Sited

variable {f g : List Enclosure → List Site} {n : Node}

theorem left (h : Sited fun outer => f outer ++ g outer) : Sited f := by
  obtain ⟨outer, h⟩ := h
  exact ⟨outer, fun s hs => h s (List.mem_append_left _ hs)⟩

theorem right (h : Sited fun outer => f outer ++ g outer) : Sited g := by
  obtain ⟨outer, h⟩ := h
  exact ⟨outer, fun s hs => h s (List.mem_append_right _ hs)⟩

theorem below (h : Sited fun outer => ⟨outer, n⟩ :: f outer) : Sited f := by
  obtain ⟨outer, h⟩ := h
  exact ⟨outer, fun s hs => h s (List.mem_cons_of_mem _ hs)⟩

theorem node (h : Sited fun outer => ⟨outer, n⟩ :: f outer) : n.WellFormed := by
  obtain ⟨outer, h⟩ := h
  exact h _ List.mem_cons_self

theorem within {enclosure : Enclosure} (h : Sited fun outer => f (enclosure :: outer)) :
    Sited f := by
  obtain ⟨outer, h⟩ := h
  exact ⟨enclosure :: outer, h⟩

/-- A method of a class. -/
theorem method {ms : List FunctionDecl} (h : Sited fun outer => methodsSites outer ms)
    {m : FunctionDecl} (hm : m ∈ ms) : Sited m.sites := by
  induction ms with
  | nil => cases hm
  | cons d ms ih =>
    rcases List.mem_cons.1 hm with rfl | hm
    · exact within (left h)
    · exact ih (right h) hm

theorem methods {c : ClassDecl} (h : Sited c.sites) :
    Sited fun outer => methodsSites outer c.methods := by
  obtain ⟨name, methods, fields⟩ := c
  exact right h

theorem fields {c : ClassDecl} (h : Sited c.sites) :
    Sited fun outer => fieldsSites outer c.fields := by
  obtain ⟨name, methods, fields⟩ := c
  exact left h

/-- The method of a name. -/
theorem method? {c : ClassDecl} (h : Sited c.sites) {name : String} {m : FunctionDecl}
    (hm : c.method? name = some m) : Sited m.sites :=
  h.methods.method (List.mem_reverse.1 (List.mem_of_find?_eq_some hm))

theorem body {d : FunctionDecl} (h : Sited d.sites) : Sited fun outer => stmtsSites outer d.body := by
  obtain ⟨name, params, body, result⟩ := d
  exact h

end Sited

/-! ### Values on a heap -/

/-- The fields of the instance are on the heap. -/
structure Instance.In (h : Heap) (i : Instance) : Prop where
  fields : i.fields < h.records.size
  cls : Sited i.cls.declaration.sites

/-- All that the value refers to is on the heap. -/
inductive Value.In (h : Heap) : Value → Prop
  | num (x : Float) : Value.In h (.num x)
  | str (s : String) : Value.In h (.str s)
  | bool (b : Bool) : Value.In h (.bool b)
  | null : Value.In h .null
  | undefined : Value.In h .undefined
  | list {ref : Ref} : ref < h.lists.size → Value.In h (.list ref)
  | object {ref : Ref} : ref < h.records.size → Value.In h (.object ref)
  | function {c : Closure} : Sited c.declaration.sites → Value.In h (.function c)
  | method {b : Method} : Sited b.declaration.sites → b.receiver.In h → Value.In h (.method b)
  | native {n : Native} : n.action.isPlain = true → Value.In h (.native n)
  | host {identity arity index : Nat} {name : String} {v : Value} : Value.In h v →
      Value.In h (.native (.mk identity name arity (.host index v)))
  | cls {c : Class} : Sited c.declaration.sites → Value.In h (.cls c)
  | instance {i : Instance} : i.In h → Value.In h (.instance i)

/-- What a statement tells the others refers to what is on the heap. -/
def Signal.In (h : Heap) : Signal → Prop
  | .proceed => True
  | .returned v => v.In h

/-- All that the values in the record refer to is on the heap. -/
def Record.In (h : Heap) (r : Record Value) : Prop := ∀ p ∈ r, p.2.In h

/-- Lists and records have been added, and records have been written to. -/
structure Heap.Evolves (h h' : Heap) : Prop where
  lists : h.lists.size ≤ h'.lists.size
  records : h.records.size ≤ h'.records.size
  written : ∀ ref < h.records.size, ∃ writes, h'.record ref = (h.record ref).setAll writes

namespace Heap.Evolves

variable {h h' h'' : Heap}

theorem refl (h : Heap) : h.Evolves h :=
  ⟨Nat.le_refl _, Nat.le_refl _, fun _ _ => ⟨[], rfl⟩⟩

theorem trans (hg : h.Evolves h') (hg' : h'.Evolves h'') : h.Evolves h'' := by
  refine ⟨Nat.le_trans hg.lists hg'.lists, Nat.le_trans hg.records hg'.records, fun ref href => ?_⟩
  obtain ⟨writes, hw⟩ := hg.written ref href
  obtain ⟨more, hm⟩ := hg'.written ref (Nat.lt_of_lt_of_le href hg.records)
  exact ⟨writes ++ more, by rw [hm, hw, Record.setAll_append]⟩

/-- The records are as they were. -/
theorem of_records {h h' : Heap} (hl : h.lists.size ≤ h'.lists.size) (hr : h'.records = h.records) :
    h.Evolves h' :=
  ⟨hl, Nat.le_of_eq (by rw [hr]), fun ref _ => ⟨[], by rw [Heap.record, Heap.record, hr]; rfl⟩⟩

theorem addRecord (h : Heap) (r : Record Value) :
    h.Evolves { h with records := h.records.push r } := by
  refine ⟨Nat.le_refl _, by simp, fun ref href => ⟨[], ?_⟩⟩
  simp [Heap.record, Array.getD_eq_getD_getElem?, Array.getElem?_push, Nat.ne_of_lt href,
    Record.setAll]

end Heap.Evolves

/-- Writing to a record of the heap. -/
theorem Heap.record_modifyRecord (h : Heap) (ref other : Ref) (f : Record Value → Record Value) :
    (h.modifyRecord ref f).record other =
      if other = ref ∧ ref < h.records.size then f (h.record ref) else h.record other := by
  unfold Heap.record Heap.modifyRecord
  rw [Array.getD_eq_getD_getElem?, Array.getD_eq_getD_getElem?, Array.getElem?_modify]
  by_cases heq : ref = other
  · subst heq
    by_cases hlt : ref < h.records.size
    · simp [hlt]
    · simp [hlt]
  · rw [if_neg heq, if_neg fun hand => heq hand.1.symm, Array.getD_eq_getD_getElem?]

theorem Heap.Evolves.write (h : Heap) (ref : Ref) (name : String) (value : Value) :
    h.Evolves (h.modifyRecord ref fun r => r.set name value) := by
  refine ⟨Nat.le_refl _, by simp [Heap.modifyRecord], fun other hother => ?_⟩
  rw [Heap.record_modifyRecord]
  split
  · next hand => exact ⟨[(name, value)], by rw [hand.1]; rfl⟩
  · exact ⟨[], rfl⟩

section

variable {h h' : Heap}

theorem Instance.In.grow {i : Instance} (hi : i.In h) (hg : h.Evolves h') : i.In h' :=
  ⟨Nat.lt_of_lt_of_le hi.fields hg.records, hi.cls⟩

theorem Value.In.grow {v : Value} (hv : v.In h) (hg : h.Evolves h') : v.In h' := by
  induction hv with
  | num x => exact .num x
  | str s => exact .str s
  | bool b => exact .bool b
  | null => exact .null
  | undefined => exact .undefined
  | list href => exact .list (Nat.lt_of_lt_of_le href hg.lists)
  | object href => exact .object (Nat.lt_of_lt_of_le href hg.records)
  | function hd => exact .function hd
  | method hd hi => exact .method hd (hi.grow hg)
  | native hn => exact .native hn
  | host _ ih => exact .host ih
  | cls hd => exact .cls hd
  | «instance» hi => exact .instance (hi.grow hg)

theorem values_in_grow {vs : List Value} (hvs : ∀ v ∈ vs, v.In h) (hg : h.Evolves h') :
    ∀ v ∈ vs, v.In h' := fun v hv => (hvs v hv).grow hg

theorem Record.In.grow {r : Record Value} (hr : Record.In h r) (hg : h.Evolves h') :
    Record.In h' r := fun p hp => (hr p hp).grow hg

theorem Record.In.nil : Record.In h [] := fun _ hp => nomatch hp

theorem Record.In.get? {r : Record Value} (hr : Record.In h r) {name : String} {v : Value}
    (hv : Record.get? r name = some v) : v.In h := by
  induction r with
  | nil => cases hv
  | cons p r ih =>
    obtain ⟨k, w⟩ := p
    rw [Record.get?_cons] at hv
    split at hv
    · obtain rfl := Option.some.inj hv
      exact hr _ List.mem_cons_self
    · exact ih (fun p hp => hr p (List.mem_cons_of_mem _ hp)) hv

theorem Record.In.set {r : Record Value} (hr : Record.In h r) (name : String) {v : Value}
    (hv : v.In h) : Record.In h (Record.set r name v) := by
  induction r with
  | nil =>
    intro p hp
    obtain rfl := List.mem_singleton.1 hp
    exact hv
  | cons q r ih =>
    obtain ⟨k, w⟩ := q
    have hrest : Record.In h r := fun p hp => hr p (List.mem_cons_of_mem _ hp)
    simp only [Record.set]
    split
    · intro p hp
      rcases List.mem_cons.1 hp with rfl | hp
      · exact hv
      · exact hrest p hp
    · intro p hp
      rcases List.mem_cons.1 hp with rfl | hp
      · exact hr _ List.mem_cons_self
      · exact ih hrest p hp

end

/-! ### Sound heaps -/

/-- The list or object that the value is, if it is one, is on the heap. -/
def Value.Within (h : Heap) : Value → Prop
  | .list ref => ref < h.lists.size
  | .object ref => ref < h.records.size
  | _ => True

/-- The lists and objects in lists and records are on the heap, and the names in each record are
distinct. -/
structure Heap.Sound (h : Heap) : Prop where
  lists : ∀ xs ∈ h.lists, ∀ v ∈ xs, v.Within h
  records : ∀ r ∈ h.records, ∀ p ∈ r, p.2.Within h
  keys : ∀ r ∈ h.records, (Record.keys r).Nodup

/-- The function does with lists and objects what programs can do: there are no references but to what
is on the heap, and an object changes by writing to names, one at a time. -/
def HostFunction.KeepsSound (f : HostFunction) : Prop :=
  ∀ (site : Token) (held : Value) (args : List Value) (h : Heap), h.Sound → held.Within h →
    (∀ v ∈ args, v.Within h) → h.Evolves (f.run site held args h).heap ∧
      (f.run site held args h).heap.Sound ∧
      ∀ v, (f.run site held args h).result = .ok v → v.Within (f.run site held args h).heap

theorem Value.In.within {h : Heap} {v : Value} (hv : v.In h) : v.Within h := by
  cases hv with
  | list href => exact href
  | object href => exact href
  | _ => trivial

/-- Of a value that is not sealed, there is nothing more to ask. -/
theorem Value.Within.in {h : Heap} {v : Value} (hv : v.Within h) (hs : v.isSealed = true → v.In h) :
    v.In h := by
  cases v with
  | list ref => exact .list hv
  | object ref => exact .object hv
  | num x => exact .num x
  | str s => exact .str s
  | bool b => exact .bool b
  | null => exact .null
  | undefined => exact .undefined
  | _ => exact hs rfl

/-- What a host cannot tell from equality: sealed values are on the heap. -/
theorem indiscernible_in (h : Heap) :
    Indiscernible fun v v' => v' = v ∧ (v.isSealed = true → v.In h) where
  plain hs := ⟨rfl, fun hs' => by rw [hs] at hs'; cases hs'⟩
  eq_of_plain hv _ := hv.1
  typeName hv := by rw [hv.1]
  closedText hv := by rw [hv.1]
  same hv hw := by rw [hv.1, hw.1]

/-! ### Intact machines -/

/-- Nothing on the machine refers beyond its heap, the names in each record are distinct, and the
functions of the host keep it so. -/
structure Machine.Intact (m : Machine) : Prop where
  frames : ∀ f ∈ m.frames, Record.In m.heap f.vars
  lists : ∀ xs ∈ m.heap.lists, ∀ v ∈ xs, v.In m.heap
  records : ∀ r ∈ m.heap.records, Record.In m.heap r
  keys : ∀ r ∈ m.heap.records, (Record.keys r).Nodup
  hosts : ∀ f ∈ m.hosts, f.KeepsSound

theorem forall_mem_modify {α : Type} {P : α → Prop} {xs : Array α} (h : ∀ x ∈ xs, P x)
    (i : Nat) {f : α → α} (hf : ∀ x, P x → P (f x)) : ∀ x ∈ xs.modify i f, P x := by
  intro y hy
  obtain ⟨j, hj, rfl⟩ := Array.mem_iff_getElem.1 hy
  rw [Array.getElem_modify]
  split
  · exact hf _ (h _ (Array.getElem_mem _))
  · exact h _ (Array.getElem_mem _)

namespace Machine.Intact

variable {m : Machine}

theorem vars (hm : m.Intact) (f : FrameId) : Record.In m.heap (m.vars f) := by
  unfold Machine.vars
  split
  · next frame hframe => exact hm.frames _ (Array.mem_of_getElem? hframe)
  · exact .nil

theorem elements (hm : m.Intact) (ref : Ref) : ∀ v ∈ m.heap.elements ref, v.In m.heap := by
  unfold Heap.elements
  rw [Array.getD_eq_getD_getElem?]
  cases hxs : m.heap.lists[ref]? with
  | none => simp
  | some xs => exact hm.lists _ (Array.mem_of_getElem? hxs)

theorem record (hm : m.Intact) (ref : Ref) : Record.In m.heap (m.heap.record ref) := by
  unfold Heap.record
  rw [Array.getD_eq_getD_getElem?]
  cases hr : m.heap.records[ref]? with
  | none => exact .nil
  | some r => exact hm.records _ (Array.mem_of_getElem? hr)

theorem keysOf (hm : m.Intact) (ref : Ref) : (Record.keys (m.heap.record ref)).Nodup := by
  unfold Heap.record
  rw [Array.getD_eq_getD_getElem?]
  cases hr : m.heap.records[ref]? with
  | none => exact .nil
  | some r => exact hm.keys _ (Array.mem_of_getElem? hr)

theorem lookup? (hm : m.Intact) {id : NodeId} {name : String} {v : Value}
    (hv : m.lookup? id name = some v) : v.In m.heap := by
  unfold Machine.lookup? at hv
  split at hv
  · exact (hm.vars _).get? hv
  · cases hv

theorem setVariable (hm : m.Intact) (f : FrameId) (name : String) {v : Value} (hv : v.In m.heap) :
    (m.setVariable f name v).Intact := by
  refine ⟨fun frame hframe => ?_, hm.lists, hm.records, hm.keys, hm.hosts⟩
  exact forall_mem_modify hm.frames f (f := fun k => { k with vars := k.vars.set name v })
    (fun _ hvars => hvars.set name hv) frame hframe

theorem pushFrame (hm : m.Intact) (region : Region) (parent : FrameId) {vars : Record Value}
    (hv : Record.In m.heap vars) : (m.pushFrame region parent vars).Intact := by
  refine ⟨fun f hf => ?_, hm.lists, hm.records, hm.keys, hm.hosts⟩
  rcases Array.mem_push.1 hf with hf | rfl
  · exact hm.frames f hf
  · exact hv

/-- What there is goes on being intact on a heap that has evolved. -/
theorem onHeap (hm : m.Intact) {h : Heap} (hg : m.heap.Evolves h)
    (hlists : ∀ xs ∈ h.lists, ∀ v ∈ xs, v.In h) (hrecords : ∀ r ∈ h.records, Record.In h r)
    (hkeys : ∀ r ∈ h.records, (Record.keys r).Nodup) : Machine.Intact { m with heap := h } :=
  ⟨fun f hf => (hm.frames f hf).grow hg, hlists, hrecords, hkeys, hm.hosts⟩

theorem newList (hm : m.Intact) {xs : Array Value} (hxs : ∀ v ∈ xs, v.In m.heap) :
    m.heap.Evolves { m.heap with lists := m.heap.lists.push xs } ∧
      Machine.Intact { m with heap := { m.heap with lists := m.heap.lists.push xs } } := by
  have hg : m.heap.Evolves { m.heap with lists := m.heap.lists.push xs } :=
    .of_records (by simp) rfl
  refine ⟨hg, hm.onHeap hg (fun ys hys v hv => ?_) (fun r hr => (hm.records r hr).grow hg) hm.keys⟩
  rcases Array.mem_push.1 hys with hys | rfl
  · exact (hm.lists ys hys v hv).grow hg
  · exact (hxs v hv).grow hg

theorem modifyList (hm : m.Intact) (ref : Ref) {f : Array Value → Array Value}
    (hf : ∀ xs, (∀ v ∈ xs, v.In m.heap) → ∀ v ∈ f xs, v.In m.heap) :
    m.heap.Evolves (m.heap.modifyList ref f) ∧
      Machine.Intact { m with heap := m.heap.modifyList ref f } := by
  have hg : m.heap.Evolves (m.heap.modifyList ref f) :=
    .of_records (by simp [Heap.modifyList]) rfl
  refine ⟨hg, hm.onHeap hg (fun xs hxs v hv => ?_) (fun r hr => (hm.records r hr).grow hg) hm.keys⟩
  exact (forall_mem_modify hm.lists ref hf xs hxs v hv).grow hg

theorem sound (hm : m.Intact) : m.heap.Sound :=
  ⟨fun xs hxs v hv => (hm.lists xs hxs v hv).within, fun r hr p hp => (hm.records r hr p hp).within,
    hm.keys⟩

/-- What a function of the host leaves.  Sealed values it has from the machine, and what it makes is in
order. -/
theorem answer (hm : m.Intact) {f : HostFunction} (hf : f.KeepsSound) (t : Token) {v : Value}
    (hv : v.In m.heap) {vs : List Value} (hvs : ∀ w ∈ vs, w.In m.heap) :
    m.heap.Evolves (f.run t v vs m.heap).heap ∧
      Machine.Intact { m with heap := (f.run t v vs m.heap).heap } ∧
      ∀ w, (f.run t v vs m.heap).result = .ok w → w.In (f.run t v vs m.heap).heap := by
  obtain ⟨hg, hsound, hresult⟩ :=
    hf t v vs m.heap hm.sound hv.within fun w hw => (hvs w hw).within
  have hself : ∀ {w : Value}, w.In m.heap → w = w ∧ (w.isSealed = true → w.In m.heap) :=
    fun hw => ⟨rfl, fun _ => hw⟩
  have hblind := f.blind (indiscernible_in m.heap) t (hself hv) (.refl fun w hw => hself (hvs w hw))
    (.refl (fun xs hxs w hw => hself (hm.lists xs hxs w hw))
      fun r hr p hp => hself (hm.records r hr p hp))
  generalize f.run t v vs m.heap = a at hg hsound hresult hblind
  have hheap : a.heap.Related (fun w w' => w' = w ∧ (w.isSealed = true → w.In m.heap)) a.heap ∧
      ∀ w, a.result = .ok w → w.isSealed = true → w.In m.heap := by
    cases hblind with
    | value hw hh =>
      refine ⟨hh, ?_⟩
      rintro w ⟨⟩
      exact hw.2
    | error message _ hh =>
      refine ⟨hh, ?_⟩
      rintro w ⟨⟩
  refine ⟨hg, hm.onHeap hg (fun xs hxs w hw => ?_) (fun r hr p hp => ?_) hsound.keys, fun w hw => ?_⟩
  · have hrow := (hheap.1.lists.self (Array.mem_toList_iff.2 hxs)).self (Array.mem_toList_iff.2 hw)
    exact (hsound.lists xs hxs w hw).in fun hs => (hrow.2 hs).grow hg
  · have hrow := (hheap.1.records.self (Array.mem_toList_iff.2 hr)).self hp
    exact (hsound.records r hr p hp).in fun hs => (hrow.2.2 hs).grow hg
  · exact (hresult w hw).in fun hs => (hheap.2 w hw hs).grow hg

theorem newRecord (hm : m.Intact) {r : Record Value} (hr : Record.In m.heap r)
    (hkeys : (Record.keys r).Nodup) :
    m.heap.Evolves { m.heap with records := m.heap.records.push r } ∧
      Machine.Intact { m with heap := { m.heap with records := m.heap.records.push r } } := by
  have hg := Heap.Evolves.addRecord m.heap r
  refine ⟨hg, hm.onHeap hg (fun xs hxs v hv => (hm.lists xs hxs v hv).grow hg) (fun s hs => ?_)
    fun s hs => ?_⟩
  · rcases Array.mem_push.1 hs with hs | rfl
    · exact (hm.records s hs).grow hg
    · exact hr.grow hg
  · rcases Array.mem_push.1 hs with hs | rfl
    · exact hm.keys s hs
    · exact hkeys

theorem writeRecord (hm : m.Intact) (ref : Ref) (name : String) {v : Value} (hv : v.In m.heap) :
    Machine.Intact { m with heap := m.heap.modifyRecord ref fun r => r.set name v } := by
  have hg := Heap.Evolves.write m.heap ref name v
  refine hm.onHeap hg (fun xs hxs v hv => (hm.lists xs hxs v hv).grow hg) (fun r hr => ?_)
    (forall_mem_modify hm.keys ref fun r hr => Record.nodup_keys_set hr name v)
  exact (forall_mem_modify hm.records ref (fun r hr => hr.set name hv) r hr).grow hg

end Machine.Intact

/-! ### Steps -/

namespace Evaluation

open Eval

/-- The machine that is left is intact, its heap has evolved, and the result is as `post` has it. -/
inductive Upheld (h : Heap) {α : Type} (post : Heap → α → Prop) :
    EStateM.Result Stop Machine α → Prop
  | ok {a : α} {m : Machine} : m.Intact → h.Evolves m.heap → post m.heap a →
      Upheld h post (.ok a m)
  | error {e : Stop} {m : Machine} : m.Intact → h.Evolves m.heap → Upheld h post (.error e m)

/-- The two steps do the same on an intact machine whose heap `h` has evolved into, and leave it
intact. -/
def Upholds (h : Heap) {α : Type} (x x' : Eval α) (post : Heap → α → Prop) : Prop :=
  ∀ ⦃m : Machine⦄, m.Intact → h.Evolves m.heap → x' m = x m ∧ Upheld m.heap post (x m)

theorem Upheld.since {α : Type} {h h' : Heap} {post : Heap → α → Prop}
    {r : EStateM.Result Stop Machine α} (hg : h.Evolves h') (hr : Upheld h' post r) :
    Upheld h post r := by
  cases hr with
  | ok hm hg' ha => exact .ok hm (hg.trans hg') ha
  | error hm hg' => exact .error hm (hg.trans hg')

namespace Upholds

variable {α β : Type} {h h' : Heap} {x x' : Eval α} {P : Heap → α → Prop} {Q : Heap → β → Prop}

theorem grow (hx : Upholds h x x' P) (hg : h.Evolves h') : Upholds h' x x' P :=
  fun _ hm hg' => hx hm (hg.trans hg')

theorem weaken (hx : Upholds h x x' P) {P' : Heap → α → Prop}
    (hp : ∀ h' a, h.Evolves h' → P h' a → P' h' a) : Upholds h x x' P' := by
  intro m hm hg
  obtain ⟨heq, hr⟩ := hx hm hg
  refine ⟨heq, ?_⟩
  generalize x m = r at hr
  cases hr with
  | ok hm₁ hg₁ ha => exact .ok hm₁ hg₁ (hp _ _ (hg.trans hg₁) ha)
  | error hm₁ hg₁ => exact .error hm₁ hg₁

theorem pure {a : α} (ha : ∀ h', h.Evolves h' → P h' a) :
    Upholds h (Pure.pure a) (Pure.pure a) P :=
  fun _ hm hg => ⟨rfl, .ok hm (.refl _) (ha _ hg)⟩

theorem bind {k k' : α → Eval β} (hx : Upholds h x x' P)
    (hk : ∀ h' a, h.Evolves h' → P h' a → Upholds h' (k a) (k' a) Q) :
    Upholds h (x >>= k) (x' >>= k') Q := by
  intro m hm hg
  obtain ⟨heq, hr⟩ := hx hm hg
  change EStateM.bind x' k' m = EStateM.bind x k m ∧ Upheld m.heap Q (EStateM.bind x k m)
  unfold EStateM.bind
  rw [heq]
  generalize x m = r at hr
  cases hr with
  | error hm₁ hg₁ => exact ⟨rfl, .error hm₁ hg₁⟩
  | ok hm₁ hg₁ ha =>
    obtain ⟨heq₂, hr₂⟩ := hk _ _ (hg.trans hg₁) ha hm₁ (.refl _)
    exact ⟨heq₂, hr₂.since hg₁⟩

theorem outOfFuel : Upholds h (throw .outOfFuel : Eval α) (throw .outOfFuel) P :=
  fun _ hm _ => ⟨rfl, .error hm (.refl _)⟩

theorem raise (t : Token) (fault : RuntimeFault) :
    Upholds h (Eval.raise t fault : Eval α) (Eval.raise t fault) P :=
  fun _ hm _ => ⟨rfl, .error hm (.refl _)⟩

theorem orRaise (t : Token) (fault : RuntimeFault) {o : Option α}
    (ho : ∀ a, o = some a → ∀ h', h.Evolves h' → P h' a) :
    Upholds h (Eval.orRaise t fault o) (Eval.orRaise t fault o) P := by
  cases o with
  | none => exact raise t fault
  | some a => exact pure (ho a rfl)

theorem inspect {f : Machine → α} (hf : ∀ m : Machine, m.Intact → h.Evolves m.heap → P m.heap (f m)) :
    Upholds h (Eval.inspect f) (Eval.inspect f) P :=
  fun m hm hg => ⟨rfl, .ok hm (.refl _) (hf m hm hg)⟩

theorem update {u : Machine → Machine} (hu : ∀ m : Machine, m.Intact → h.Evolves m.heap →
      m.heap.Evolves (u m).heap ∧ (u m).Intact) :
    Upholds h (modify u : Eval PUnit) (modify u) fun _ _ => True := by
  intro m hm hg
  obtain ⟨hg₁, hm₁⟩ := hu m hm hg
  exact ⟨rfl, .ok hm₁ hg₁ trivial⟩

theorem inFrame (hx : Upholds h x x' P) (g : FrameId) :
    Upholds h (Eval.inFrame g x) (Eval.inFrame g x') P := by
  intro m hm hg
  have hm' : Machine.Intact { m with frame := g } :=
    ⟨hm.frames, hm.lists, hm.records, hm.keys, hm.hosts⟩
  obtain ⟨heq, hr⟩ := hx hm' hg
  unfold Eval.inFrame
  rw [heq]
  refine ⟨rfl, ?_⟩
  generalize x { m with frame := g } = r at hr
  cases hr with
  | ok hm₁ hg₁ ha => exact .ok ⟨hm₁.frames, hm₁.lists, hm₁.records, hm₁.keys, hm₁.hosts⟩ hg₁ ha
  | error hm₁ hg₁ => exact .error ⟨hm₁.frames, hm₁.lists, hm₁.records, hm₁.keys, hm₁.hosts⟩ hg₁

theorem asCall (hx : Upholds h x x' P) : Upholds h (Eval.asCall x) (Eval.asCall x') P := by
  intro m hm hg
  have hm' : Machine.Intact { m with depth := m.depth + 1 } :=
    ⟨hm.frames, hm.lists, hm.records, hm.keys, hm.hosts⟩
  obtain ⟨heq, hr⟩ := hx hm' hg
  unfold Eval.asCall
  rw [heq]
  refine ⟨rfl, ?_⟩
  generalize x { m with depth := m.depth + 1 } = r at hr
  cases hr with
  | ok hm₁ hg₁ ha => exact .ok ⟨hm₁.frames, hm₁.lists, hm₁.records, hm₁.keys, hm₁.hosts⟩ hg₁ ha
  | error hm₁ hg₁ => exact .error ⟨hm₁.frames, hm₁.lists, hm₁.records, hm₁.keys, hm₁.hosts⟩ hg₁

/-! ### Elementary steps -/

theorem newList {xs : Array Value} (hxs : ∀ v ∈ xs, v.In h) :
    Upholds h (Eval.newList xs) (Eval.newList xs) Value.In := by
  intro m hm hg
  obtain ⟨hg₁, hm₁⟩ := hm.newList fun v hv => (hxs v hv).grow hg
  exact ⟨rfl, .ok hm₁ hg₁ (.list (by simp))⟩

theorem newRecord {r : Record Value} (hr : Record.In h r) (hkeys : (Record.keys r).Nodup) :
    Upholds h (Eval.newRecord r) (Eval.newRecord r) fun h' ref => ref < h'.records.size := by
  intro m hm hg
  obtain ⟨hg₁, hm₁⟩ := hm.newRecord (hr.grow hg) hkeys
  exact ⟨rfl, .ok hm₁ hg₁ (by simp)⟩

theorem newFrame (region : Region) (parent : FrameId) {vars : Record Value}
    (hv : Record.In h vars) :
    Upholds h (Eval.newFrame region parent vars) (Eval.newFrame region parent vars)
      fun _ _ => True :=
  fun _ hm hg => ⟨rfl, .ok (hm.pushFrame region parent (hv.grow hg)) (.refl _) trivial⟩

theorem newIdentity : Upholds h Eval.newIdentity Eval.newIdentity fun _ _ => True :=
  fun _ hm _ => ⟨rfl, .ok ⟨hm.frames, hm.lists, hm.records, hm.keys, hm.hosts⟩ (.refl _) trivial⟩

theorem readVariable (id : NodeId) (t : Token) :
    Upholds h (Eval.readVariable id t) (Eval.readVariable id t) Value.In := by
  refine bind (P := fun h' o => ∀ v, o = some v → v.In h')
    (inspect fun m hm _ v hv => hm.lookup? hv) fun h' o _ ho => ?_
  exact orRaise _ _ fun v hv _ hg => (ho v hv).grow hg

theorem writeVariable (id : NodeId) (t : Token) {v : Value} (hv : v.In h) :
    Upholds h (Eval.writeVariable id t v) (Eval.writeVariable id t v) fun _ _ => True := by
  refine bind (P := fun _ _ => True) (inspect fun _ _ _ => trivial) fun h₁ o hg _ => ?_
  refine bind (P := fun _ _ => True) (orRaise _ _ fun _ _ _ _ => trivial) fun h₂ f hg₂ _ => ?_
  refine update fun m hm hg₃ => ⟨.refl _, hm.setVariable f _ ?_⟩
  exact hv.grow (hg.trans (hg₂.trans hg₃))

theorem declareVariable (t : Token) {v : Value} (hv : v.In h) :
    Upholds h (Eval.declareVariable t v) (Eval.declareVariable t v) fun _ _ => True := by
  unfold Eval.declareVariable
  refine bind (P := fun _ _ => True) (inspect fun _ _ _ => trivial) fun h₁ b hg _ => ?_
  have hset : Upholds h₁
      (modify fun m => m.setVariable m.frame t.lexeme v : Eval PUnit)
      (modify fun m => m.setVariable m.frame t.lexeme v) fun _ _ => True :=
    update fun m hm hg₂ => ⟨.refl _, hm.setVariable _ _ (hv.grow (hg.trans hg₂))⟩
  split
  · exact bind (P := fun _ _ => True) (raise _ _) fun _ _ hg₂ _ => hset.grow hg₂
  · exact hset

theorem write (t : Token) (text : String) :
    Upholds h (Eval.write t text) (Eval.write t text) fun _ _ => True := by
  intro m hm hg
  refine ⟨rfl, ?_⟩
  unfold Eval.write
  split
  · exact .ok ⟨hm.frames, hm.lists, hm.records, hm.keys, hm.hosts⟩ (.refl _) trivial
  · exact .error hm (.refl _)

end Upholds

end Evaluation

end ScopedScript
