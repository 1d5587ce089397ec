import ScopedScript.Proofs.Printing

/-! # The text of a value, occurrence by occurrence

A value occurs in another one at the end of a path, and a value that is shared, or that contains
itself, occurs at the ends of many paths.  What is written at an occurrence depends on the
containers that the path to it passes through (`openOn`): a list or an object among them gets a
mark, any other one is written in full (`WrittenAt`).  There is exactly one text that is written at
the root in this way, and it is `Value.text` (`text_by_occurrences`).

A value from which no path comes back to a place where it has been has a text without marks, the
plain one that its structure gives (`Structural`); and only such a value has one. -/

namespace ScopedScript

namespace Value

/-! ### Occurrences -/

section

variable (h : Heap)

/-- The containers that a path passes through, from the value where it starts on.  The value where
it ends is not among them. -/
def openOn : Value → List Nat → List Container
  | _, [] => []
  | v, i :: path =>
    v.container?.toList ++ ((v.children h)[i]?.elim [] fun w => openOn w path)

/-- The text that is written at the end of a path from the root. -/
inductive WrittenAt (root : Value) : List Nat → String → Prop
  | leaf {path : List Nat} {v : Value} {s : String} :
      root.follow h path = some v → v.Leaf s → WrittenAt root path s
  | repeated {path : List Nat} {v : Value} {c : Container} :
      root.follow h path = some v → v.container? = some c → c ∈ root.openOn h path →
      WrittenAt root path c.mark
  | entered {path : List Nat} {v : Value} {c : Container} {part : Value → String} :
      root.follow h path = some v → v.container? = some c → c ∉ root.openOn h path →
      (∀ i w, (v.children h)[i]? = some w → WrittenAt root (path ++ [i]) (part w)) →
      WrittenAt root path (c.framed h part)

/-- The plain text of a value, in which every container is written in full wherever it occurs. -/
inductive Structural : Value → String → Prop
  | leaf {v : Value} {s : String} : v.Leaf s → Structural v s
  | container {v : Value} {c : Container} {part : Value → String} : v.container? = some c →
      (∀ w ∈ v.children h, Structural w (part w)) → Structural v (c.framed h part)

/-- Some path from the value leads to a place that a further path leads back to. -/
def ReachesCycle (v : Value) : Prop :=
  ∃ (path cycle : List Nat) (w : Value),
    v.follow h path = some w ∧ cycle ≠ [] ∧ w.follow h cycle = some w

end

section

variable {h : Heap} {chain : List Container} {c : Container} {root v w : Value}
  {path path' : List Nat} {i : Nat} {s s' : String}

/-! ### Paths -/

theorem follow_append (path path' : List Nat) (v : Value) :
    v.follow h (path ++ path') = (v.follow h path).bind (follow h path') := by
  induction path generalizing v with
  | nil => rfl
  | cons i path ih => simp only [List.cons_append, follow, ih, Option.bind_assoc]

theorem follow_singleton (i : Nat) (v : Value) : v.follow h [i] = (v.children h)[i]? := by
  simp [follow]

theorem openOn_concat (hv : root.follow h path = some v) (hw : (v.children h)[i]? = some w) :
    root.openOn h (path ++ [i]) = root.openOn h path ++ v.container?.toList := by
  induction path generalizing root with
  | nil =>
    obtain rfl := Option.some.inj hv
    simp [openOn, hw]
  | cons j path ih =>
    obtain ⟨u, hu, hv⟩ := Option.bind_eq_some_iff.1 hv
    simp only [List.cons_append, openOn, hu, Option.elim_some, ih hv, List.append_assoc]

theorem container?_value (hc : v.container? = some c) : c.value = v := by
  cases v <;> cases hc <;> rfl

theorem framed_congr (hc : v.container? = some c) {part part' : Value → String}
    (hpart : ∀ w ∈ v.children h, part w = part' w) : c.framed h part = c.framed h part' := by
  obtain rfl := container?_value hc
  cases c with
  | list r =>
    exact congrArg (fun parts => "[" ++ String.intercalate ", " parts ++ "]")
      (List.map_congr_left hpart)
  | object r =>
    refine congrArg (fun parts => "\x7b" ++ String.intercalate ", " parts ++ "\x7d")
      (List.map_congr_left fun p hp => ?_)
    rw [hpart p.2 (List.mem_map_of_mem hp)]

/-! ### One text -/

theorem Printing.unique (hs : Printing h chain v s) (hs' : Printing h chain v s') : s = s' := by
  induction hs generalizing s' with
  | leaf hl =>
    cases hs' with
    | leaf hl' => exact hl.unique hl'
    | repeated hc' | entered hc' => cases hl.container?.symm.trans hc'
  | repeated hc hmem =>
    cases hs' with
    | leaf hl' => cases hl'.container?.symm.trans hc
    | repeated hc' => rw [Option.some.inj (hc.symm.trans hc')]
    | entered hc' hnew =>
      obtain rfl := Option.some.inj (hc.symm.trans hc')
      exact absurd hmem hnew
  | entered hc hnew _ ih =>
    cases hs' with
    | leaf hl' => cases hl'.container?.symm.trans hc
    | repeated hc' hmem =>
      obtain rfl := Option.some.inj (hc.symm.trans hc')
      exact absurd hmem hnew
    | entered hc' _ hparts =>
      obtain rfl := Option.some.inj (hc.symm.trans hc')
      exact framed_congr hc fun w hw => ih w hw (hparts w hw)

theorem WrittenAt.unique (hs : WrittenAt h root path s) (hs' : WrittenAt h root path s') :
    s = s' := by
  induction hs generalizing s' with
  | leaf hv hl =>
    cases hs' with
    | leaf hv' hl' =>
      obtain rfl := Option.some.inj (hv.symm.trans hv')
      exact hl.unique hl'
    | repeated hv' hc' | entered hv' hc' =>
      obtain rfl := Option.some.inj (hv.symm.trans hv')
      cases hl.container?.symm.trans hc'
  | repeated hv hc hmem =>
    cases hs' with
    | leaf hv' hl' =>
      obtain rfl := Option.some.inj (hv.symm.trans hv')
      cases hl'.container?.symm.trans hc
    | repeated hv' hc' =>
      obtain rfl := Option.some.inj (hv.symm.trans hv')
      rw [Option.some.inj (hc.symm.trans hc')]
    | entered hv' hc' hnew =>
      obtain rfl := Option.some.inj (hv.symm.trans hv')
      obtain rfl := Option.some.inj (hc.symm.trans hc')
      exact absurd hmem hnew
  | entered hv hc hnew _ ih =>
    cases hs' with
    | leaf hv' hl' =>
      obtain rfl := Option.some.inj (hv.symm.trans hv')
      cases hl'.container?.symm.trans hc
    | repeated hv' hc' hmem =>
      obtain rfl := Option.some.inj (hv.symm.trans hv')
      obtain rfl := Option.some.inj (hc.symm.trans hc')
      exact absurd hmem hnew
    | entered hv' hc' _ hparts =>
      obtain rfl := Option.some.inj (hv.symm.trans hv')
      obtain rfl := Option.some.inj (hc.symm.trans hc')
      refine framed_congr hc fun w hw => ?_
      obtain ⟨i, hi⟩ := List.mem_iff_getElem?.1 hw
      exact ih i w hi (hparts i w hi)

/-- The row of containers that the writing is inside of is that of the path to it. -/
theorem Printing.writtenAt (hs : Printing h chain v s) (hv : root.follow h path = some v)
    (hchain : ∀ c, c ∈ chain ↔ c ∈ root.openOn h path) : WrittenAt h root path s := by
  induction hs generalizing path with
  | leaf hl => exact .leaf hv hl
  | repeated hc hmem => exact .repeated hv hc ((hchain _).1 hmem)
  | @entered chain v c part hc hnew _ ih =>
    refine .entered hv hc (fun hmem => hnew ((hchain c).2 hmem)) fun i w hw =>
      ih w (List.mem_of_getElem? hw) ?_ fun c' => ?_
    · rw [follow_append, hv, Option.bind_some, follow_singleton, hw]
    · rw [openOn_concat hv hw, hc, Option.toList_some, List.mem_append, List.mem_singleton,
        List.mem_cons, hchain, or_comm]

theorem writtenAt_text (h : Heap) (v : Value) : WrittenAt h v [] (v.text h) :=
  (printing_text h v).writtenAt rfl fun _ => Iff.rfl

/-- A larger bound on the depth changes nothing. -/
theorem textWithin_of_le {bound : Nat} (hbound : depthBound h ≤ bound) :
    v.textWithin h bound [] = v.text h :=
  (printing_textWithin List.nodup_nil (List.nil_subset _) hbound).unique (printing_text h v)

/-! ### Plain texts -/

theorem ReachesCycle.of_child (hw : w ∈ v.children h) (hcycle : w.ReachesCycle h) :
    v.ReachesCycle h := by
  obtain ⟨i, hi⟩ := List.mem_iff_getElem?.1 hw
  obtain ⟨path, cycle, u, hu, hne, hback⟩ := hcycle
  exact ⟨i :: path, cycle, u, by rw [follow, hi, Option.bind_some, hu], hne, hback⟩

theorem Structural.not_reachesCycle (hs : Structural h v s) : ¬v.ReachesCycle h := by
  induction hs with
  | @leaf v s hl =>
    -- there is nothing inside, so there is no way to go
    have hnone : v.children h = [] := by cases hl <;> rfl
    rintro ⟨path, cycle, w, hw, hne, hback⟩
    obtain ⟨i, cycle, rfl⟩ := List.exists_cons_of_ne_nil hne
    cases path with
    | nil =>
      obtain rfl := Option.some.inj hw
      simp [follow, hnone] at hback
    | cons j path => simp [follow, hnone] at hw
  | @container v c part _ _ ih =>
    rintro ⟨path, cycle, w, hw, hne, hback⟩
    cases path with
    | cons j path =>
      obtain ⟨u, hu, hw⟩ := Option.bind_eq_some_iff.1 hw
      exact ih u (List.mem_of_getElem? hu) ⟨path, cycle, w, hw, hne, hback⟩
    | nil =>
      -- the cycle goes through a child, which reaches it as well
      obtain rfl := Option.some.inj hw
      obtain ⟨i, cycle, rfl⟩ := List.exists_cons_of_ne_nil hne
      obtain ⟨u, hu, hback'⟩ := Option.bind_eq_some_iff.1 hback
      exact ih u (List.mem_of_getElem? hu) ⟨cycle, i :: cycle, v, hback', hne, hback⟩

theorem Structural.unique (hs : Structural h v s) (hs' : Structural h v s') : s = s' := by
  induction hs generalizing s' with
  | leaf hl =>
    cases hs' with
    | leaf hl' => exact hl.unique hl'
    | container hc' => cases hl.container?.symm.trans hc'
  | container hc _ ih =>
    cases hs' with
    | leaf hl' => cases hl'.container?.symm.trans hc
    | container hc' hparts =>
      obtain rfl := Option.some.inj (hc.symm.trans hc')
      exact framed_congr hc fun w hw => ih w hw (hparts w hw)

/-- Where no cycle can be reached, the writing never meets a container that it is inside of. -/
theorem Printing.structural (hs : Printing h chain v s) (hcycle : ¬v.ReachesCycle h)
    (hchain : ∀ c ∈ chain, ∃ path, path ≠ [] ∧ c.value.follow h path = some v) :
    Structural h v s := by
  induction hs with
  | leaf hl => exact .leaf hl
  | @repeated chain v c hc hmem =>
    obtain ⟨path, hne, hback⟩ := hchain c hmem
    rw [container?_value hc] at hback
    exact absurd ⟨[], path, v, rfl, hne, hback⟩ hcycle
  | @entered chain v c part hc _ _ ih =>
    refine .container hc fun w hw => ih w hw (fun hw' => hcycle (hw'.of_child hw)) ?_
    obtain ⟨i, hi⟩ := List.mem_iff_getElem?.1 hw
    have hstep (u : Value) (path : List Nat) (hu : u.follow h path = some v) :
        ∃ path, path ≠ [] ∧ u.follow h path = some w := by
      refine ⟨path ++ [i], by simp, ?_⟩
      rw [follow_append, hu, Option.bind_some, follow_singleton, hi]
    refine List.forall_mem_cons.2 ⟨hstep c.value [] ?_, fun c' hc' => ?_⟩
    · rw [container?_value hc]
      rfl
    · obtain ⟨path, -, hpath⟩ := hchain c' hc'
      exact hstep c'.value path hpath

theorem structural_iff : Structural h v s ↔ ¬v.ReachesCycle h ∧ s = v.text h := by
  have htext (hcycle : ¬v.ReachesCycle h) : Structural h v (v.text h) :=
    (printing_text h v).structural hcycle fun c hc => by cases hc
  constructor
  · exact fun hs => ⟨hs.not_reachesCycle, hs.unique (htext hs.not_reachesCycle)⟩
  · rintro ⟨hcycle, rfl⟩
    exact htext hcycle

end

/-! ### The text -/

/-- **The text of a value, cyclic or not.**  The writing ends before its depth comes to the bound, so
that a larger bound changes nothing.  The text is the one that is written occurrence by occurrence,
where a list or an object gets a mark exactly if it is one of the containers that the path from the
root to this occurrence passes through.  A value has a plain text, with every container in full
wherever it occurs, exactly if no cycle can be reached from it, and then this is its text. -/
theorem text_by_occurrences (h : Heap) (v : Value) :
    (∀ bound, depthBound h ≤ bound → v.textWithin h bound [] = v.text h) ∧
      (∀ s, WrittenAt h v [] s ↔ s = v.text h) ∧
      ∀ s, Structural h v s ↔ ¬v.ReachesCycle h ∧ s = v.text h := by
  refine ⟨fun bound hbound => textWithin_of_le hbound, fun s => ⟨fun hs => ?_, ?_⟩,
    fun s => structural_iff⟩
  · exact hs.unique (writtenAt_text h v)
  · rintro rfl
    exact writtenAt_text h v

/-- A list inside itself gets a mark, an empty list that occurs twice does not. -/
example : (Value.list 0).text { lists := #[#[.list 0, .list 1, .list 1], #[]] } =
    "[[...], [], []]" := by decide

end Value

end ScopedScript
