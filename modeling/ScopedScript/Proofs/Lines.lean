import Mathlib
import ScopedScript.Proofs.Scanning

/-! # The lines of a layout

Sources are added to a layout one after another.  A line of the layout is a pair of a source and a
line within it, and each such pair is a line of the layout: `SourceMap.lines_correspond`.

* `SourceMap.addAll` adds a row of sources in turn and collects the first lines.
* `SourceMap.linesBefore` is the number of lines in front of a source; the first lines are given by
  it (`SourceMap.getElem?_addAll`).
* What has been laid out stays where it is when a source is added (`SourceMap.locate_add_of_lt`),
  and the lines of the new source are located in it (`SourceMap.locate_add`). -/

namespace ScopedScript.SourceMap

/-! ### The lines in front of a source -/

/-- The number of lines of the first `k` sources of a row of names and sources. -/
def linesBefore (texts : List (String × String)) (k : Nat) : Nat :=
  ((texts.take k).map fun text => lineCount text.2).sum

section

variable {texts : List (String × String)} {k : Nat} {name source : String}

theorem linesBefore_zero : linesBefore texts 0 = 0 := rfl

theorem linesBefore_cons (name source : String) :
    linesBefore ((name, source) :: texts) (k + 1) = lineCount source + linesBefore texts k := rfl

theorem linesBefore_succ (h : texts[k]? = some (name, source)) :
    linesBefore texts (k + 1) = linesBefore texts k + lineCount source := by
  simp only [linesBefore, List.take_add_one, h, List.map_append, List.sum_append]
  rfl

theorem linesBefore_mono {i j : Nat} (h : i ≤ j) : linesBefore texts i ≤ linesBefore texts j := by
  induction h with
  | refl => exact Nat.le_refl _
  | @step j _ ih =>
    refine Nat.le_trans ih ?_
    cases hj : texts[j]? with
    | none =>
      have hlen : texts.length ≤ j := List.getElem?_eq_none_iff.1 hj
      simp only [linesBefore]
      rw [List.take_of_length_le hlen, List.take_of_length_le (Nat.le_succ_of_le hlen)]
    | some text =>
      rw [linesBefore_succ hj]
      exact Nat.le_add_right _ _

/-- A source ends in front of every later one. -/
theorem linesBefore_add_le {i j : Nat} (h : texts[i]? = some (name, source)) (hij : i < j) :
    linesBefore texts i + lineCount source ≤ linesBefore texts j := by
  rw [← linesBefore_succ h]
  exact linesBefore_mono hij

/-- Every line is a line of some source. -/
theorem exists_source_of_lt (texts : List (String × String)) {line : Nat}
    (h : line < linesBefore texts texts.length) :
    ∃ k name source, texts[k]? = some (name, source) ∧ linesBefore texts k ≤ line ∧
      line < linesBefore texts k + lineCount source := by
  induction texts generalizing line with
  | nil => cases h
  | cons text texts ih =>
    obtain ⟨name, source⟩ := text
    rw [List.length_cons, linesBefore_cons] at h
    by_cases hline : line < lineCount source
    · refine ⟨0, name, source, rfl, Nat.zero_le _, ?_⟩
      rw [linesBefore_zero]
      omega
    · have hrest : line - lineCount source < linesBefore texts texts.length := by omega
      obtain ⟨k, name', source', hk, hlow, hhigh⟩ := ih hrest
      refine ⟨k + 1, name', source', hk, ?_, ?_⟩
      · rw [linesBefore_cons]
        omega
      · rw [linesBefore_cons]
        omega

end

/-! ### Adding a source -/

section

variable {m : SourceMap}

/-- The lines of a source that has been added are located in it. -/
theorem locate_add (m : SourceMap) (name source : String) (l : Nat) :
    (m.add name source).2.locate (m.nextLine + l) = (name, l + 1) := by
  have hfound : m.nextLine ≤ m.nextLine + l := Nat.le_add_right _ _
  simp only [add, locate, List.find?_cons, decide_eq_true hfound, Nat.add_sub_cancel_left]

/-- The lines in front of a source that is added are located where they were. -/
theorem locate_add_of_lt {line : Nat} (h : line < m.nextLine) (name source : String) :
    (m.add name source).2.locate line = m.locate line := by
  have hfound : ¬m.nextLine ≤ line := Nat.not_le.2 h
  simp only [add, locate, List.find?_cons, decide_eq_false hfound]

end

/-! ### Adding sources in turn -/

/-- Adds sources, each one a name and a text, in turn; their first lines and the layout in the end. -/
def addAll (m : SourceMap) : List (String × String) → List Nat × SourceMap
  | [] => ([], m)
  | (name, source) :: texts =>
    let (first, m) := m.add name source
    let (firsts, m) := m.addAll texts
    (first :: firsts, m)

section

variable (m : SourceMap) (texts : List (String × String))

theorem addAll_nextLine :
    (m.addAll texts).2.nextLine = m.nextLine + linesBefore texts texts.length := by
  induction texts generalizing m with
  | nil => rfl
  | cons text texts ih =>
    rw [List.length_cons, linesBefore_cons, ← Nat.add_assoc]
    exact ih (m.add text.1 text.2).2

theorem length_addAll : (m.addAll texts).1.length = texts.length := by
  induction texts generalizing m with
  | nil => rfl
  | cons text texts ih => exact congrArg (· + 1) (ih (m.add text.1 text.2).2)

variable {m texts}

/-- A source starts behind the lines in front of it. -/
theorem getElem?_addAll {k : Nat} (h : k < texts.length) :
    (m.addAll texts).1[k]? = some (m.nextLine + linesBefore texts k) := by
  induction texts generalizing m k with
  | nil => cases h
  | cons text texts ih =>
    cases k with
    | zero => rfl
    | succ k =>
      rw [linesBefore_cons, ← Nat.add_assoc]
      exact ih (m := (m.add text.1 text.2).2) (Nat.lt_of_succ_lt_succ h)

theorem locate_addAll_of_lt {line : Nat} (h : line < m.nextLine) :
    (m.addAll texts).2.locate line = m.locate line := by
  induction texts generalizing m with
  | nil => rfl
  | cons text texts ih =>
    have hlater : line < (m.add text.1 text.2).2.nextLine := Nat.lt_add_right _ h
    exact (ih hlater).trans (locate_add_of_lt h text.1 text.2)

/-- The lines of each source are located in it, whatever is added behind it. -/
theorem locate_addAll {k l : Nat} {name source : String} (h : texts[k]? = some (name, source))
    (hl : l < lineCount source) :
    (m.addAll texts).2.locate (m.nextLine + linesBefore texts k + l) = (name, l + 1) := by
  induction texts generalizing m k with
  | nil => cases h
  | cons text texts ih =>
    cases k with
    | zero =>
      obtain rfl := Option.some.inj h
      have hlater : m.nextLine + l < (m.add name source).2.nextLine := Nat.add_lt_add_left hl _
      exact (locate_addAll_of_lt hlater).trans (locate_add m name source l)
    | succ k =>
      rw [linesBefore_cons, ← Nat.add_assoc]
      exact ih (m := (m.add text.1 text.2).2) h

end

/-! ### The correspondence -/

/-- Line `l` of the source `k` has the number `line` when the sources are added to the empty layout. -/
def Numbers (texts : List (String × String)) (line k l : Nat) : Prop :=
  ∃ name source first, texts[k]? = some (name, source) ∧ (addAll {} texts).1[k]? = some first ∧
    1 ≤ l ∧ l ≤ lineCount source ∧ line = first + l - 1

section

variable {texts : List (String × String)}

theorem first_eq {k first : Nat} (h : (addAll {} texts).1[k]? = some first) :
    first = 1 + linesBefore texts k := by
  obtain ⟨hk, -⟩ := List.getElem?_eq_some_iff.1 h
  rw [length_addAll] at hk
  exact Option.some.inj (h.symm.trans (getElem?_addAll hk))

theorem firsts_increase : (addAll {} texts).1.Pairwise (· < ·) := by
  refine List.pairwise_iff_getElem.2 fun i j hi hj hij => ?_
  obtain ⟨⟨name, source⟩, htext⟩ : ∃ text, texts[i]? = some text :=
    ⟨_, List.getElem?_eq_getElem (length_addAll {} texts ▸ hi)⟩
  have hfirst := first_eq (List.getElem?_eq_getElem hi)
  have hnext := first_eq (List.getElem?_eq_getElem hj)
  have hle := linesBefore_add_le htext hij
  have hpos : 0 < lineCount source := linesOf_pos source.toList
  omega

/-- The number of a line determines its source and the line within it. -/
theorem Numbers.unique {line k l k' l' : Nat} (h : Numbers texts line k l)
    (h' : Numbers texts line k' l') : (k, l) = (k', l') := by
  obtain ⟨name, source, first, hk, hfirst, hlow, hhigh, hline⟩ := h
  obtain ⟨name', source', first', hk', hfirst', hlow', hhigh', hline'⟩ := h'
  have heq := first_eq hfirst
  have heq' := first_eq hfirst'
  rcases Nat.lt_trichotomy k k' with hlt | rfl | hlt
  · have := linesBefore_add_le hk hlt
    omega
  · obtain rfl : first = first' := heq.trans heq'.symm
    rw [show l = l' by omega]
  · have := linesBefore_add_le hk' hlt
    omega

theorem Numbers.exists_of_lt {line : Nat} (hlow : 1 ≤ line)
    (hhigh : line < (addAll {} texts).2.nextLine) : ∃ k l, Numbers texts line k l := by
  rw [addAll_nextLine] at hhigh
  change line < 1 + _ at hhigh
  have hline : line - 1 < linesBefore texts texts.length := by omega
  obtain ⟨k, name, source, hk, hle, hlt⟩ := exists_source_of_lt texts hline
  obtain ⟨hlength, -⟩ := List.getElem?_eq_some_iff.1 hk
  refine ⟨k, line - linesBefore texts k, name, source, 1 + linesBefore texts k, hk,
    getElem?_addAll hlength, ?_, ?_, ?_⟩ <;> omega

end

/-- Adding sources in turn numbers their lines without gaps: a source starts where the one before it
ends, each of its lines is located in it, also when more sources are added, and the tokens of the
source stand on these lines.  Every line so numbered is exactly one line of exactly one source. -/
theorem lines_correspond (texts : List (String × String)) :
    (addAll {} texts).1.length = texts.length ∧ (addAll {} texts).1.Pairwise (· < ·) ∧
    (∀ first, (addAll {} texts).1[0]? = some first → first = 1) ∧
    (∀ k name source first, texts[k]? = some (name, source) →
      (addAll {} texts).1[k]? = some first →
      1 ≤ lineCount source ∧
      (∀ next, (addAll {} texts).1[k + 1]? = some next → next = first + lineCount source) ∧
      (∀ l, 1 ≤ l → l ≤ lineCount source → ∀ more,
        ((addAll {} texts).2.addAll more).2.locate (first + l - 1) = (name, l)) ∧
      ∀ tokens, tokenizeFrom first source = .ok tokens → ∀ t ∈ tokens, t.kind ≠ .endMark →
        first ≤ t.line ∧ t.line ≤ first + lineCount source - 1) ∧
    ∀ line, 1 ≤ line → line < (addAll {} texts).2.nextLine →
      ∃! p : Nat × Nat, Numbers texts line p.1 p.2 := by
  refine ⟨length_addAll {} texts, firsts_increase, fun first h => ?_, ?_, fun line hlow hhigh => ?_⟩
  · rw [first_eq h, linesBefore_zero]
  · intro k name source first hk hfirst
    have hpos : 1 ≤ lineCount source := linesOf_pos source.toList
    obtain rfl := first_eq hfirst
    refine ⟨hpos, fun next hnext => ?_, fun l hlow hhigh more => ?_, fun tokens htokens t ht hmark => ?_⟩
    · rw [first_eq hnext, linesBefore_succ hk, Nat.add_assoc]
    · obtain ⟨l, rfl⟩ := Nat.exists_eq_add_one_of_ne_zero (Nat.pos_iff_ne_zero.1 hlow)
      have hlocate := locate_addAll (m := {}) hk (Nat.lt_of_succ_le hhigh)
      refine Eq.trans (locate_addAll_of_lt ?_) hlocate
      obtain ⟨hlength, -⟩ := List.getElem?_eq_some_iff.1 hk
      have hend := linesBefore_add_le hk hlength
      rw [addAll_nextLine]
      change _ < 1 + _
      omega
    · obtain ⟨inner, mark, rfl, hkind, -, hinner⟩ := tokenizeFrom_ok htokens
      rcases List.mem_append.1 ht with ht | ht
      · obtain ⟨-, hlow, hhigh⟩ := hinner t ht
        exact ⟨hlow, by omega⟩
      · rw [List.mem_singleton.1 ht] at hmark
        exact absurd hkind hmark
  · obtain ⟨k, l, h⟩ := Numbers.exists_of_lt hlow hhigh
    exact ⟨(k, l), h, fun p hp => hp.unique h⟩

/-- Three sources, the last one empty. -/
theorem lines_of_three_correspond :
    let texts := [("prelude", "a
b
c"), ("main", "x

"), ("main", "")]
    (addAll {} texts).1 = [1, 4, 6] ∧ (addAll {} texts).2.locate 5 = ("main", 2) ∧
      ∃! p : Nat × Nat, Numbers texts 6 p.1 p.2 := by
  intro texts
  obtain ⟨-, -, -, hsources, hlines⟩ := lines_correspond texts
  refine ⟨by decide, ?_, hlines 6 (by decide) (by decide)⟩
  exact (hsources 1 "main" "x

" 4 rfl (by decide)).2.2.1 2 (by decide) (by decide) []

end ScopedScript.SourceMap
