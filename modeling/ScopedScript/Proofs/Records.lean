import Mathlib
import ScopedScript.Value.Text

/-! # Writing to records

A record that is made from distinct names keeps them distinct, whatever is written to it.

* **One write.** `Record.Written` says what a write does without saying how: a name that has a value
  gets the new one in the same place, and any other name comes last.
* **Several writes.** After a sequence of writes a name has the value that was written last
  (`Record.get?_setAll`), and the names are in the order in which they were first written
  (`Record.keys_setAll`).
* **Display.** The text of an object lists each name once, in that order, with the value that reading
  it would give (`Value.textWithin_object`). -/

namespace ScopedScript

namespace Record

variable {α : Type} {name : String} {value : α} {r : Record α}

/-- One write.  The rest of the record is as before. -/
inductive Written (name : String) (value : α) : Record α → Record α → Prop
  | replaced (before after : Record α) (old : α) : name ∉ keys before → name ∉ keys after →
      Written name value (before ++ (name, old) :: after) (before ++ (name, value) :: after)
  | added {r : Record α} : name ∉ keys r → Written name value r (r ++ [(name, value)])

theorem keys_cons (p : String × α) (r : Record α) : keys (p :: r) = p.1 :: keys r := rfl

/-- Names stay distinct. -/
theorem nodup_keys_set (h : (keys r).Nodup) (name : String) (value : α) :
    (keys (r.set name value)).Nodup := by
  rw [keys_set]
  split
  · exact h
  · next hname =>
    rw [← List.concat_eq_append, List.nodup_concat]
    exact ⟨hname, h⟩

/-- Writing to a record is one write. -/
theorem written_set (h : (keys r).Nodup) (name : String) (value : α) :
    Written name value r (r.set name value) := by
  induction r with
  | nil => exact .added (by simp [keys])
  | cons p r ih =>
    obtain ⟨k, v⟩ := p
    obtain ⟨hk, hr⟩ := List.nodup_cons.1 h
    simp only [set, beq_iff_eq]
    split
    · next heq =>
      subst heq
      exact .replaced [] r v (by simp [keys]) hk
    · next hne =>
      have hrest := ih hr
      generalize set r name value = r' at hrest ⊢
      cases hrest with
      | replaced before after old hbefore hafter =>
        exact .replaced ((k, v) :: before) after old (by simp [keys_cons, hne, hbefore]) hafter
      | added hname => exact .added (by simp [keys_cons, hne, hname])

/-- The record after several writes, the first one first. -/
def setAll (r : Record α) (writes : List (String × α)) : Record α :=
  writes.foldl (fun r w => r.set w.1 w.2) r

theorem setAll_concat (r : Record α) (writes : List (String × α)) (w : String × α) :
    r.setAll (writes ++ [w]) = (r.setAll writes).set w.1 w.2 := List.foldl_concat ..

theorem setAll_append (r : Record α) (writes more : List (String × α)) :
    r.setAll (writes ++ more) = (r.setAll writes).setAll more := List.foldl_append

/-- A name has the value that was written last, if any was. -/
theorem get?_setAll (r : Record α) (writes : List (String × α)) (name : String) :
    (r.setAll writes).get? name = (get? writes.reverse name).or (r.get? name) := by
  induction writes using List.reverseRecOn with
  | nil => rfl
  | append_singleton writes w ih =>
    rw [setAll_concat, List.reverse_concat, get?_cons]
    by_cases h : name = w.1
    · rw [if_pos h, h, get?_set_self]
      rfl
    · rw [if_neg h, get?_set_of_ne _ _ h, ih]

theorem eraseDups_concat (xs : List String) (x : String) :
    (xs ++ [x]).eraseDups = if x ∈ xs then xs.eraseDups else xs.eraseDups ++ [x] := by
  rw [List.eraseDups_append]
  by_cases h : x ∈ xs <;> simp [List.removeAll, h, List.eraseDups_cons]

theorem eraseDups_of_nodup {xs : List String} (h : xs.Nodup) : xs.eraseDups = xs := by
  induction xs using List.reverseRecOn with
  | nil => rfl
  | append_singleton xs x ih =>
    obtain ⟨hx, hxs⟩ := (List.nodup_concat xs x).1 (by rwa [List.concat_eq_append])
    rw [eraseDups_concat, if_neg hx, ih hxs]

/-- The names are in the order in which they came up first. -/
theorem keys_setAll (h : (keys r).Nodup) (writes : List (String × α)) :
    keys (r.setAll writes) = (keys r ++ writes.map Prod.fst).eraseDups := by
  induction writes using List.reverseRecOn with
  | nil => rw [List.map_nil, List.append_nil, eraseDups_of_nodup h, setAll, List.foldl_nil]
  | append_singleton writes w ih =>
    rw [setAll_concat, keys_set, ih, List.map_append, ← List.append_assoc]
    simp only [List.map_cons, List.map_nil, eraseDups_concat, List.mem_eraseDups]

/-- A record with distinct names is told by the values that it has for them. -/
theorem eq_map_keys (h : (keys r).Nodup) (default : α) :
    r = (keys r).map fun k => (k, (r.get? k).getD default) := by
  induction r with
  | nil => rfl
  | cons p r ih =>
    obtain ⟨k, v⟩ := p
    obtain ⟨hk, hr⟩ := List.nodup_cons.1 h
    have hrest : ∀ name ∈ keys r, get? ((k, v) :: r) name = get? r name := by
      intro name hname
      rw [get?_cons, if_neg]
      rintro rfl
      exact hk hname
    rw [keys_cons, List.map_cons, get?_cons, if_pos rfl]
    congr 1
    refine (ih hr).trans (List.map_congr_left fun name hname => ?_)
    rw [hrest name hname]

end Record

/-- The text of an object that is entered lists each name once, in order, with its value. -/
theorem Value.textWithin_object {h : Heap} {ref : Ref} (hkeys : (Record.keys (h.record ref)).Nodup)
    (budget : Nat) {chain : List Container} (hchain : .object ref ∉ chain) :
    textWithin h (budget + 1) chain (.object ref) =
      "\x7b" ++ String.intercalate ", " ((Record.keys (h.record ref)).map fun k =>
        k ++ ": " ++ textWithin h budget (.object ref :: chain)
          (((h.record ref).get? k).getD .undefined)) ++ "\x7d" := by
  have hentered : chain.contains (Container.object ref) = false := by simpa using hchain
  rw [textWithin, hentered, if_neg Bool.false_ne_true]
  conv_lhs => rw [Record.eq_map_keys hkeys Value.undefined, List.map_map]
  rfl

end ScopedScript
