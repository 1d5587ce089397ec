import ScopedScript.Proofs.Parsing.Programs
import ScopedScript.Proofs.Parsing.Readings
import ScopedScript.Proofs.Parsing.Totality

/-! # Canonical expressions are read back

A canonical tree is what the parser reads from the tree's spelling, up to the numbers of variable
nodes (`canonical_declaration_read`).  Each kind of expression has one rule here, which makes a
`Grammar.Read` of the whole from those of its parts; over a canonical tree the rules add up.  Two
canonical trees with the same spelling are therefore the same (`spelling_unambiguous`). -/

namespace ScopedScript

namespace Grammar

/-! ### Rows in brackets -/

section

variable {closing : Token} {rest : List Token}

theorem over_of_closing {c : Cursor} (hc : c.rest = closing :: rest) {kind : Token.Kind}
    (hclosing : closing.kind = kind) (hkind : kind ≠ .endMark) :
    (c.check kind || c.atEnd) = true := by
  rw [Parses.check_of_eq hc hclosing hkind]
  rfl

/-- A joined row starts with the first of its rows. -/
theorem joined_head {row inside : List Token} {rows : List (List Token)}
    (h : Joined (row :: rows) inside) : ∃ more, inside = row ++ more := by
  cases h with
  | one => exact ⟨_, rfl⟩
  | more => exact ⟨_, List.append_assoc _ _ _⟩

theorem joined_single {row inside : List Token} (h : Joined [row] inside) :
    ∃ after, inside = row ++ after ∧ Feeds after := by
  cases h with
  | one hafter => exact ⟨_, rfl, hafter⟩

/-- An item of a row in brackets, with the line feeds after it. -/
theorem item_read {α : Type} {e : Expr} {row after : List Token} (h : Read e row)
    (hafter : Feeds after) {t : Token} (ht : continuation t.kind = none ∧ t.kind ≠ .newline)
    {fuel : Nat} {c : Cursor} (hc : c.rest = row ++ (after ++ t :: rest)) {k : Expr → Parse α}
    {P : α → Cursor → Prop}
    (hk : ∀ e' c', Is e (t :: rest) e' c' → Parses (k e') c' P) :
    Parses (do let e ← expression fuel; Grammar.skipNewlines; k e) c P := by
  refine (h.expression hc (closes_feeds hafter ht.1 rest)).bind fun e' c₁ h₁ => ?_
  exact (Parses.skipNewlines h₁.2 hafter ht.2).bind fun _ c₂ h₂ => hk e' c₂ ⟨h₁.1, h₂⟩

theorem elementRow_reads {rows : List (List Token)} {inside : List Token}
    (hinside : Joined rows inside) (hclosing : closing.kind = .rightBracket) {es : List Expr}
    (hes : List.Forall₂ Read es rows) {fuel : Nat} {c : Cursor}
    (hc : c.rest = inside ++ closing :: rest) :
    Parses (elementRow fuel) c fun es' c' =>
      exprsUnnumbered es' = exprsUnnumbered es ∧ c'.rest = closing :: rest := by
  induction hinside generalizing es fuel c with
  | none =>
    obtain rfl := List.forall₂_nil_right_iff.1 hes
    cases fuel with
    | zero => exact .outOfFuel
    | succ fuel =>
      simp only [elementRow]
      refine .get ?_
      rw [if_pos (over_of_closing hc hclosing (by decide))]
      exact .pure ⟨rfl, hc⟩
  | @one row after hafter =>
    cases hes with
    | @cons e _ es _ he hes =>
    obtain rfl := List.forall₂_nil_right_iff.1 hes
    rw [List.append_assoc] at hc
    cases fuel with
    | zero => exact .outOfFuel
    | succ fuel =>
      simp only [elementRow]
      refine .get ?_
      rw [if_neg (Bool.eq_false_iff.1 (he.not_over hc (by decide)))]
      refine item_read he hafter (by rw [hclosing]; decide) hc fun e' c₁ h₁ => ?_
      refine .accept_other h₁.2 (by rw [hclosing]; decide) (.pure ⟨?_, h₁.2⟩)
      rw [exprsUnnumbered, exprsUnnumbered, h₁.1]
      rfl
  | @more row after before ts next comma rows hafter hcomma hbefore hts ih =>
    cases hes with
    | @cons e _ es _ he hes =>
    obtain ⟨d, ds, hd, -, rfl⟩ := List.forall₂_cons_right_iff.1 hes
    obtain ⟨more, rfl⟩ := joined_head hts
    simp only [List.append_assoc, List.cons_append] at hc
    cases fuel with
    | zero => exact .outOfFuel
    | succ fuel =>
      simp only [elementRow]
      refine .get ?_
      rw [if_neg (Bool.eq_false_iff.1 (he.not_over hc (by decide)))]
      refine item_read he hafter (by rw [hcomma]; decide) hc fun e' c₁ h₁ => ?_
      refine .accept h₁.2 hcomma (by decide) fun c₂ h₂ => ?_
      refine (hd.solid.skipNewlines h₂ hbefore).bind fun _ c₃ h₃ => ?_
      refine (ih hes (h₃.trans (List.append_assoc _ _ _).symm)).bind fun es' c₄ h₄ => .pure ⟨?_, h₄.2⟩
      rw [exprsUnnumbered, exprsUnnumbered, h₁.1, h₄.1]

theorem argumentRow_reads {rows : List (List Token)} {inside : List Token}
    (hinside : Joined rows inside) (hclosing : closing.kind = .rightParen) {es : List Expr}
    (hes : List.Forall₂ Read es rows) (hrows : rows ≠ []) {fuel count : Nat}
    (hcount : count + es.length ≤ maxArguments) {feeds : List Token} (hfeeds : Feeds feeds)
    {c : Cursor} (hc : c.rest = feeds ++ (inside ++ closing :: rest)) :
    Parses (argumentRow fuel count) c fun es' c' =>
      exprsUnnumbered es' = exprsUnnumbered es ∧ c'.rest = closing :: rest := by
  induction hinside generalizing es fuel count c feeds with
  | none => exact absurd rfl hrows
  | @one row after hafter =>
    cases hes with
    | @cons e _ es _ he hes =>
    obtain rfl := List.forall₂_nil_right_iff.1 hes
    rw [List.append_assoc] at hc
    cases fuel with
    | zero => exact .outOfFuel
    | succ fuel =>
      simp only [argumentRow]
      refine (he.solid.skipNewlines hc hfeeds).bind fun _ c₁ h₁ => ?_
      rw [if_neg (by simp at hcount; omega)]
      refine item_read he hafter (by rw [hclosing]; decide) h₁ fun e' c₂ h₂ => ?_
      refine .accept_other h₂.2 (by rw [hclosing]; decide) (.pure ⟨?_, h₂.2⟩)
      rw [exprsUnnumbered, exprsUnnumbered, h₂.1]
      rfl
  | @more row after before ts next comma rows hafter hcomma hbefore hts ih =>
    cases hes with
    | @cons e _ es _ he hes =>
    simp only [List.append_assoc, List.cons_append] at hc
    cases fuel with
    | zero => exact .outOfFuel
    | succ fuel =>
      simp only [List.length_cons] at hcount
      simp only [argumentRow]
      refine (he.solid.skipNewlines hc hfeeds).bind fun _ c₁ h₁ => ?_
      rw [if_neg (by omega)]
      refine item_read he hafter (by rw [hcomma]; decide) h₁ fun e' c₂ h₂ => ?_
      refine .accept h₂.2 hcomma (by decide) fun c₃ h₃ => ?_
      have hcount' : count + 1 + es.length ≤ maxArguments := by omega
      refine (ih hes (List.cons_ne_nil _ _) hcount' hbefore h₃).bind fun es' c₄ h₄ =>
        .pure ⟨?_, h₄.2⟩
      rw [exprsUnnumbered, exprsUnnumbered, h₂.1, h₄.1]

/-- A property whose value is read from its row. -/
def EntryRead (entry : Entry) (row : List Token) : Prop :=
  ∃ colon feeds us, row = entry.key :: colon :: (feeds ++ us) ∧ entry.key.kind = .name ∧
    colon.kind = .colon ∧ Feeds feeds ∧ Read entry.value us

/-- A new key comes last. -/
theorem addEntry_of_new {entries : List Entry} {key : Token} {value : Expr}
    (h : ∀ entry ∈ entries, entry.key.lexeme ≠ key.lexeme) :
    addEntry entries key value = entries ++ [.mk key value] := by
  induction entries with
  | nil => rfl
  | cons entry entries ih =>
    obtain ⟨k, v⟩ := entry
    have hk : k.lexeme ≠ key.lexeme := h (.mk k v) List.mem_cons_self
    rw [addEntry, if_neg hk, ih fun entry hentry => h entry (List.mem_cons_of_mem _ hentry),
      List.cons_append]

/-- A property with a new key is added behind those read before. -/
theorem addEntry_unnumbered {acc es : List Entry} {entry : Entry}
    (hnodup : ((acc ++ entry :: es).map fun entry => entry.key.lexeme).Nodup) {value : Expr}
    (hvalue : value.unnumbered = entry.value.unnumbered) :
    ∃ added, addEntry acc entry.key value = acc ++ [added] ∧
      added.key.lexeme = entry.key.lexeme ∧
      entriesUnnumbered [added] = entriesUnnumbered [entry] := by
  obtain ⟨key, v⟩ := entry
  refine ⟨.mk key value, addEntry_of_new fun e he heq => ?_, rfl, ?_⟩
  · rw [List.map_append, List.nodup_append] at hnodup
    exact hnodup.2.2 _ (List.mem_map_of_mem he) _ List.mem_cons_self heq
  · have hvalue : value.unnumbered = v.unnumbered := hvalue
    simp only [entriesUnnumbered, hvalue]

/-- The key, the colon and the value of a property. -/
theorem entry_read {α : Type} {entry : Entry} {row after : List Token} (h : EntryRead entry row)
    (hafter : Feeds after) {t : Token} (ht : continuation t.kind = none ∧ t.kind ≠ .newline)
    {fuel : Nat} {c : Cursor} (hc : c.rest = row ++ (after ++ t :: rest))
    {k : Token → Expr → Parse α} {P : α → Cursor → Prop}
    (hk : ∀ e' c', Is entry.value (t :: rest) e' c' → Parses (k entry.key e') c' P) :
    Parses (do
      let key ← expect .name .entryName
      let _ ← expect .colon .entryColon
      Grammar.skipNewlines
      let value ← expression fuel
      Grammar.skipNewlines
      k key value) c P := by
  obtain ⟨colon, feeds, us, rfl, hkey, hcolon, hfeeds, hvalue⟩ := h
  simp only [List.cons_append, List.append_assoc] at hc
  refine (Parses.expect hc hkey (by decide) _).bind fun key c₁ h₁ => ?_
  rw [h₁.1]
  refine (Parses.expect h₁.2 hcolon (by decide) _).bind fun _ c₂ h₂ => ?_
  refine (hvalue.solid.skipNewlines h₂.2 hfeeds).bind fun _ c₃ h₃ => ?_
  exact item_read hvalue hafter ht h₃ hk

theorem EntryRead.solid {entry : Entry} {row : List Token} (h : EntryRead entry row) : Solid row := by
  obtain ⟨colon, feeds, us, hrow, hkey, _⟩ := h
  exact ⟨entry.key, _, hrow, by rw [hkey]; decide⟩

theorem EntryRead.not_over {entry : Entry} {row : List Token} (h : EntryRead entry row)
    {c : Cursor} (hc : c.rest = row ++ rest) : (c.check .rightBrace || c.atEnd) = false := by
  obtain ⟨colon, feeds, us, rfl, hkey, _⟩ := h
  have hne : entry.key.kind ≠ .rightBrace := by rw [hkey]; decide
  rw [Parses.check_of_ne hc hne, Parses.atEnd_eq hc (by rw [hkey]; decide)]
  rfl

theorem entryRow_reads {rows : List (List Token)} {inside : List Token}
    (hinside : Joined rows inside) (hclosing : closing.kind = .rightBrace) {es acc : List Entry}
    (hes : List.Forall₂ EntryRead es rows)
    (hnodup : ((acc ++ es).map fun entry => entry.key.lexeme).Nodup) {fuel : Nat} {c : Cursor}
    (hc : c.rest = inside ++ closing :: rest) :
    Parses (entryRow fuel acc) c fun es' c' =>
      entriesUnnumbered es' = entriesUnnumbered (acc ++ es) ∧ c'.rest = closing :: rest := by
  induction hinside generalizing es acc fuel c with
  | none =>
    obtain rfl := List.forall₂_nil_right_iff.1 hes
    cases fuel with
    | zero => exact .outOfFuel
    | succ fuel =>
      simp only [entryRow]
      refine .get ?_
      rw [if_pos (over_of_closing hc hclosing (by decide))]
      exact .pure ⟨by rw [List.append_nil], hc⟩
  | @one row after hafter =>
    cases hes with
    | @cons entry _ es _ he hes =>
    obtain rfl := List.forall₂_nil_right_iff.1 hes
    rw [List.append_assoc] at hc
    cases fuel with
    | zero => exact .outOfFuel
    | succ fuel =>
      simp only [entryRow]
      refine .get ?_
      rw [if_neg (Bool.eq_false_iff.1 (he.not_over hc))]
      refine entry_read he hafter (by rw [hclosing]; decide) hc fun e' c₁ h₁ => ?_
      obtain ⟨added, hacc, -, hadded⟩ := addEntry_unnumbered hnodup h₁.1
      refine .accept_other h₁.2 (by rw [hclosing]; decide) (.pure ⟨?_, h₁.2⟩)
      rw [hacc, entriesUnnumbered_append, entriesUnnumbered_append, hadded]
  | @more row after before ts next comma rows hafter hcomma hbefore hts ih =>
    cases hes with
    | @cons entry _ es _ he hes =>
    obtain ⟨d, ds, hd, -, rfl⟩ := List.forall₂_cons_right_iff.1 hes
    obtain ⟨more, rfl⟩ := joined_head hts
    simp only [List.append_assoc, List.cons_append] at hc
    cases fuel with
    | zero => exact .outOfFuel
    | succ fuel =>
      simp only [entryRow]
      refine .get ?_
      rw [if_neg (Bool.eq_false_iff.1 (he.not_over hc))]
      refine entry_read he hafter (by rw [hcomma]; decide) hc fun e' c₁ h₁ => ?_
      obtain ⟨added, hacc, hkeys, hadded⟩ := addEntry_unnumbered hnodup h₁.1
      refine .accept h₁.2 hcomma (by decide) fun c₂ h₂ => ?_
      refine (hd.solid.skipNewlines h₂ hbefore).bind fun _ c₃ h₃ => ?_
      rw [hacc]
      have hnodup' : ((acc ++ [added] ++ d :: ds).map fun entry => entry.key.lexeme).Nodup := by
        simpa [hkeys] using hnodup
      refine (ih hes hnodup' (by simpa using h₃)).imp fun es' c₄ h₄ => ⟨?_, h₄.2⟩
      rw [h₄.1, List.append_cons acc entry]
      simp only [entriesUnnumbered_append, hadded]

end

/-! ### The kinds of expressions -/

section

variable {fuel : Nat} {c : Cursor} {token : Token} {rest : List Token}

/-- What is read behind the name of a variable. -/
theorem primary_word (h : token.IsVariable) (hc : c.rest = token :: rest)
    {P : Expr → Cursor → Prop}
    (hrest : ∀ id c₁, c₁.rest = rest → Parses (do
      if ← Grammar.accept .leftBracket then
        let index ← expression fuel
        let _ ← Grammar.expect .rightBracket .indexClose
        return .index id token index
      else return .name id token) c₁ P) :
    Parses (primary (fuel + 1)) c P := by
  have hend : token.kind ≠ .endMark := by rcases h with h | h <;> rw [h] <;> decide
  have hword : Parses (do
      let name ← Grammar.advance
      let id ← Grammar.freshId
      if ← Grammar.accept .leftBracket then
        let index ← expression fuel
        let _ ← Grammar.expect .rightBracket .indexClose
        return .index id name index
      else return .name id name) c P := by
    refine (Parses.advance hc hend).bind fun a c₁ h₁ => ?_
    rw [h₁.1]
    exact (Parses.freshId h₁.2).bind fun id c₂ h₂ => hrest id c₂ h₂
  rw [primary]
  refine .get ?_
  rw [Parses.peek_eq hc]
  rcases h with h | h <;> rw [h] <;> exact hword

theorem name_read (id : NodeId) (h : token.IsVariable) : Read (.name id token) [token] := by
  refine .of_primary h.starts fun {fuel c rest} hc hrest => ?_
  obtain ⟨t, more, rfl, ht⟩ := hrest
  cases fuel with
  | zero => exact .outOfFuel
  | succ fuel =>
    refine primary_word h hc fun id c₁ h₁ => ?_
    refine .accept_other h₁ (fun hkind => ?_) (.pure ⟨rfl, h₁⟩)
    exact absurd (ht 9 (by rw [hkind]; rfl)) (by decide)

theorem index_read (id : NodeId) (h : token.IsVariable) {index : Expr} {opening closing : Token}
    {us : List Token} (hopening : opening.kind = .leftBracket)
    (hclosing : closing.kind = .rightBracket) (hindex : Read index us) :
    Read (.index id token index) (token :: opening :: (us ++ [closing])) := by
  refine .of_primary h.starts fun {fuel c rest} hc _ => ?_
  simp only [List.cons_append, List.append_assoc, List.nil_append] at hc
  cases fuel with
  | zero => exact .outOfFuel
  | succ fuel =>
    refine primary_word h hc fun id c₁ h₁ => ?_
    refine .accept h₁ hopening (by decide) fun c₂ h₂ => ?_
    have hcloses : continuation closing.kind = none := by rw [hclosing]; rfl
    refine (hindex.expression h₂ (closes_of_none hcloses rest)).bind fun e' c₃ h₃ => ?_
    refine (Parses.expect h₃.2 hclosing (by decide) _).bind fun _ c₄ h₄ => .pure ⟨?_, h₄.2⟩
    simp only [Expr.unnumbered, h₃.1]

theorem this_read (id : NodeId) (h : token.kind = .kwThis) : Read (.this id token) [token] := by
  refine .of_primary (by rw [h]; decide) fun {fuel c rest} hc _ => ?_
  cases fuel with
  | zero => exact .outOfFuel
  | succ fuel =>
    rw [primary]
    refine .get ?_
    rw [Parses.peek_eq hc, h]
    refine (Parses.advance hc (by rw [h]; decide)).bind fun a c₁ h₁ => ?_
    refine (Parses.freshId h₁.2).bind fun id c₂ h₂ => .pure ⟨?_, h₂⟩
    rw [h₁.1]
    rfl

/-- A literal of one token. -/
theorem single_read {value : LiteralValue} (he : value.Canonical token.kind)
    (hvalue : value.Denoted token) (hlist : ∀ elements, value ≠ .list elements) :
    Read (.literal token.kind value) [token] := by
  have hstarts : token.kind ∈ operandStarters := by
    cases value with
    | num v => rcases he with h | h <;> rw [h] <;> decide
    | bool b => rw [show token.kind = _ from he]; cases b <;> decide
    | list elements => exact absurd rfl (hlist elements)
    | _ => rw [show token.kind = _ from he]; decide
  refine .of_primary hstarts fun {fuel c rest} hc _ => ?_
  have hadvance := Parses.advance hc fun hend => absurd (hend ▸ hstarts) (by decide)
  cases fuel with
  | zero => exact .outOfFuel
  | succ fuel =>
    rw [primary]
    refine .get ?_
    rw [Parses.peek_eq hc]
    cases value with
    | num v =>
      have hliteral : token.literal = some (.num v) := hvalue
      have hread : Parses (do numberLiteral (← Grammar.advance)) c
          (Is (.literal token.kind (.num v)) rest) := by
        refine hadvance.bind fun a c₁ h₁ => ?_
        rw [h₁.1, numberLiteral, hliteral]
        exact .pure ⟨rfl, h₁.2⟩
      rcases he with h | h
      all_goals
        rw [h] at hread ⊢
        exact hread
    | str v =>
      have hliteral : token.literal = some (.str v) := hvalue
      rw [show token.kind = .string from he]
      refine hadvance.bind fun a c₁ h₁ => .pure ⟨?_, h₁.2⟩
      rw [h₁.1, stringLiteral, hliteral]
    | bool b =>
      rw [show token.kind = if b then .trueLit else .falseLit from he]
      cases b <;> exact hadvance.bind fun a c₁ h₁ => .pure ⟨rfl, h₁.2⟩
    | null =>
      rw [show token.kind = .nullLit from he]
      exact hadvance.bind fun a c₁ h₁ => .pure ⟨rfl, h₁.2⟩
    | undefined =>
      rw [show token.kind = .undefinedLit from he]
      exact hadvance.bind fun a c₁ h₁ => .pure ⟨rfl, h₁.2⟩
    | emptyObject =>
      rw [show token.kind = .emptyObject from he]
      exact hadvance.bind fun a c₁ h₁ => .pure ⟨rfl, h₁.2⟩
    | list elements => exact absurd rfl (hlist elements)

/-! ### Brackets -/

section

variable {opening closing : Token} {inside : List Token} {rows : List (List Token)}

theorem grouping_read {inner : Expr} {row : List Token} (hopening : opening.kind = .leftParen)
    (hclosing : closing.kind = .rightParen) (hinner : Read inner row)
    (hinside : Filling [row] inside) :
    Read (.grouping inner) (opening :: (inside ++ [closing])) := by
  obtain ⟨feeds, _, rfl, hfeeds, hinside⟩ := hinside
  obtain ⟨after, rfl, hafter⟩ := joined_single hinside
  refine .of_primary (by rw [hopening]; decide) fun {fuel c rest} hc _ => ?_
  simp only [List.cons_append, List.append_assoc, List.nil_append] at hc
  cases fuel with
  | zero => exact .outOfFuel
  | succ fuel =>
    rw [primary]
    refine .get ?_
    rw [Parses.peek_eq hc, hopening]
    refine (Parses.advance hc (by rw [hopening]; decide)).bind fun _ c₁ h₁ => ?_
    refine (hinner.solid.skipNewlines h₁.2 hfeeds).bind fun _ c₂ h₂ => ?_
    refine item_read hinner hafter (by rw [hclosing]; decide) h₂ fun e' c₃ h₃ => ?_
    refine (Parses.expect h₃.2 hclosing (by decide) _).bind fun _ c₄ h₄ => .pure ⟨?_, h₄.2⟩
    simp only [Expr.unnumbered, h₃.1]

/-- Line feeds between an opening bracket and what stands inside. -/
theorem joined_skipNewlines {α : Type} {R : α → List Token → Prop} {items : List α}
    (hitems : List.Forall₂ R items rows) (hsolid : ∀ {a row}, R a row → Solid row)
    {feeds : List Token} (hfeeds : Feeds feeds) (hinside : Joined rows inside)
    (hclosing : closing.kind ≠ .newline) {c : Cursor}
    (hc : c.rest = feeds ++ (inside ++ closing :: rest)) :
    Parses Grammar.skipNewlines c fun _ c₁ => c₁.rest = inside ++ closing :: rest := by
  cases hitems with
  | nil =>
    cases hinside
    exact .skipNewlines hc hfeeds hclosing
  | cons hfirst _ =>
    obtain ⟨t, us, rfl, ht⟩ := hsolid hfirst
    obtain ⟨more, rfl⟩ := joined_head hinside
    exact .skipNewlines hc hfeeds ht

theorem list_read {elements : List Expr} (hopening : opening.kind = .leftBracket)
    (hclosing : closing.kind = .rightBracket) (helements : List.Forall₂ Read elements rows)
    (hinside : Filling rows inside) :
    Read (.literal .list (.list elements)) (opening :: (inside ++ [closing])) := by
  obtain ⟨feeds, inside, rfl, hfeeds, hinside⟩ := hinside
  refine .of_primary (by rw [hopening]; decide) fun {fuel c rest} hc _ => ?_
  simp only [List.cons_append, List.append_assoc, List.nil_append] at hc
  cases fuel with
  | zero => exact .outOfFuel
  | succ fuel =>
    rw [primary]
    refine .get ?_
    rw [Parses.peek_eq hc, hopening]
    refine (Parses.advance hc (by rw [hopening]; decide)).bind fun _ c₁ h₁ => ?_
    have hfeed : closing.kind ≠ .newline := by rw [hclosing]; decide
    refine (joined_skipNewlines helements Read.solid hfeeds hinside hfeed h₁.2).bind
      fun _ c₂ h₂ => ?_
    refine (elementRow_reads hinside hclosing helements h₂).bind fun es' c₃ h₃ => ?_
    refine (Parses.expect h₃.2 hclosing (by decide) _).bind fun _ c₄ h₄ => .pure ⟨?_, h₄.2⟩
    simp only [Expr.unnumbered, LiteralValue.unnumbered, h₃.1]

/-- A key and a colon, or a closing brace, tell an object from a block. -/
theorem atObject_of_entries {brace : Token} {entries : List Entry} {feeds : List Token}
    (hentries : List.Forall₂ EntryRead entries rows) (hinside : Joined rows inside)
    (hclosing : closing.kind = .rightBrace) (hfeeds : Feeds feeds) {c : Cursor}
    (hc : c.rest = brace :: (feeds ++ (inside ++ closing :: rest))) : c.atObject = true := by
  have hdrop {t : Token} {ts : List Token} (ht : t.kind ≠ .newline) :
      (feeds ++ t :: ts).dropWhile (·.kind == .newline) = t :: ts := by
    rw [Reads.dropWhile_feeds hfeeds, List.dropWhile_cons_of_neg (by simpa using ht)]
  rw [Cursor.atObject, hc, List.tail_cons]
  cases hentries with
  | nil =>
    cases hinside
    simp [closesAtOnce, hdrop (t := closing) (by rw [hclosing]; decide), hclosing]
  | @cons entry _ es _ he hes =>
    obtain ⟨colon, gap, us, rfl, hkey, hcolon, -⟩ := he
    obtain ⟨more, rfl⟩ := joined_head hinside
    simp only [List.cons_append]
    simp [startsEntry, hdrop (t := entry.key) (by rw [hkey]; decide), hkey, hcolon]

theorem object_read {brace : Token} {entries : List Entry} (hbrace : brace.kind = .leftBrace)
    (hclosing : closing.kind = .rightBrace)
    (hnodup : (entries.map fun entry => entry.key.lexeme).Nodup)
    (hentries : List.Forall₂ EntryRead entries rows) (hinside : Filling rows inside) :
    Read (.object brace entries) (brace :: (inside ++ [closing])) := by
  obtain ⟨feeds, inside, rfl, hfeeds, hinside⟩ := hinside
  refine .of_primary (by rw [hbrace]; decide) fun {fuel c rest} hc _ => ?_
  simp only [List.cons_append, List.append_assoc, List.nil_append] at hc
  cases fuel with
  | zero => exact .outOfFuel
  | succ fuel =>
    rw [primary]
    refine .get ?_
    rw [Parses.peek_eq hc, hbrace]
    dsimp only
    rw [if_pos (atObject_of_entries hentries hinside hclosing hfeeds hc)]
    refine (Parses.advance hc (by rw [hbrace]; decide)).bind fun a c₁ h₁ => ?_
    have hfeed : closing.kind ≠ .newline := by rw [hclosing]; decide
    refine (joined_skipNewlines hentries EntryRead.solid hfeeds hinside hfeed h₁.2).bind
      fun _ c₂ h₂ => ?_
    have hnodup : (([] ++ entries).map fun entry : Entry => entry.key.lexeme).Nodup := hnodup
    refine (entryRow_reads hinside hclosing hentries hnodup h₂).bind fun es' c₃ h₃ => ?_
    refine (Parses.expect h₃.2 hclosing (by decide) _).bind fun _ c₄ h₄ => .pure ⟨?_, h₄.2⟩
    rw [h₁.1]
    simp only [Expr.unnumbered, h₃.1, List.nil_append]

end

/-! ### Calls, properties and operators -/

theorem get_read {object : Expr} {dot name : Token} {us : List Token} (hdot : dot.kind = .dot)
    (hname : name.kind = .name) (hlevel : 8 ≤ object.level) (hobject : Read object us) :
    Read (.get object name) (us ++ [dot, name]) := by
  refine .of_head (hobject.starts.append (fun _ => hlevel) _) fun {fuel c rest P} hc _ hP => ?_
  simp only [List.cons_append, List.append_assoc, List.nil_append] at hc
  have hcloses : continuation dot.kind = some 8 := by rw [hdot]; rfl
  refine hobject.head hlevel hc (closes_of_continuation hcloses _) fun fuel' e' c' he => ?_
  cases fuel' with
  | zero => exact .outOfFuel
  | succ fuel' =>
    simp only [postfixRest]
    refine .accept_other he.2 (by rw [hdot]; decide) ?_
    refine .accept he.2 hdot (by decide) fun c₁ h₁ => ?_
    refine (Parses.expect h₁ hname (by decide) _).bind fun a c₂ h₂ => ?_
    refine hP fuel' _ c₂ ⟨?_, h₂.2⟩
    simp only [Expr.unnumbered, he.1, h₂.1]

theorem call_read {callee : Expr} {opening paren : Token} {args : List Expr}
    {us inside : List Token} {rows : List (List Token)} (hopening : opening.kind = .leftParen)
    (hparen : paren.kind = .rightParen) (hlevel : 8 ≤ callee.level) (hcallee : Read callee us)
    (hcount : args.length ≤ maxArguments) (hargs : List.Forall₂ Read args rows)
    (hinside : Filling rows inside) :
    Read (.call callee paren args) (us ++ opening :: (inside ++ [paren])) := by
  obtain ⟨feeds, inside, rfl, hfeeds, hinside⟩ := hinside
  refine .of_head (hcallee.starts.append (fun _ => hlevel) _) fun {fuel c rest P} hc _ hP => ?_
  simp only [List.cons_append, List.append_assoc, List.nil_append] at hc
  have hcloses : continuation opening.kind = some 8 := by rw [hopening]; rfl
  refine hcallee.head hlevel hc (closes_of_continuation hcloses _) fun fuel' e' c' he => ?_
  cases fuel' with
  | zero => exact .outOfFuel
  | succ fuel' =>
    simp only [postfixRest]
    refine .accept he.2 hopening (by decide) fun c₁ h₁ => ?_
    have hfeed : paren.kind ≠ .newline := by rw [hparen]; decide
    refine (joined_skipNewlines hargs Read.solid hfeeds hinside hfeed h₁).bind
      fun _ c₂ h₂ => .get ?_
    have hclose {args' : List Expr} {c₃ : Cursor}
        (h₃ : exprsUnnumbered args' = exprsUnnumbered args ∧ c₃.rest = paren :: rest) :
        Parses (do
          let paren ← Grammar.expect .rightParen .argumentsClose
          postfixRest fuel' (.call e' paren args')) c₃ P := by
      refine (Parses.expect h₃.2 hparen (by decide) _).bind fun a c₄ h₄ => ?_
      refine hP fuel' _ c₄ ⟨?_, h₄.2⟩
      simp only [Expr.unnumbered, he.1, h₃.1, h₄.1]
    cases hargs with
    | nil =>
      cases hinside
      rw [if_pos (Parses.check_of_eq h₂ hparen (by decide))]
      exact (Parses.pure ⟨rfl, h₂⟩).bind fun args' c₃ h₃ => hclose h₃
    | @cons e row es rows hfirst hes =>
      obtain ⟨t, ts, rfl, ht, -⟩ := hfirst.starts
      obtain ⟨more, hmore⟩ := joined_head hinside
      have hview : c₂.rest = t :: (ts ++ (more ++ paren :: rest)) := by
        rw [h₂, hmore, List.append_assoc, List.cons_append]
      have hother : t.kind ≠ .rightParen := fun hkind => absurd (hkind ▸ ht) (by decide)
      rw [if_neg (Bool.eq_false_iff.1 (Parses.check_of_ne hview hother))]
      have hcount : 0 + (e :: es).length ≤ maxArguments := by rwa [Nat.zero_add]
      have hargs : Parses (argumentRow fuel' 0) c₂ _ :=
        argumentRow_reads hinside hparen (.cons hfirst hes) (List.cons_ne_nil _ _) hcount feeds_nil h₂
      exact hargs.bind fun args' c₃ h₃ => hclose h₃

theorem unary_read {operator : Token} {operand : Expr} {us : List Token}
    (hoperator : operator.kind = .not ∨ operator.kind = .minus) (hlevel : 7 ≤ operand.level)
    (hoperand : Read operand us) : Read (.unary operator operand) (operator :: us) := by
  have hstarts : operator.kind ∈ starters := by
    rcases hoperator with h | h <;> rw [h] <;> decide
  have hloose : ¬8 ≤ (Expr.unary operator operand).level := by simp [Expr.level]
  refine .of_unary ⟨operator, us, rfl, hstarts, fun h => absurd h hloose⟩ ?_
    fun h => absurd h hloose
  intro fuel c rest hc hrest
  cases fuel with
  | zero => exact .outOfFuel
  | succ fuel =>
    simp only [unary]
    have hend : operator.kind ≠ .endMark := fun h => absurd (h ▸ hstarts) (by decide)
    refine .acceptAny hc (List.mem_pair.2 hoperator) hend fun c₁ h₁ => ?_
    refine (hoperand.unary hlevel h₁ hrest).bind fun e' c₂ h₂ => .pure ⟨?_, h₂.2⟩
    simp only [Expr.unnumbered, h₂.1]

theorem binary_read {left right : Expr} {operator : Token} {ls rs : List Token} {p : Nat}
    (hoperator : operator.kind.precedence = some p) (hleft : p ≤ left.level)
    (hright : p < right.level) (hl : Read left ls) (hr : Read right rs) :
    Read (.binary left operator right) (ls ++ operator :: rs) := by
  obtain ⟨hp, hp'⟩ := Token.Kind.precedence_le hoperator
  obtain ⟨k, rfl⟩ := Nat.exists_eq_add_of_le' hp
  have hk : k < binaryLevels.length := hp'
  have hlevel : (Expr.binary left operator right).level = k + 1 := by
    rw [Expr.level, hoperator, Option.getD_some]
  have hloose : ¬8 ≤ (Expr.binary left operator right).level := by omega
  have hchain : ChainReads (.binary left operator right) (ls ++ operator :: rs) k hk := by
    intro fuel c rest P hc hrest hP
    rw [List.append_assoc, List.cons_append] at hc
    have hcontinues := continuation_of_precedence hoperator
    refine hl.chain k hk hleft hc (closes_of_continuation hcontinues _) fun fuel' e' c' he => ?_
    cases fuel' with
    | zero => exact .outOfFuel
    | succ fuel' =>
      simp only [binaryRest]
      have hmem : operator.kind ∈ binaryLevels[k] := (mem_binaryLevels hk _).2 hoperator
      have hend : operator.kind ≠ .endMark := fun h => by rw [h] at hoperator; cases hoperator
      refine .acceptAny he.2 hmem hend fun c₁ h₁ => ?_
      refine (hr.binary (k + 1) hk hright h₁ hrest).bind fun r' c₂ h₂ => ?_
      refine hP fuel' _ c₂ ⟨?_, h₂.2⟩
      simp only [Expr.unnumbered, he.1, h₂.1]
  exact .of_binary (hl.starts.append (fun h => absurd h hloose) _) (Nat.le_of_lt hk)
    (.inl (Nat.le_of_eq hlevel)) (binary_of_chain hchain) (fun _ => hchain)
    fun h => absurd h hloose

/-! ### Assignments -/

/-- An assignment is read from its target on. -/
theorem assignment_read {target value whole : Expr} {equals : Token} {us vs : List Token}
    (hequals : equals.kind = .assign) (hlevel : 8 ≤ target.level) (htarget : Read target us)
    (hvalue : Read value vs) (hwhole : whole.level = 0)
    (hmade : ∀ {target' value' : Expr} {c : Cursor}, target'.unnumbered = target.unnumbered →
      value'.unnumbered = value.unnumbered → Parses (assignment target' equals value') c
        fun e' c' => e'.unnumbered = whole.unnumbered ∧ c'.rest = c.rest) :
    Read whole (us ++ equals :: vs) := by
  have hstarts := htarget.starts.append (e := whole) (fun h => by omega) (equals :: vs)
  refine .of_expression hstarts hwhole fun {fuel c rest} hc hrest => ?_
  rw [List.append_assoc, List.cons_append] at hc
  cases fuel with
  | zero => exact .outOfFuel
  | succ fuel =>
    simp only [expression]
    have hcloses : continuation equals.kind = some 0 := by rw [hequals]; rfl
    have hread : Parses (binary fuel binaryLevels) c _ :=
      htarget.binary 0 (Nat.zero_le _) (by omega) hc (closes_of_continuation hcloses _)
    refine hread.bind fun target' c₁ h₁ => ?_
    refine .acceptAny h₁.2 (by simp [hequals]) (by rw [hequals]; decide) fun c₂ h₂ => ?_
    refine (hvalue.expression h₂ hrest).bind fun value' c₃ h₃ => ?_
    exact (hmade h₁.1 h₃.1).imp fun e' c₄ h₄ => ⟨h₄.1, h₄.2.trans h₃.2⟩

theorem assign_read (id : NodeId) {name equals : Token} {value : Expr} {vs : List Token}
    (hname : name.IsVariable) (hequals : equals.kind = .assign) (hvalue : Read value vs) :
    Read (.assign id name value) (name :: equals :: vs) := by
  refine assignment_read hequals (by simp [Expr.level]) (name_read id hname) hvalue rfl ?_
  intro target' value' c htarget hvalue'
  obtain ⟨id', rfl⟩ := name_of_unnumbered htarget
  refine (Parses.freshId rfl).bind fun id c₁ h₁ => .pure ⟨?_, h₁⟩
  simp only [Expr.unnumbered, hvalue']

theorem set_read {object value : Expr} {dot name equals : Token} {us vs : List Token}
    (hdot : dot.kind = .dot) (hname : name.kind = .name) (hlevel : 8 ≤ object.level)
    (hobject : Read object us) (hequals : equals.kind = .assign) (hvalue : Read value vs) :
    Read (.set object name value) (us ++ dot :: name :: equals :: vs) := by
  have hget := get_read hdot hname hlevel hobject
  rw [show us ++ dot :: name :: equals :: vs = us ++ [dot, name] ++ equals :: vs by simp]
  refine assignment_read hequals (by simp [Expr.level]) hget hvalue rfl ?_
  intro target' value' c htarget hvalue'
  obtain ⟨object', rfl, hobject'⟩ := get_of_unnumbered htarget
  refine .pure ⟨?_, rfl⟩
  simp only [Expr.unnumbered, hobject', hvalue']

end

/-! ### All canonical trees -/

mutual

theorem expr_read : (e : Expr) → e.Canonical → {row : List Token} → e.Spelled row → Read e row
  | .grouping inner, h, _, ⟨_, _, _, _, hts, hopening, hclosing, hus, hinside⟩ =>
    hts ▸ grouping_read hopening hclosing (expr_read inner h hus) hinside
  | .binary left _ right, ⟨⟨_, hp, hleft, hright⟩, hl, hr⟩, _, ⟨_, _, hts, hls, hrs⟩ =>
    hts ▸ binary_read hp hleft hright (expr_read left hl hls) (expr_read right hr hrs)
  | .unary _ operand, ⟨hoperator, hlevel, h⟩, _, ⟨_, hts, hus⟩ =>
    hts ▸ unary_read hoperator hlevel (expr_read operand h hus)
  | .literal kind value, h, _, hts => literal_read kind value h hts
  | .name id _, h, _, hts => hts ▸ name_read id h
  | .this id _, h, _, hts => hts ▸ this_read id h
  | .function _ _, h, _, _ => h.elim
  | .call callee _ args, ⟨hparen, hlevel, hcount, hc, ha⟩, _,
      ⟨_, _, _, _, hts, hopening, hus, hrows, hinside⟩ =>
    hts ▸ call_read hopening hparen hlevel (expr_read callee hc hus) hcount
      (exprs_read args ha hrows) hinside
  | .index id _ index, ⟨hname, h⟩, _, ⟨_, _, _, hts, hopening, hclosing, hus⟩ =>
    hts ▸ index_read id hname hopening hclosing (expr_read index h hus)
  | .get object _, ⟨hname, hlevel, h⟩, _, ⟨_, _, hts, hdot, hus⟩ =>
    hts ▸ get_read hdot hname hlevel (expr_read object h hus)
  | .set object _ value, ⟨hname, hlevel, ho, hv⟩, _, ⟨_, _, _, _, hts, hdot, hequals, hus, hvs⟩ =>
    hts ▸ set_read hdot hname hlevel (expr_read object ho hus) hequals (expr_read value hv hvs)
  | .object _ entries, ⟨hbrace, hnodup, h⟩, _, ⟨_, _, _, hts, hclosing, hrows, hinside⟩ =>
    hts ▸ object_read hbrace hclosing hnodup (entries_read entries h hrows) hinside
  | .assign id _ value, ⟨hname, h⟩, _, ⟨_, _, hts, hequals, hvs⟩ =>
    hts ▸ assign_read id hname hequals (expr_read value h hvs)
termination_by structural x => x

theorem exprs_read : (es : List Expr) → exprsCanonical es → {rows : List (List Token)} →
    exprsSpelled es rows → List.Forall₂ Read es rows
  | [], _, _, hrows => hrows ▸ .nil
  | e :: es, ⟨he, hes⟩, _, ⟨_, _, hrows, hrow, hmore⟩ =>
    hrows ▸ .cons (expr_read e he hrow) (exprs_read es hes hmore)
termination_by structural x => x

theorem literal_read (kind : Token.Kind) : (value : LiteralValue) → value.Canonical kind →
    {row : List Token} → value.Spelled kind row → Read (.literal kind value) row
  | .list elements, ⟨hkind, h⟩, _, ⟨_, _, _, _, hts, hopening, hclosing, hrows, hinside⟩ =>
    hts ▸ hkind ▸ list_read hopening hclosing (exprs_read elements h hrows) hinside
  | .num _, h, _, ⟨_, hts, hkind, hvalue⟩ | .str _, h, _, ⟨_, hts, hkind, hvalue⟩
  | .bool _, h, _, ⟨_, hts, hkind, hvalue⟩ | .null, h, _, ⟨_, hts, hkind, hvalue⟩
  | .undefined, h, _, ⟨_, hts, hkind, hvalue⟩ | .emptyObject, h, _, ⟨_, hts, hkind, hvalue⟩ => by
    subst hkind hts
    exact single_read h hvalue fun _ => by simp
termination_by structural x => x

theorem entries_read : (es : List Entry) → entriesCanonical es → {rows : List (List Token)} →
    entriesSpelled es rows → List.Forall₂ EntryRead es rows
  | [], _, _, hrows => hrows ▸ .nil
  | .mk _ value :: es, ⟨hkey, hv, hes⟩, _,
      ⟨colon, feeds, us, _, hrows, hcolon, hfeeds, hus, hmore⟩ =>
    hrows ▸ .cons ⟨colon, feeds, us, rfl, hkey, hcolon, hfeeds, expr_read value hv hus⟩
      (entries_read es hes hmore)
termination_by structural x => x

end

/-! ### Declarations -/

section

variable {e : Expr} {row : List Token} {keyword name equals mark : Token}

/-- A declaration with an initializer that is read from its row. -/
theorem declaration_reads (h : Read e row) (hkeyword : keyword.kind = .kwLet)
    (hname : name.kind = .name) (hequals : equals.kind = .assign) (hmark : mark.kind = .endMark)
    {fuel : Nat} {c : Cursor} (hc : c.rest = keyword :: name :: equals :: (row ++ [mark])) :
    Parses (statement fuel) c fun s c' =>
      (∃ e', s = .variable name .let_ none (some (.expression e' equals)) ∧
        e'.unnumbered = e.unnumbered) ∧ c'.rest = [mark] := by
  cases fuel with
  | zero => exact .outOfFuel
  | succ fuel =>
    rw [statement]
    refine (Parses.skipNewlines hc feeds_nil (by rw [hkeyword]; decide)).bind fun _ c₁ h₁ => .get ?_
    rw [Parses.peek_eq h₁, hkeyword]
    refine (Parses.advance h₁ (by rw [hkeyword]; decide)).bind fun a c₂ h₂ => ?_
    rw [h₂.1]
    cases fuel with
    | zero => exact .outOfFuel
    | succ fuel =>
      simp only [variableDeclaration]
      refine (Parses.expect h₂.2 hname (by decide) _).bind fun b c₃ h₃ => ?_
      have hannotation : Parses (annotated fuel) c₃ fun ty c' =>
          ty = none ∧ c'.rest = equals :: (row ++ [mark]) := by
        cases fuel with
        | zero => exact .outOfFuel
        | succ fuel =>
          simp only [annotated]
          exact .accept_other h₃.2 (by rw [hequals]; decide) (.pure ⟨rfl, h₃.2⟩)
      refine hannotation.bind fun ty c₄ h₄ => .peek ?_
      rw [Parses.peek_eq h₄.2, hequals]
      refine (Parses.expect h₄.2 hequals (by decide) _).bind fun b' c₅ h₅ => .get ?_
      rw [if_neg (Bool.eq_false_iff.1 (h.not_over h₅.2 (by decide)))]
      have hcloses : continuation mark.kind = none := by rw [hmark]; rfl
      refine (h.expression h₅.2 (closes_of_none hcloses [])).bind fun e' c₆ h₆ => ?_
      have hend : Parses statementEnd c₆ fun _ c' => c'.rest = [mark] := by
        refine .acceptAny_other h₆.2 (by rw [hmark]; decide) (.get ?_)
        have hover : (c₆.atEnd || c₆.check .rightBrace) = true := by
          simp [Cursor.atEnd, Parses.peek_eq h₆.2, hmark]
        rw [if_pos hover]
        exact .pure h₆.2
      refine hend.bind fun _ c₇ h₇ => .pure ⟨⟨e', ?_, h₆.1⟩, h₇⟩
      rw [h₃.1, h₄.1, h₅.1, hkeyword]
      rfl

/-- A statement that is read up to the end is all of the program. -/
theorem programRow_of_statement {P : Stmt → Prop} (hmark : mark.kind = .endMark) {fuel : Nat}
    {c : Cursor} (hend : c.atEnd = false) (hlong : 1 < c.rest.length)
    (h : Parses (statement fuel) c fun s c' => P s ∧ c'.rest = [mark]) :
    Parses (programRow fuel) c fun program _ => ∃ s, program = [s] ∧ P s := by
  have hfirst : Parses (topStatement fuel) c fun s c' => P s ∧ c'.rest = [mark] := by
    refine h.bind fun s c₁ h₁ => ?_
    have hfeed : mark.kind ≠ .newline := by rw [hmark]; decide
    exact (Parses.skipNewlines h₁.2 feeds_nil hfeed).bind fun _ c₂ h₂ => .pure ⟨h₁.1, h₂⟩
  unfold Parses at hfirst ⊢
  generalize hr : topStatement fuel c = r at hfirst
  cases hfirst with
  | outOfFuel =>
    rw [programRow_error hend hr]
    exact .outOfFuel
  | @tree s c₁ h₁ =>
    obtain ⟨hs, hrest⟩ := h₁
    have hlt : c₁.rest.length < c.rest.length := by rwa [hrest]
    have hover : c₁.atEnd = true := by simp [Cursor.atEnd, Parses.peek_eq hrest, hmark]
    rw [programRow_cons hend hr hlt, programRow_atEnd hover]
    exact .tree ⟨s, rfl, hs⟩

end

end Grammar

/-- A statement that is read up to the end, whatever the numbers, is all that is parsed. -/
theorem parseFrom_of_statement {P : Stmt → Prop} (firstId : NodeId) {first mark : Token}
    (row : List Token) (hfeed : first.kind ≠ .newline) (hfirst : first.kind ≠ .endMark)
    (hmark : mark.kind = .endMark)
    (h : ∀ fuel c, c.rest = first :: (row ++ [mark]) →
      Grammar.Parses (Grammar.statement fuel) c fun s c' => P s ∧ c'.rest = [mark]) :
    ∃ s nextId, parseFrom firstId (first :: (row ++ [mark])) = .ok ([s], nextId) ∧ P s := by
  have hmarked : ∃ t ∈ first :: (row ++ [mark]), t.kind = .endMark := ⟨mark, by simp, hmark⟩
  have hends := parseFrom_ne_outOfFuel firstId hmarked
  have hparses : Grammar.Parses (do
      Grammar.skipNewlines
      Grammar.programRow (Grammar.depthBound ((row ++ [mark]).length + 1)))
      ⟨first, first :: (row ++ [mark]), firstId⟩ fun program _ => ∃ s, program = [s] ∧ P s := by
    refine (Grammar.Parses.skipNewlines rfl feeds_nil hfeed).bind fun _ c hc => ?_
    exact Grammar.programRow_of_statement hmark (Grammar.Parses.atEnd_eq hc hfirst)
      (by simp [hc]) (h _ c hc)
  unfold Grammar.Parses at hparses
  simp only [parseFrom, StateT.run] at hends ⊢
  generalize (do Grammar.skipNewlines; Grammar.programRow _ : Grammar.Parse Program) _ = r
    at hparses hends ⊢
  cases hparses with
  | outOfFuel => exact absurd rfl hends
  | tree h =>
    obtain ⟨s, rfl, hs⟩ := h
    exact ⟨s, _, rfl, hs⟩

/-- The declaration is all that is read from its row. -/
theorem parseFrom_reads {e : Expr} {row : List Token} (h : Grammar.Read e row) (firstId : NodeId)
    {keyword name equals mark : Token} (hkeyword : keyword.kind = .kwLet)
    (hname : name.kind = .name) (hequals : equals.kind = .assign) (hmark : mark.kind = .endMark) :
    ∃ e' nextId, parseFrom firstId (keyword :: name :: equals :: (row ++ [mark])) =
        .ok ([.variable name .let_ none (some (.expression e' equals))], nextId) ∧
      e'.unnumbered = e.unnumbered := by
  obtain ⟨_, nextId, hparse, e', rfl, he'⟩ := parseFrom_of_statement firstId
    (name :: equals :: row) (by rw [hkeyword]; decide) (by rw [hkeyword]; decide) hmark
    fun fuel c hc => Grammar.declaration_reads h hkeyword hname hequals hmark hc
  exact ⟨e', nextId, hparse, he'⟩

/-- A canonical tree has a spelling, and from `let name =` and any spelling of the tree the parser
reads the declaration with that tree, up to the numbers of variable nodes. -/
theorem canonical_declaration_read (firstId : NodeId) {keyword name equals mark : Token}
    (hkeyword : keyword.kind = .kwLet) (hname : name.kind = .name)
    (hequals : equals.kind = .assign) (hmark : mark.kind = .endMark) {e : Expr} (he : e.Canonical) :
    (∃ row, e.Spelled row) ∧
      ∀ row, e.Spelled row → ∃ e' nextId,
        parseFrom firstId (keyword :: name :: equals :: (row ++ [mark])) =
          .ok ([.variable name .let_ none (some (.expression e' equals))], nextId) ∧
        e'.unnumbered = e.unnumbered := by
  refine ⟨e.exists_spelling he, fun row hrow => ?_⟩
  have hread : Grammar.Read e row := Grammar.expr_read e he hrow
  exact parseFrom_reads hread firstId hkeyword hname hequals hmark

/-- The call `f(-a)`. -/
def negatedArgument : Expr :=
  .call (.name 0 (freeToken .name none)) (freeToken .rightParen none)
    [.unary (freeToken .minus none) (.name 0 (freeToken .name none))]

/-- Line feeds may stand around the argument. -/
theorem broken_call_read :
    negatedArgument.Canonical ∧
      ∃ e' nextId, parseFrom 0 [freeToken .kwLet none, freeToken .name none, freeToken .assign none,
          freeToken .name none, freeToken .leftParen none, freeToken .newline none,
          freeToken .minus none, freeToken .name none, freeToken .newline none,
          freeToken .rightParen none, freeToken .endMark none] =
        .ok ([.variable (freeToken .name none) .let_ none
          (some (.expression e' (freeToken .assign none)))], nextId) ∧
        e'.unnumbered = negatedArgument.unnumbered := by
  have hcanonical : negatedArgument.Canonical := by
    simp [negatedArgument, Expr.Canonical, exprsCanonical, Expr.level, Token.IsVariable, freeToken,
      Token.make]
  have hfeed : Feeds [freeToken .newline none] := by simp [Feeds, freeToken, Token.make]
  have hspelled : negatedArgument.Spelled [freeToken .name none, freeToken .leftParen none,
      freeToken .newline none, freeToken .minus none, freeToken .name none,
      freeToken .newline none, freeToken .rightParen none] :=
    ⟨[freeToken .name none], freeToken .leftParen none,
      [[freeToken .minus none, freeToken .name none]], _, rfl, rfl, rfl,
      ⟨_, [], rfl, ⟨[freeToken .name none], rfl, rfl⟩, rfl⟩,
      ⟨[freeToken .newline none], _, rfl, hfeed, .one hfeed⟩⟩
  exact ⟨hcanonical, (canonical_declaration_read 0 rfl rfl rfl rfl hcanonical).2 _ hspelled⟩

/-- Two canonical trees with the same spelling are the same, up to the numbers. -/
theorem spelling_unambiguous {e d : Expr} (he : e.Canonical) (hd : d.Canonical) {row : List Token}
    (hrow : e.Spelled row) (hrow' : d.Spelled row) : e.unnumbered = d.unnumbered := by
  have hread {e : Expr} (he : e.Canonical) (hrow : e.Spelled row) :=
    parseFrom_reads (Grammar.expr_read e he hrow) 0
      (show (freeToken .kwLet none).kind = _ from rfl)
      (show (freeToken .name none).kind = _ from rfl)
      (show (freeToken .assign none).kind = _ from rfl)
      (show (freeToken .endMark none).kind = _ from rfl)
  obtain ⟨e', _, hparse, he'⟩ := hread he hrow
  obtain ⟨d', _, hparse', hd'⟩ := hread hd hrow'
  have hboth := hparse.symm.trans hparse'
  simp only [Except.ok.injEq, Prod.mk.injEq, List.cons.injEq, Stmt.variable.injEq,
    Option.some.injEq, Stmt.expression.injEq] at hboth
  have hsame : e' = d' := hboth.1.1.2.2.2.1
  rw [← he', ← hd', hsame]

end ScopedScript
