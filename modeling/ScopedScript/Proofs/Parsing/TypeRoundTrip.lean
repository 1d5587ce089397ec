import ScopedScript.Proofs.Parsing.RoundTrip
import ScopedScript.Proofs.Parsing.WellFormed

/-! # Canonical annotations are read back

How annotations are spelled, and what is read from a spelling.

* **Spellings.** A type is spelled by its tokens in order, with commas between the parts of what
  stands in brackets (`Ty.Spelled`).  An object type without properties is spelled by one token or by
  two.  A parameter keeps the token of its name and the last token of its annotation, which are
  tokens of the spelling; the other tokens are free in their places.
* **What follows.** A type is read to its end if the next token does not go on with it at the level
  that is being read, and with an open type at no level (`Grammar.TyCloses`).
* **Readings.** `Grammar.TyRead` collects what the productions make of one type.  They leave the
  cursor behind the last token of the row, which is where a parameter takes it from.

Every canonical type has a spelling, and after `let name :` the parser reads the type from each of
its spellings; whatever annotation it reads from any row is canonical (`annotation_round_trip`). -/

namespace ScopedScript

/-! ### Spellings -/

/-- Rows of tokens with a token of the kind between any two. -/
inductive Punctuated (kind : Token.Kind) : List (List Token) → List Token → Prop
  | none : Punctuated kind [] []
  | one (row : List Token) : Punctuated kind [row] row
  | more {joint : Token} {next ts : List Token} {rows : List (List Token)} (row : List Token) :
      joint.kind = kind → Punctuated kind (next :: rows) ts →
      Punctuated kind (row :: next :: rows) (row ++ joint :: ts)

mutual

/-- The tokens of a type in order. -/
def Ty.Spelled : Ty → List Token → Prop
  | .named name kind => fun ts => ∃ t, ts = [t] ∧ t.lexeme = name ∧ t.kind = kind
  | .function params result => fun ts =>
    ∃ opening rows inside closing arrow us, ts = opening :: (inside ++ closing :: arrow :: us) ∧
      opening.kind = .leftParen ∧ closing.kind = .rightParen ∧ arrow.kind = .arrow ∧
      paramsSpelled params rows ∧ Punctuated .comma rows inside ∧ result.Spelled us
  | .union members => fun ts => ∃ rows, tysSpelled members rows ∧ Punctuated .pipe rows ts
  | .intersection members => fun ts =>
    ∃ rows, tysSpelled members rows ∧ Punctuated .ampersand rows ts
  | .array element => fun ts =>
    ∃ us opening closing, ts = us ++ [opening, closing] ∧
      opening.kind = .leftBracket ∧ closing.kind = .rightBracket ∧ element.Spelled us
  | .tuple elements => fun ts =>
    ∃ opening rows inside closing, ts = opening :: (inside ++ [closing]) ∧
      opening.kind = .leftBracket ∧ closing.kind = .rightBracket ∧
      tysSpelled elements rows ∧ Punctuated .comma rows inside
  | .object entries => fun ts =>
    (entries = [] ∧ ∃ t, ts = [t] ∧ t.kind = .emptyObject) ∨
    ∃ opening rows inside closing, ts = opening :: (inside ++ [closing]) ∧
      opening.kind = .leftBrace ∧ closing.kind = .rightBrace ∧
      tyEntriesSpelled entries rows ∧ Punctuated .comma rows inside
  | .generic name args => fun ts =>
    ∃ head opening rows inside closing, ts = head :: opening :: (inside ++ [closing]) ∧
      head.lexeme = name ∧ head.kind = .name ∧ opening.kind = .less ∧ closing.kind = .greater ∧
      tysSpelled args rows ∧ Punctuated .comma rows inside

/-- The rows of tokens of several types. -/
def tysSpelled : List Ty → List (List Token) → Prop
  | [] => fun rows => rows = []
  | t :: ts => fun rows => ∃ row more, rows = row :: more ∧ t.Spelled row ∧ tysSpelled ts more

/-- The rows of tokens of several properties. -/
def tyEntriesSpelled : List TyEntry → List (List Token) → Prop
  | [] => fun rows => rows = []
  | .mk name ty :: es => fun rows =>
    ∃ key colon row more, rows = (key :: colon :: row) :: more ∧ key.lexeme = name ∧
      key.kind = .name ∧ colon.kind = .colon ∧ ty.Spelled row ∧ tyEntriesSpelled es more

/-- The tokens of a parameter, some of which it keeps. -/
def Parameter.Spelled : Parameter → List Token → Prop
  | .mk _ none left _ => fun ts => ts = [left]
  | .mk _ (some ty) left right => fun ts =>
    ∃ colon us, ts = left :: colon :: us ∧ colon.kind = .colon ∧ ty.Spelled us ∧
      us.getLast? = right

/-- The rows of tokens of several parameters. -/
def paramsSpelled : List Parameter → List (List Token) → Prop
  | [] => fun rows => rows = []
  | p :: ps => fun rows => ∃ row more, rows = row :: more ∧ p.Spelled row ∧ paramsSpelled ps more

end

/-! ### Every canonical type is spelled -/

theorem exists_punctuated (kind : Token.Kind) : ∀ rows, ∃ ts, Punctuated kind rows ts
  | [] => ⟨_, .none⟩
  | [row] => ⟨_, .one row⟩
  | row :: next :: rows => by
    obtain ⟨ts, hts⟩ := exists_punctuated kind (next :: rows)
    exact ⟨_, .more row (show (freeToken kind none).kind = kind from rfl) hts⟩

/-- A punctuated row ends as the last of its rows. -/
theorem Punctuated.getLast? {kind : Token.Kind} {rows : List (List Token)} {ts row : List Token}
    (h : Punctuated kind rows ts) (hlast : rows.getLast? = some row) (hrow : row ≠ []) :
    ts.getLast? = row.getLast? := by
  induction h with
  | none => cases hlast
  | one row =>
    obtain rfl := Option.some.inj hlast
    rfl
  | @more joint next ts rows first _ _ ih =>
    rw [List.getLast?_cons_cons] at hlast
    obtain ⟨last, hlast'⟩ := Option.isSome_iff_exists.1 (List.getLast?_isSome.2 hrow)
    have hts := ih hlast
    rw [List.getLast?_append, List.getLast?_cons, hts, hlast']
    rfl

/-- A row in brackets ends with the closing one. -/
theorem getLast?_bracketed (opening : Token) (inside : List Token) (closing : Token) :
    (opening :: (inside ++ [closing])).getLast? = some closing := by
  rw [← List.cons_append, List.getLast?_concat]

mutual

/-- Every canonical type has a last token. -/
theorem Ty.exists_last : (t : Ty) → t.Canonical → ∃ last, t.EndsWith last
  | .named name kind, _ => ⟨.make kind name 1 1 0 none, rfl, rfl⟩
  | .function _ result, ⟨_, _, h⟩ => result.exists_last h
  | .union members, ⟨hlength, h⟩ => exists_last_member members 1 (by omega) h
  | .intersection members, ⟨hlength, h⟩ => exists_last_member members 2 (by omega) h
  | .array _, _ | .tuple _, _ => ⟨freeToken .rightBracket none, rfl⟩
  | .object _, _ => ⟨freeToken .rightBrace none, .inl rfl⟩
  | .generic _ _, _ => ⟨freeToken .greater none, rfl⟩
termination_by structural x => x

theorem exists_last_member : (ts : List Ty) → (level : Nat) → 0 < ts.length →
    membersCanonical level ts → ∃ last, lastEndsWith last ts
  | [], _, hlength, _ => absurd hlength (Nat.lt_irrefl 0)
  | [t], _, _, ⟨_, _, h, _⟩ => t.exists_last h
  | _ :: u :: ts, level, _, ⟨_, _, _, h⟩ =>
    exists_last_member (u :: ts) level (Nat.succ_pos _) h
termination_by structural x => x

end

mutual

/-- Every canonical type has a spelling, with any last token that it may have. -/
theorem Ty.exists_spelling : (t : Ty) → t.Canonical → ∀ last, t.EndsWith last →
    ∃ ts, t.Spelled ts ∧ ts.getLast? = some last
  | .named _ _, _, last, ⟨hname, hkind⟩ => ⟨[last], ⟨last, rfl, hname, hkind⟩, rfl⟩
  | .function params result, ⟨_, hparams, hresult⟩, last, hlast => by
    obtain ⟨rows, hrows⟩ := exists_params_spelling params hparams
    obtain ⟨inside, hinside⟩ := exists_punctuated .comma rows
    obtain ⟨us, hus, hend⟩ := result.exists_spelling hresult last hlast
    refine ⟨_, ⟨freeToken .leftParen none, rows, inside, freeToken .rightParen none,
      freeToken .arrow none, us, rfl, rfl, rfl, rfl, hrows, hinside, hus⟩, ?_⟩
    simp [List.getLast?_append, List.getLast?_cons, hend]
  | .union members, ⟨_, h⟩, last, hlast => by
    obtain ⟨rows, row, hrows, hrow, hend⟩ := exists_members_spelling members 1 h last hlast
    obtain ⟨ts, hts⟩ := exists_punctuated .pipe rows
    refine ⟨ts, ⟨rows, hrows, hts⟩, ?_⟩
    rw [hts.getLast? hrow (by rintro rfl; cases hend), hend]
  | .intersection members, ⟨_, h⟩, last, hlast => by
    obtain ⟨rows, row, hrows, hrow, hend⟩ := exists_members_spelling members 2 h last hlast
    obtain ⟨ts, hts⟩ := exists_punctuated .ampersand rows
    refine ⟨ts, ⟨rows, hrows, hts⟩, ?_⟩
    rw [hts.getLast? hrow (by rintro rfl; cases hend), hend]
  | .array element, ⟨_, _, h⟩, last, hlast => by
    obtain ⟨inner, hinner⟩ := element.exists_last h
    obtain ⟨us, hus, -⟩ := element.exists_spelling h inner hinner
    exact ⟨_, ⟨us, freeToken .leftBracket none, last, rfl, rfl, hlast, hus⟩, by simp⟩
  | .tuple elements, h, last, hlast => by
    obtain ⟨rows, hrows⟩ := exists_tys_spelling elements h
    obtain ⟨inside, hinside⟩ := exists_punctuated .comma rows
    exact ⟨_, ⟨freeToken .leftBracket none, rows, inside, last, rfl, rfl, hlast, hrows, hinside⟩,
      getLast?_bracketed _ _ _⟩
  | .object entries, h, last, hlast => by
    rcases hlast with hlast | ⟨hentries, hlast⟩
    · obtain ⟨rows, hrows⟩ := exists_tyEntries_spelling entries h
      obtain ⟨inside, hinside⟩ := exists_punctuated .comma rows
      exact ⟨_, .inr ⟨freeToken .leftBrace none, rows, inside, last, rfl, rfl, hlast, hrows,
        hinside⟩, getLast?_bracketed _ _ _⟩
    · exact ⟨_, .inl ⟨hentries, last, rfl, hlast⟩, rfl⟩
  | .generic name args, ⟨_, h⟩, last, hlast => by
    obtain ⟨rows, hrows⟩ := exists_tys_spelling args h
    obtain ⟨inside, hinside⟩ := exists_punctuated .comma rows
    refine ⟨_, ⟨.make .name name 1 1 0 none, freeToken .less none, rows, inside, last, rfl, rfl, rfl,
      rfl, hlast, hrows, hinside⟩, ?_⟩
    rw [List.getLast?_cons_cons, getLast?_bracketed]
termination_by structural x => x

theorem exists_members_spelling : (ts : List Ty) → (level : Nat) → membersCanonical level ts →
    ∀ last, lastEndsWith last ts →
    ∃ rows row, tysSpelled ts rows ∧ rows.getLast? = some row ∧ row.getLast? = some last
  | [], _, _, _, hlast => hlast.elim
  | [t], _, ⟨_, _, h, _⟩, last, hlast => by
    obtain ⟨row, hrow, hend⟩ := t.exists_spelling h last hlast
    exact ⟨[row], row, ⟨row, [], rfl, hrow, rfl⟩, rfl, hend⟩
  | t :: u :: ts, level, ⟨_, _, ht, h⟩, last, hlast => by
    obtain ⟨inner, hinner⟩ := t.exists_last ht
    obtain ⟨first, hfirst, -⟩ := t.exists_spelling ht inner hinner
    obtain ⟨rows, row, hrows, hrow, hend⟩ := exists_members_spelling (u :: ts) level h last hlast
    refine ⟨first :: rows, row, ⟨first, rows, rfl, hfirst, hrows⟩, ?_, hend⟩
    rw [List.getLast?_cons, hrow]
    rfl
termination_by structural x => x

theorem exists_tys_spelling : (ts : List Ty) → tysCanonical ts → ∃ rows, tysSpelled ts rows
  | [], _ => ⟨[], rfl⟩
  | t :: ts, ⟨ht, hts⟩ => by
    obtain ⟨last, hlast⟩ := t.exists_last ht
    obtain ⟨row, hrow, -⟩ := t.exists_spelling ht last hlast
    obtain ⟨more, hmore⟩ := exists_tys_spelling ts hts
    exact ⟨_, row, more, rfl, hrow, hmore⟩
termination_by structural x => x

theorem exists_tyEntries_spelling :
    (es : List TyEntry) → tyEntriesCanonical es → ∃ rows, tyEntriesSpelled es rows
  | [], _ => ⟨[], rfl⟩
  | .mk name ty :: es, ⟨hty, hes⟩ => by
    obtain ⟨last, hlast⟩ := ty.exists_last hty
    obtain ⟨row, hrow, -⟩ := ty.exists_spelling hty last hlast
    obtain ⟨more, hmore⟩ := exists_tyEntries_spelling es hes
    exact ⟨_, .make .name name 1 1 0 none, freeToken .colon none, row, more, rfl, rfl, rfl, rfl,
      hrow, hmore⟩
termination_by structural x => x

theorem Parameter.exists_spelling : (p : Parameter) → p.Canonical → ∃ ts, p.Spelled ts
  | .mk _ none left _, _ => ⟨[left], rfl⟩
  | .mk _ (some ty) left _, ⟨_, _, hty, last, hright, hlast⟩ => by
    obtain ⟨us, hus, hend⟩ := ty.exists_spelling hty last hlast
    exact ⟨_, freeToken .colon none, us, rfl, rfl, hus, hend.trans hright.symm⟩
termination_by structural x => x

theorem exists_params_spelling :
    (ps : List Parameter) → paramsCanonical ps → ∃ rows, paramsSpelled ps rows
  | [], _ => ⟨[], rfl⟩
  | p :: ps, ⟨hp, hps⟩ => by
    obtain ⟨row, hrow⟩ := p.exists_spelling hp
    obtain ⟨more, hmore⟩ := exists_params_spelling ps hps
    exact ⟨_, row, more, rfl, hrow, hmore⟩
termination_by structural x => x

end

namespace Grammar

/-! ### What follows a type -/

/-- The level at which a token goes on with the type before it. -/
def tyContinuation : Token.Kind → Option Nat
  | .pipe => some 0
  | .ampersand => some 1
  | .leftBracket => some 2
  | .less => some 3
  | _ => none

/-- The first of the tokens does not go on with a type of the level, and with an open type at no
level. -/
def TyCloses (level : Nat) (isOpen : Prop) (rest : List Token) : Prop :=
  ∃ t more, rest = t :: more ∧ ∀ l, tyContinuation t.kind = some l → l < level ∧ ¬isOpen

namespace TyCloses

variable {level : Nat} {isOpen : Prop} {t : Token} {more rest : List Token}

theorem mono (h : TyCloses level isOpen rest) {level' : Nat} {isOpen' : Prop}
    (hlevel : level ≤ level') (hopen : isOpen' → isOpen) : TyCloses level' isOpen' rest := by
  obtain ⟨t, more, hrest, ht⟩ := h
  exact ⟨t, more, hrest, fun l hl => ⟨Nat.lt_of_lt_of_le (ht l hl).1 hlevel, mt hopen (ht l hl).2⟩⟩

/-- A token that goes on with no type closes all of them. -/
theorem of_none (h : tyContinuation t.kind = none) : TyCloses level isOpen (t :: more) := by
  refine ⟨t, more, rfl, fun l hl => ?_⟩
  rw [h] at hl
  cases hl

/-- A token of a looser level closes what is not open. -/
theorem of_some {l : Nat} (h : tyContinuation t.kind = some l) (hlevel : l < level)
    (hopen : ¬isOpen) : TyCloses level isOpen (t :: more) := by
  refine ⟨t, more, rfl, fun k hk => ?_⟩
  obtain rfl := Option.some.inj (h.symm.trans hk)
  exact ⟨hlevel, hopen⟩

/-- A token that goes on with the type is not the first one. -/
theorem ne (h : TyCloses level isOpen (t :: more)) {kind : Token.Kind} {l : Nat}
    (hkind : tyContinuation kind = some l) (hl : level ≤ l ∨ isOpen) : t.kind ≠ kind := by
  rintro rfl
  obtain ⟨u, us, heq, hu⟩ := h
  obtain ⟨rfl, -⟩ := List.cons.inj heq
  obtain ⟨hlt, hopen⟩ := hu l hkind
  exact hl.elim (Nat.not_le.2 hlt) hopen

end TyCloses

/-! ### Taking tokens of a row -/

/-- The cursor is behind the row, with the rest to come. -/
def Past (row rest : List Token) (id : NodeId) (c : Cursor) : Prop :=
  ∃ last, row.getLast? = some last ∧ c = ⟨last, rest, id⟩

namespace Parses

section

variable {α : Type} {last t : Token} {rest : List Token} {id : NodeId} {P : α → Cursor → Prop}
  {kind : Token.Kind}

theorem advance_cons (ht : t.kind ≠ .endMark) {k : Token → Parse α}
    (h : Parses (k t) ⟨t, rest, id⟩ P) : Parses (Grammar.advance >>= k) ⟨last, t :: rest, id⟩ P := by
  unfold Parses
  rw [Reads.bind_ok (Reads.advance_cons ht)]
  exact h

theorem expect_cons (ht : t.kind = kind) (hkind : kind ≠ .endMark) (what : Expectation)
    {k : Token → Parse α} (h : Parses (k t) ⟨t, rest, id⟩ P) :
    Parses (Grammar.expect kind what >>= k) ⟨last, t :: rest, id⟩ P := by
  have hexpect : Grammar.expect kind what ⟨last, t :: rest, id⟩ = .ok (t, ⟨t, rest, id⟩) := by
    change (if Cursor.check _ kind then _ else _ : Parse Token) _ = _
    rw [if_pos (check_of_eq rfl ht hkind), Reads.advance_cons (ht ▸ hkind)]
  unfold Parses
  rw [Reads.bind_ok hexpect]
  exact h

theorem acceptAny_cons {kinds : List Token.Kind} (ht : t.kind ∈ kinds) (hend : t.kind ≠ .endMark)
    {k : Option Token → Parse α} (h : Parses (k (some t)) ⟨t, rest, id⟩ P) :
    Parses (Grammar.acceptAny kinds >>= k) ⟨last, t :: rest, id⟩ P := by
  have hany : kinds.any (Cursor.check ⟨last, t :: rest, id⟩) = true :=
    List.any_eq_true.2 ⟨_, ht, check_of_eq rfl rfl hend⟩
  have haccept : Grammar.acceptAny kinds ⟨last, t :: rest, id⟩ = .ok (some t, ⟨t, rest, id⟩) := by
    rw [Reads.acceptAny_of_check hany, Reads.advance_cons hend]
    rfl
  unfold Parses
  rw [Reads.bind_ok haccept]
  exact h

theorem accept_cons (ht : t.kind = kind) (hkind : kind ≠ .endMark) {k : Bool → Parse α}
    (h : Parses (k true) ⟨t, rest, id⟩ P) :
    Parses (Grammar.accept kind >>= k) ⟨last, t :: rest, id⟩ P := by
  have haccept : Grammar.accept kind ⟨last, t :: rest, id⟩ = .ok (true, ⟨t, rest, id⟩) := by
    change (if Cursor.check _ kind then _ else _ : Parse Bool) _ = _
    rw [if_pos (check_of_eq rfl ht hkind)]
    exact Reads.bind_ok (Reads.advance_cons (ht ▸ hkind))
  unfold Parses
  rw [Reads.bind_ok haccept]
  exact h

theorem skipNewlines_cons (ht : t.kind ≠ .newline) {k : Unit → Parse α}
    (h : Parses (k ()) ⟨last, t :: rest, id⟩ P) :
    Parses (Grammar.skipNewlines >>= k) ⟨last, t :: rest, id⟩ P := by
  have hskip : Grammar.skipNewlines ⟨last, t :: rest, id⟩ = .ok ((), ⟨last, t :: rest, id⟩) :=
    skipNewlines_of_ne ht
  unfold Parses
  rw [Reads.bind_ok hskip]
  exact h

end

end Parses

/-! ### What is read from a row -/

/-- The production reads the type from the row, at a level. -/
def TyReads (production : Nat → Parse Ty) (level : Nat) (t : Ty) (row : List Token) : Prop :=
  ∀ ⦃fuel : Nat⦄ ⦃last : Token⦄ ⦃rest : List Token⦄ ⦃id : NodeId⦄, TyCloses level t.Open rest →
    Parses (production fuel) ⟨last, row ++ rest, id⟩ fun t' c => t' = t ∧ Past row rest id c

/-- Behind the row, reading goes on with the brackets `[]` after the type. -/
def TyHeadReads (t : Ty) (row : List Token) : Prop :=
  ∀ ⦃fuel : Nat⦄ ⦃last : Token⦄ ⦃rest : List Token⦄ ⦃id : NodeId⦄ ⦃P : Ty → Cursor → Prop⦄,
    TyCloses 3 t.Open rest →
    (∀ fuel' last', row.getLast? = some last' → Parses (arrayRest fuel' t) ⟨last', rest, id⟩ P) →
    Parses (arrayType fuel) ⟨last, row ++ rest, id⟩ P

/-- The kinds that start a type. -/
def tyStarters : List Token.Kind :=
  .name :: .leftParen :: .leftBracket :: .emptyObject :: .leftBrace :: namedTypeKinds

/-- The type is read from the row wherever it fits. -/
structure TyRead (t : Ty) (row : List Token) : Prop where
  starts : ∃ u us, row = u :: us ∧ u.kind ∈ tyStarters
  union : TyReads unionType 0 t row
  intersection : 1 ≤ t.level → TyReads intersectionType 1 t row
  array : 2 ≤ t.level → TyReads arrayType 2 t row
  head : 2 ≤ t.level → TyHeadReads t row

/-- The type that members make: a single one is that type itself. -/
def joinMembers (make : List Ty → Ty) : List Ty → Ty
  | [] => make []
  | first :: others => if others.isEmpty then first else make (first :: others)

/-- The productions for rows of members: that of a member, that of the members after the first, and
that of the whole row, at the level of the row. -/
inductive Tier : Nat → Token.Kind → (List Ty → Ty) → (Nat → Parse Ty) → (Nat → Parse (List Ty)) →
    (Nat → Parse Ty) → Prop
  | union : Tier 0 .pipe .union intersectionType unionRest unionType
  | intersection : Tier 1 .ampersand .intersection arrayType intersectionRest intersectionType

namespace Tier

variable {level : Nat} {joint : Token.Kind} {make : List Ty → Ty} {member whole : Nat → Parse Ty}
  {more : Nat → Parse (List Ty)}

theorem whole_succ (h : Tier level joint make member more whole) (fuel : Nat) :
    whole (fuel + 1) = do
      let first ← member fuel
      let others ← more fuel
      return joinMembers make (first :: others) := by
  cases h <;> rfl

theorem more_succ (h : Tier level joint make member more whole) (fuel : Nat) :
    more (fuel + 1) = do
      if ← accept joint then
        let first ← member fuel
        return first :: (← more fuel)
      else return [] := by
  cases h <;> rfl

theorem outOfFuel (h : Tier level joint make member more whole) :
    more 0 = throw .outOfFuel ∧ whole 0 = throw .outOfFuel := by
  cases h <;> exact ⟨rfl, rfl⟩

theorem joint_continues (h : Tier level joint make member more whole) :
    tyContinuation joint = some level ∧ joint ≠ .endMark := by
  cases h <;> exact ⟨rfl, by decide⟩

end Tier

section

variable {t : Ty} {row : List Token}

/-- No more members, where no joint comes next. -/
theorem more_none {level : Nat} {joint : Token.Kind} {make : List Ty → Ty}
    {member whole : Nat → Parse Ty} {more : Nat → Parse (List Ty)}
    (h : Tier level joint make member more whole) {isOpen : Prop} {rest : List Token}
    (hrest : TyCloses level isOpen rest) {fuel : Nat} {last : Token} {id : NodeId} {α : Type}
    {k : List Ty → Parse α} {P : α → Cursor → Prop} (hk : Parses (k []) ⟨last, rest, id⟩ P) :
    Parses (more fuel >>= k) ⟨last, rest, id⟩ P := by
  cases fuel with
  | zero =>
    rw [h.outOfFuel.1]
    exact .outOfFuel
  | succ fuel =>
    have hfirst := hrest
    obtain ⟨u, us, rfl, -⟩ := hfirst
    have hne : u.kind ≠ joint := hrest.ne h.joint_continues.1 (.inl (Nat.le_refl _))
    rw [h.more_succ]
    simp only [bind_assoc]
    exact .accept_other rfl hne hk

/-- A member alone makes the whole. -/
theorem whole_of_member {level : Nat} {joint : Token.Kind} {make : List Ty → Ty}
    {member whole : Nat → Parse Ty} {more : Nat → Parse (List Ty)}
    (h : Tier level joint make member more whole) (ht : TyReads member (level + 1) t row) :
    TyReads whole level t row := by
  intro fuel last rest id hrest
  cases fuel with
  | zero =>
    rw [h.outOfFuel.2]
    exact .outOfFuel
  | succ fuel =>
    rw [h.whole_succ]
    refine (ht (hrest.mono (Nat.le_succ level) fun h => h)).bind ?_
    rintro _ _ ⟨rfl, last', hlast, rfl⟩
    exact more_none h hrest (.pure ⟨rfl, last', hlast, rfl⟩)

/-- Members with joints between them. -/
theorem members_read {level : Nat} {joint : Token.Kind} {make : List Ty → Ty}
    {member whole : Nat → Parse Ty} {more : Nat → Parse (List Ty)}
    (h : Tier level joint make member more whole) {rows : List (List Token)}
    (hrow : Punctuated joint rows row) {ts : List Ty}
    (hts : List.Forall₂ (TyReads member (level + 1)) ts rows) (hne : ts ≠ []) {l : Nat}
    (hcanonical : membersCanonical l ts) {rest : List Token}
    (hrest : TyCloses level (lastOpen ts) rest) {fuel fuel' : Nat} {last : Token} {id : NodeId}
    {α : Type} {k : List Ty → Parse α} {P : α → Cursor → Prop}
    (hk : ∀ last', row.getLast? = some last' → Parses (k ts) ⟨last', rest, id⟩ P) :
    Parses (do
      let first ← member fuel
      let others ← more fuel'
      k (first :: others)) ⟨last, row ++ rest, id⟩ P := by
  obtain ⟨hcontinues, hmark⟩ := h.joint_continues
  induction hrow generalizing ts fuel fuel' last k with
  | none =>
    cases hts
    exact absurd rfl hne
  | one row =>
    cases hts with
    | @cons t _ ts _ ht hts =>
    cases hts
    refine (ht (hrest.mono (Nat.le_succ level) fun h => h)).bind ?_
    rintro _ _ ⟨rfl, last', hlast, rfl⟩
    exact more_none h hrest (hk last' hlast)
  | @more comma next inside rows first hjoint _ ih =>
    cases hts with
    | @cons t _ ts _ ht hts =>
    obtain ⟨u, us, hu, hus, rfl⟩ := List.forall₂_cons_right_iff.1 hts
    obtain ⟨-, hopen, -, hothers⟩ := hcanonical
    rw [List.append_assoc]
    have hfollows : TyCloses (level + 1) t.Open (comma :: inside ++ rest) :=
      .of_some (hjoint ▸ hcontinues) (Nat.lt_succ_self level) (hopen (by simp))
    refine (ht hfollows).bind ?_
    rintro _ _ ⟨rfl, last', -, rfl⟩
    cases fuel' with
    | zero =>
      rw [h.outOfFuel.1]
      exact .outOfFuel
    | succ fuel' =>
      rw [h.more_succ]
      simp only [bind_assoc]
      refine .accept_cons hjoint hmark ?_
      simp only [if_true, bind_assoc, pure_bind]
      refine ih hts (by simp) hothers hrest (k := fun others => k (_ :: others)) ?_
      intro last'' hlast
      refine hk last'' ?_
      rw [List.getLast?_append, List.getLast?_cons, hlast]
      rfl

theorem whole_of_members {level : Nat} {joint : Token.Kind} {make : List Ty → Ty}
    {member whole : Nat → Parse Ty} {more : Nat → Parse (List Ty)}
    (h : Tier level joint make member more whole) {rows : List (List Token)}
    (hrow : Punctuated joint rows row) {ts : List Ty}
    (hts : List.Forall₂ (TyReads member (level + 1)) ts rows) (hlength : 2 ≤ ts.length) {l : Nat}
    (hcanonical : membersCanonical l ts) (hopen : (make ts).Open ↔ lastOpen ts) :
    TyReads whole level (make ts) row := by
  intro fuel last rest id hrest
  have hne : ts ≠ [] := by
    rintro rfl
    cases hlength
  have hmake : joinMembers make ts = make ts := by
    obtain ⟨t, us, rfl⟩ := List.exists_cons_of_ne_nil hne
    have hus : us ≠ [] := by
      rintro rfl
      simp at hlength
    rw [joinMembers, List.isEmpty_eq_false_iff.2 hus]
    rfl
  cases fuel with
  | zero =>
    rw [h.outOfFuel.2]
    exact .outOfFuel
  | succ fuel =>
    rw [h.whole_succ]
    refine members_read h hrow hts hne hcanonical (hrest.mono (Nat.le_refl _) hopen.2)
      (k := fun members => return joinMembers make members) fun last' hlast => ?_
    exact .pure ⟨hmake, last', hlast, rfl⟩

/-! ### Arrays and what stands in brackets -/

theorem array_of_head (h : TyHeadReads t row) : TyReads arrayType 2 t row := by
  intro fuel last rest id hrest
  refine h (hrest.mono (by decide) fun h => h) fun fuel' last' hlast => ?_
  cases fuel' with
  | zero => exact .outOfFuel
  | succ fuel' =>
    have hfirst := hrest
    obtain ⟨u, us, rfl, -⟩ := hfirst
    have hne : u.kind ≠ .leftBracket := hrest.ne (l := 2) rfl (.inl (Nat.le_refl _))
    simp only [arrayRest]
    refine .get ?_
    have hcheck : Cursor.check ⟨last', u :: us, id⟩ .leftBracket = false :=
      Parses.check_of_ne rfl hne
    rw [if_neg (by simp [hcheck])]
    exact .pure ⟨rfl, last', hlast, rfl⟩

theorem tyHead_of_primary (h : TyReads primaryType 3 t row) : TyHeadReads t row := by
  intro fuel last rest id P hrest hP
  cases fuel with
  | zero => exact .outOfFuel
  | succ fuel =>
    simp only [arrayType]
    refine (h hrest).bind ?_
    rintro _ _ ⟨rfl, last', hlast, rfl⟩
    exact hP fuel last' hlast

namespace TyRead

theorem of_head (hstarts : ∃ u us, row = u :: us ∧ u.kind ∈ tyStarters) (h : TyHeadReads t row) :
    TyRead t row := by
  have harray := array_of_head h
  have hintersection := whole_of_member .intersection harray
  exact ⟨hstarts, whole_of_member .union hintersection, fun _ => hintersection, fun _ => harray,
    fun _ => h⟩

theorem of_primary {u : Token} {us : List Token} (hu : u.kind ∈ tyStarters)
    (h : TyReads primaryType 3 t (u :: us)) : TyRead t (u :: us) :=
  of_head ⟨u, us, rfl, hu⟩ (tyHead_of_primary h)

/-- The brackets `[]` after an element. -/
theorem of_array {element : Ty} {opening closing : Token} (h : TyRead element row)
    (hopening : opening.kind = .leftBracket) (hclosing : closing.kind = .rightBracket)
    (hlevel : element.level = 2) (hopen : ¬element.Open) :
    TyRead (.array element) (row ++ [opening, closing]) := by
  obtain ⟨u, us, rfl, hu⟩ := h.starts
  refine .of_head ⟨u, us ++ [opening, closing], rfl, hu⟩ ?_
  intro fuel last rest id P hrest hP
  rw [List.append_assoc]
  have hfollows : TyCloses 3 element.Open ([opening, closing] ++ rest) :=
    .of_some (l := 2) (by rw [hopening]; rfl) (by decide) hopen
  refine h.head (Nat.le_of_eq hlevel.symm) hfollows fun fuel' last' _ => ?_
  cases fuel' with
  | zero => exact .outOfFuel
  | succ fuel' =>
    simp only [arrayRest]
    refine .get ?_
    have hbrackets : (Cursor.check ⟨last', opening :: closing :: rest, id⟩ .leftBracket &&
        Cursor.checkNext ⟨last', opening :: closing :: rest, id⟩ .rightBracket) = true := by
      rw [Parses.check_of_eq rfl hopening (by decide), Bool.true_and]
      exact beq_iff_eq.2 hclosing
    change Parses (if (Cursor.check ⟨last', opening :: closing :: rest, id⟩ .leftBracket &&
        Cursor.checkNext ⟨last', opening :: closing :: rest, id⟩ .rightBracket) = true then _
      else _) _ P
    rw [if_pos hbrackets]
    refine .advance_cons (by rw [hopening]; decide) ?_
    refine .advance_cons (by rw [hclosing]; decide) ?_
    exact hP fuel' closing (getLast?_bracketed u (us ++ [opening]) closing ▸ by simp)

end TyRead

end

/-! ### Rows in brackets -/

/-- The production reads the items from what stands inside, up to the closing token. -/
def InsideReads {α : Type} (production : Nat → Parse α) (items : α) (inside : List Token)
    (closing : Token) : Prop :=
  ∀ ⦃fuel : Nat⦄ ⦃last : Token⦄ ⦃rest : List Token⦄ ⦃id : NodeId⦄,
    Parses (production fuel) ⟨last, inside ++ closing :: rest, id⟩ fun items' c =>
      items' = items ∧ ∃ last', c = ⟨last', closing :: rest, id⟩

section

variable {rows : List (List Token)} {inside : List Token} {closing : Token}

/-- A punctuated row starts with the first of its rows. -/
theorem punctuated_head {kind : Token.Kind} {row : List Token}
    (h : Punctuated kind (row :: rows) inside) : ∃ more, inside = row ++ more := by
  cases h with
  | one => exact ⟨[], (List.append_nil _).symm⟩
  | more => exact ⟨_, rfl⟩

theorem typeArguments_read (hinside : Punctuated .comma rows inside)
    (hclosing : closing.kind = .greater) {ts : List Ty} (hts : List.Forall₂ TyRead ts rows)
    (hne : ts ≠ []) : InsideReads typeArguments ts inside closing := by
  induction hinside generalizing ts with
  | none =>
    cases hts
    exact absurd rfl hne
  | one row =>
    cases hts with
    | @cons t _ ts _ ht hts =>
    cases hts
    intro fuel last rest id
    cases fuel with
    | zero => exact .outOfFuel
    | succ fuel =>
      simp only [typeArguments]
      refine (ht.union (.of_none (by rw [hclosing]; rfl))).bind ?_
      rintro _ _ ⟨rfl, last', -, rfl⟩
      exact .accept_other rfl (by rw [hclosing]; decide) (.pure ⟨rfl, last', rfl⟩)
  | @more comma next inside rows first hcomma _ ih =>
    cases hts with
    | @cons t _ ts _ ht hts =>
    intro fuel last rest id
    cases fuel with
    | zero => exact .outOfFuel
    | succ fuel =>
      rw [List.append_assoc]
      simp only [typeArguments]
      refine (ht.union (.of_none (by rw [hcomma]; rfl))).bind ?_
      rintro _ _ ⟨rfl, last', -, rfl⟩
      refine .accept_cons hcomma (by decide) ?_
      have hne' : ts ≠ [] := by
        rintro rfl
        cases hts
      refine (ih hts hne').bind ?_
      rintro _ _ ⟨rfl, last'', rfl⟩
      exact .pure ⟨rfl, last'', rfl⟩

/-- A type is not at the end of a row in brackets. -/
theorem TyRead.not_over {t : Ty} {row rest : List Token} (h : TyRead t row) {last : Token}
    {id : NodeId} : (Cursor.check ⟨last, row ++ rest, id⟩ .rightBracket ||
      Cursor.atEnd ⟨last, row ++ rest, id⟩) = false := by
  obtain ⟨u, us, rfl, hu⟩ := h.starts
  have hne : u.kind ≠ .rightBracket := fun heq => absurd (heq ▸ hu) (by decide)
  have hend : u.kind ≠ .endMark := fun heq => absurd (heq ▸ hu) (by decide)
  rw [List.cons_append, Parses.check_of_ne rfl hne, Parses.atEnd_eq rfl hend]
  rfl

theorem tupleElements_read (hinside : Punctuated .comma rows inside)
    (hclosing : closing.kind = .rightBracket) {ts : List Ty} (hts : List.Forall₂ TyRead ts rows) :
    InsideReads tupleElements ts inside closing := by
  induction hinside generalizing ts with
  | none =>
    cases hts
    intro fuel last rest id
    cases fuel with
    | zero => exact .outOfFuel
    | succ fuel =>
      rw [List.nil_append]
      simp only [tupleElements]
      refine .get ?_
      rw [if_pos (over_of_closing (c := ⟨last, closing :: rest, id⟩) rfl hclosing (by decide))]
      exact .pure ⟨rfl, last, rfl⟩
  | one row =>
    cases hts with
    | @cons t _ ts _ ht hts =>
    cases hts
    intro fuel last rest id
    cases fuel with
    | zero => exact .outOfFuel
    | succ fuel =>
      simp only [tupleElements]
      refine .get ?_
      rw [if_neg (Bool.eq_false_iff.1 ht.not_over)]
      refine (ht.union (.of_none (by rw [hclosing]; rfl))).bind ?_
      rintro _ _ ⟨rfl, last', -, rfl⟩
      exact .accept_other rfl (by rw [hclosing]; decide) (.pure ⟨rfl, last', rfl⟩)
  | @more comma next inside rows first hcomma _ ih =>
    cases hts with
    | @cons t _ ts _ ht hts =>
    intro fuel last rest id
    cases fuel with
    | zero => exact .outOfFuel
    | succ fuel =>
      rw [List.append_assoc]
      simp only [tupleElements]
      refine .get ?_
      rw [if_neg (Bool.eq_false_iff.1 ht.not_over)]
      refine (ht.union (.of_none (by rw [hcomma]; rfl))).bind ?_
      rintro _ _ ⟨rfl, last', -, rfl⟩
      refine .accept_cons hcomma (by decide) ((ih hts).bind ?_)
      rintro _ _ ⟨rfl, last'', rfl⟩
      exact .pure ⟨rfl, last'', rfl⟩

/-- The property is read from the row. -/
def TyEntryRead : TyEntry → List Token → Prop
  | .mk name ty, row => ∃ key colon us, row = key :: colon :: us ∧ key.lexeme = name ∧
      key.kind = .name ∧ colon.kind = .colon ∧ TyRead ty us

/-- One property, with what comes after it. -/
theorem typeEntry_read {entry : TyEntry} {row more : List Token} (h : TyEntryRead entry row)
    {delimiter : Token} (hdelimiter : tyContinuation delimiter.kind = none) {fuel : Nat}
    {last : Token} {id : NodeId} {α : Type} {k : TyEntry → Parse α} {P : α → Cursor → Prop}
    (hk : ∀ last', Parses (k entry) ⟨last', delimiter :: more, id⟩ P) :
    Parses (do
      let name ← expect .name .typeEntryName
      let _ ← expect .colon .typeEntryColon
      let ty ← unionType fuel
      k (.mk name.lexeme ty)) ⟨last, row ++ delimiter :: more, id⟩ P := by
  obtain ⟨name, ty⟩ := entry
  obtain ⟨key, colon, us, rfl, rfl, hkey, hcolon, hty⟩ := h
  refine .expect_cons hkey (by decide) _ ?_
  refine .expect_cons hcolon (by decide) _ ?_
  refine (hty.union (.of_none hdelimiter)).bind ?_
  rintro _ _ ⟨rfl, last', -, rfl⟩
  exact hk last'

/-- A property is not at the end of a row in braces. -/
theorem TyEntryRead.not_over {entry : TyEntry} {row rest : List Token} (h : TyEntryRead entry row)
    {last : Token} {id : NodeId} : (Cursor.check ⟨last, row ++ rest, id⟩ .rightBrace ||
      Cursor.atEnd ⟨last, row ++ rest, id⟩) = false := by
  obtain ⟨name, ty⟩ := entry
  obtain ⟨key, colon, us, rfl, -, hkey, -, -⟩ := h
  rw [List.cons_append, Parses.check_of_ne rfl (by rw [hkey]; decide),
    Parses.atEnd_eq rfl (by rw [hkey]; decide)]
  rfl

/-- A property starts with a name. -/
theorem TyEntryRead.starts {entry : TyEntry} {row : List Token} (h : TyEntryRead entry row) :
    ∃ u us, row = u :: us ∧ u.kind ≠ .newline := by
  obtain ⟨name, ty⟩ := entry
  obtain ⟨key, colon, us, rfl, -, hkey, -, -⟩ := h
  exact ⟨key, colon :: us, rfl, by rw [hkey]; decide⟩

theorem typeEntries_none (hclosing : closing.kind = .rightBrace) :
    InsideReads typeEntries [] [] closing := by
  intro fuel last rest id
  cases fuel with
  | zero => exact .outOfFuel
  | succ fuel =>
    rw [List.nil_append]
    simp only [typeEntries]
    refine .get ?_
    rw [if_pos (over_of_closing (c := ⟨last, closing :: rest, id⟩) rfl hclosing (by decide))]
    exact .pure ⟨rfl, last, rfl⟩

theorem typeEntries_read (hinside : Punctuated .comma rows inside)
    (hclosing : closing.kind = .rightBrace) {es : List TyEntry}
    (hes : List.Forall₂ TyEntryRead es rows) : InsideReads typeEntries es inside closing := by
  induction hinside generalizing es with
  | none =>
    cases hes
    exact typeEntries_none hclosing
  | one row =>
    cases hes with
    | @cons entry _ es _ he hes =>
    cases hes
    intro fuel last rest id
    cases fuel with
    | zero => exact .outOfFuel
    | succ fuel =>
      simp only [typeEntries]
      refine .get ?_
      rw [if_neg (Bool.eq_false_iff.1 he.not_over)]
      refine typeEntry_read he (by rw [hclosing]; rfl) (k := fun entry => do
        let _ ← Grammar.acceptAny [.comma, .semicolon]
        Grammar.skipNewlines
        return entry :: (← typeEntries fuel)) fun last' => ?_
      refine .acceptAny_other rfl (by rw [hclosing]; decide) ?_
      refine .skipNewlines_cons (by rw [hclosing]; decide) ((typeEntries_none hclosing).bind ?_)
      rintro _ _ ⟨rfl, last'', rfl⟩
      exact .pure ⟨rfl, last'', rfl⟩
  | @more comma next inside rows first hcomma hinside ih =>
    cases hes with
    | @cons entry _ es _ he hes =>
    obtain ⟨d, ds, hd, -, rfl⟩ := List.forall₂_cons_right_iff.1 hes
    obtain ⟨others, rfl⟩ := punctuated_head hinside
    obtain ⟨u, us, rfl, hu⟩ := hd.starts
    intro fuel last rest id
    cases fuel with
    | zero => exact .outOfFuel
    | succ fuel =>
      rw [List.append_assoc]
      simp only [typeEntries]
      refine .get ?_
      rw [if_neg (Bool.eq_false_iff.1 he.not_over)]
      refine typeEntry_read he (by rw [hcomma]; rfl) (k := fun entry => do
        let _ ← Grammar.acceptAny [.comma, .semicolon]
        Grammar.skipNewlines
        return entry :: (← typeEntries fuel)) fun last' => ?_
      refine .acceptAny_cons (by rw [hcomma]; decide) (by rw [hcomma]; decide) ?_
      refine .skipNewlines_cons hu ((ih hes).bind ?_)
      rintro _ _ ⟨rfl, last'', rfl⟩
      exact .pure ⟨rfl, last'', rfl⟩

/-- The parameter is read from the row. -/
def ParameterRead : Parameter → List Token → Prop
  | .mk name none left right, row =>
    row = [left] ∧ left.kind = .name ∧ left.lexeme = name ∧ right = none
  | .mk name (some ty) left right, row => ∃ colon us, row = left :: colon :: us ∧
      left.kind = .name ∧ left.lexeme = name ∧ colon.kind = .colon ∧ TyRead ty us ∧
      us.getLast? = right

theorem ParameterRead.starts {p : Parameter} {row : List Token} (h : ParameterRead p row) :
    ∃ u us, row = u :: us ∧ u.kind = .name := by
  obtain ⟨name, ty, left, right⟩ := p
  cases ty with
  | none =>
    obtain ⟨rfl, hleft, -⟩ := h
    exact ⟨left, [], rfl, hleft⟩
  | some ty =>
    obtain ⟨colon, us, rfl, hleft, -⟩ := h
    exact ⟨left, colon :: us, rfl, hleft⟩

/-- One parameter, with what comes after it. -/
theorem parameter_read {p : Parameter} {row more : List Token} (h : ParameterRead p row)
    {delimiter : Token} (hdelimiter : delimiter.kind = .comma ∨ delimiter.kind = .rightParen)
    {fuel : Nat} {last : Token} {id : NodeId} {α : Type} {k : Parameter → Parse α}
    {P : α → Cursor → Prop} (hk : ∀ last', Parses (k p) ⟨last', delimiter :: more, id⟩ P) :
    Parses (do
      let left ← expect .name .parameterName
      let ty ← annotated fuel
      let c ← MonadState.get
      k (.mk left.lexeme ty left (ty.map fun _ => c.last)))
      ⟨last, row ++ delimiter :: more, id⟩ P := by
  obtain ⟨name, ty, left, right⟩ := p
  cases ty with
  | none =>
    obtain ⟨rfl, hleft, rfl, rfl⟩ := h
    refine .expect_cons hleft (by decide) _ ?_
    have hcolon : delimiter.kind ≠ .colon := by
      rintro heq
      rcases hdelimiter with h | h <;> rw [heq] at h <;> cases h
    cases fuel with
    | zero => exact .outOfFuel
    | succ fuel =>
      simp only [annotated, bind_assoc]
      refine .accept_other rfl hcolon ?_
      exact hk left
  | some ty =>
    obtain ⟨colon, us, rfl, hleft, rfl, hcolon, hty, rfl⟩ := h
    refine .expect_cons hleft (by decide) _ ?_
    cases fuel with
    | zero => exact .outOfFuel
    | succ fuel =>
      simp only [annotated, bind_assoc]
      refine .accept_cons hcolon (by decide) ?_
      simp only [if_true, bind_assoc, pure_bind]
      have hfollows : TyCloses 0 ty.Open (delimiter :: more) := by
        refine .of_none ?_
        rcases hdelimiter with h | h <;> rw [h] <;> rfl
      refine (hty.union hfollows).bind ?_
      rintro _ _ ⟨rfl, last', hlast, rfl⟩
      have hread := hk last'
      rw [hlast] at hread
      exact hread

theorem parameterRow_reads (hinside : Punctuated .comma rows inside)
    (hclosing : closing.kind = .rightParen) {ps : List Parameter}
    (hps : List.Forall₂ ParameterRead ps rows) (hne : ps ≠ []) {count : Nat}
    (hcount : count + ps.length ≤ maxArguments) :
    InsideReads (parameterRow · count) ps inside closing := by
  induction hinside generalizing ps count with
  | none =>
    cases hps
    exact absurd rfl hne
  | one row =>
    cases hps with
    | @cons p _ ps _ hp hps =>
    cases hps
    intro fuel last rest id
    cases fuel with
    | zero => exact .outOfFuel
    | succ fuel =>
      obtain ⟨u, us, rfl, hu⟩ := hp.starts
      rw [List.length_singleton] at hcount
      simp only [parameterRow]
      refine .skipNewlines_cons (by rw [hu]; decide) ?_
      rw [if_neg (by omega)]
      refine parameter_read hp (.inr hclosing) (k := fun p => do
        Grammar.skipNewlines
        if ← Grammar.accept .comma then return p :: (← parameterRow fuel (count + 1))
        else return [p]) fun last' => ?_
      refine .skipNewlines_cons (by rw [hclosing]; decide) ?_
      exact .accept_other rfl (by rw [hclosing]; decide) (.pure ⟨rfl, last', rfl⟩)
  | @more comma next inside rows first hcomma _ ih =>
    cases hps with
    | @cons p _ ps _ hp hps =>
    intro fuel last rest id
    cases fuel with
    | zero => exact .outOfFuel
    | succ fuel =>
      obtain ⟨u, us, rfl, hu⟩ := hp.starts
      rw [List.length_cons] at hcount
      rw [List.append_assoc]
      simp only [parameterRow]
      refine .skipNewlines_cons (by rw [hu]; decide) ?_
      rw [if_neg (by omega)]
      refine parameter_read hp (.inl hcomma) (k := fun p => do
        Grammar.skipNewlines
        if ← Grammar.accept .comma then return p :: (← parameterRow fuel (count + 1))
        else return [p]) fun last' => ?_
      refine .skipNewlines_cons (by rw [hcomma]; decide) ?_
      refine .accept_cons hcomma (by decide) ?_
      have hne' : ps ≠ [] := by
        rintro rfl
        cases hps
      have hcount' : count + 1 + ps.length ≤ maxArguments := by omega
      refine (ih hps hne' hcount').bind ?_
      rintro _ _ ⟨rfl, last'', rfl⟩
      exact .pure ⟨rfl, last'', rfl⟩

/-- A parameter list, its closing parenthesis included. -/
theorem parameters_read (hinside : Punctuated .comma rows inside)
    (hclosing : closing.kind = .rightParen) {ps : List Parameter}
    (hps : List.Forall₂ ParameterRead ps rows) (hlength : ps.length ≤ maxArguments) {fuel : Nat}
    {last : Token} {rest : List Token} {id : NodeId} :
    Parses (parameters fuel) ⟨last, inside ++ closing :: rest, id⟩ fun ps' c =>
      ps' = ps ∧ c = ⟨closing, rest, id⟩ := by
  cases fuel with
  | zero => exact .outOfFuel
  | succ fuel =>
    cases hps with
    | nil =>
      cases hinside
      rw [List.nil_append]
      simp only [parameters]
      refine .skipNewlines_cons (by rw [hclosing]; decide) (.get ?_)
      rw [if_pos (Parses.check_of_eq rfl hclosing (by decide))]
      simp only [pure_bind]
      exact .expect_cons hclosing (by decide) _ (.pure ⟨rfl, rfl⟩)
    | @cons p row ps rows hp hps =>
      obtain ⟨more, rfl⟩ := punctuated_head hinside
      have hstarts := hp.starts
      obtain ⟨u, us, rfl, hu⟩ := hstarts
      simp only [parameters]
      refine .skipNewlines_cons (by rw [hu]; decide) (.get ?_)
      rw [if_neg (Bool.eq_false_iff.1 (Parses.check_of_ne rfl (by rw [hu]; decide)))]
      have hcount : 0 + (p :: ps).length ≤ maxArguments := by rwa [Nat.zero_add]
      refine (parameterRow_reads hinside hclosing (.cons hp hps) (by simp) hcount).bind ?_
      rintro _ _ ⟨rfl, last', rfl⟩
      exact .expect_cons hclosing (by decide) _ (.pure ⟨rfl, rfl⟩)

end

/-! ### Types that stand by themselves -/

section

variable {t opening closing : Token} {rows : List (List Token)} {inside : List Token}

theorem named_read (ht : t.kind ∈ namedTypeKinds ∨ t.kind = .name) :
    TyRead (.named t.lexeme t.kind) [t] := by
  have hstarts : t.kind ∈ tyStarters := by
    rcases ht with h | h
    · simp only [tyStarters, List.mem_cons, h, or_true]
    · rw [h]
      decide
  have hend : t.kind ≠ .endMark := fun heq => absurd (heq ▸ hstarts) (by decide)
  refine .of_primary hstarts fun fuel last rest id hrest => ?_
  cases fuel with
  | zero => exact .outOfFuel
  | succ fuel =>
    simp only [primaryType]
    by_cases hnamed : t.kind ∈ namedTypeKinds
    · exact .acceptAny_cons hnamed hend (.pure ⟨rfl, t, rfl, rfl⟩)
    · have hname : t.kind = .name := ht.resolve_left hnamed
      have hfirst := hrest
      obtain ⟨u, us, rfl, -⟩ := hfirst
      refine .acceptAny_other rfl hnamed (.acceptAny_cons (by simp [hname]) hend ?_)
      have hless : u.kind ≠ .less := hrest.ne (l := 3) rfl (.inl (Nat.le_refl _))
      refine .accept_other rfl hless (.pure ⟨?_, t, rfl, rfl⟩)
      rw [hname]

theorem generic_read {head : Token} (hhead : head.kind = .name) (hopening : opening.kind = .less)
    (hclosing : closing.kind = .greater) {args : List Ty} (hargs : List.Forall₂ TyRead args rows)
    (hne : args ≠ []) (hinside : Punctuated .comma rows inside) :
    TyRead (.generic head.lexeme args) (head :: opening :: (inside ++ [closing])) := by
  refine .of_primary (by rw [hhead]; decide) fun fuel last rest id _ => ?_
  cases fuel with
  | zero => exact .outOfFuel
  | succ fuel =>
    simp only [List.cons_append, List.append_assoc, List.nil_append, primaryType]
    refine .acceptAny_other rfl (by rw [hhead]; decide) ?_
    refine .acceptAny_cons (by simp [hhead]) (by rw [hhead]; decide) ?_
    refine .accept_cons hopening (by decide) ?_
    refine (typeArguments_read hinside hclosing hargs hne).bind ?_
    rintro _ _ ⟨rfl, last', rfl⟩
    refine .expect_cons hclosing (by decide) _ (.pure ⟨rfl, closing, ?_, rfl⟩)
    rw [List.getLast?_cons_cons, getLast?_bracketed]

theorem function_read {arrow : Token} {params : List Parameter} {result : Ty} {us : List Token}
    (hopening : opening.kind = .leftParen) (hclosing : closing.kind = .rightParen)
    (harrow : arrow.kind = .arrow) (hparams : List.Forall₂ ParameterRead params rows)
    (hlength : params.length ≤ maxArguments) (hinside : Punctuated .comma rows inside)
    (hresult : TyRead result us) :
    TyRead (.function params result) (opening :: (inside ++ closing :: arrow :: us)) := by
  refine .of_primary (by rw [hopening]; decide) fun fuel last rest id hrest => ?_
  cases fuel with
  | zero => exact .outOfFuel
  | succ fuel =>
    simp only [List.cons_append, List.append_assoc, primaryType]
    refine .acceptAny_other rfl (by rw [hopening]; decide) ?_
    refine .acceptAny_other rfl (by rw [hopening]; decide) ?_
    refine .accept_cons hopening (by decide) ?_
    refine (parameters_read hinside hclosing hparams hlength).bind ?_
    rintro _ _ ⟨rfl, rfl⟩
    refine .expect_cons harrow (by decide) _ ?_
    -- the result goes on as far as it can, so nothing may go on with the function type
    have hfollows : TyCloses 0 result.Open rest := by
      obtain ⟨u, more, rfl, hu⟩ := hrest
      exact ⟨u, more, rfl, fun l hl => absurd trivial (hu l hl).2⟩
    refine (hresult.union hfollows).bind ?_
    rintro _ _ ⟨rfl, last', hlast, rfl⟩
    refine .pure ⟨rfl, last', ?_, rfl⟩
    simp [List.getLast?_append, List.getLast?_cons, hlast]

theorem tuple_read {elements : List Ty} (hopening : opening.kind = .leftBracket)
    (hclosing : closing.kind = .rightBracket) (helements : List.Forall₂ TyRead elements rows)
    (hinside : Punctuated .comma rows inside) :
    TyRead (.tuple elements) (opening :: (inside ++ [closing])) := by
  refine .of_primary (by rw [hopening]; decide) fun fuel last rest id _ => ?_
  cases fuel with
  | zero => exact .outOfFuel
  | succ fuel =>
    simp only [List.cons_append, List.append_assoc, List.nil_append, primaryType]
    refine .acceptAny_other rfl (by rw [hopening]; decide) ?_
    refine .acceptAny_other rfl (by rw [hopening]; decide) ?_
    refine .accept_other rfl (by rw [hopening]; decide) (.accept_cons hopening (by decide) ?_)
    refine (tupleElements_read hinside hclosing helements).bind ?_
    rintro _ _ ⟨rfl, last', rfl⟩
    exact .expect_cons hclosing (by decide) _
      (.pure ⟨rfl, closing, getLast?_bracketed _ _ _, rfl⟩)

theorem emptyObject_read (ht : t.kind = .emptyObject) : TyRead (.object []) [t] := by
  refine .of_primary (by rw [ht]; decide) fun fuel last rest id _ => ?_
  cases fuel with
  | zero => exact .outOfFuel
  | succ fuel =>
    simp only [primaryType]
    refine .acceptAny_other rfl (by rw [ht]; decide) ?_
    refine .acceptAny_other rfl (by rw [ht]; decide) ?_
    refine .accept_other rfl (by rw [ht]; decide) (.accept_other rfl (by rw [ht]; decide) ?_)
    exact .accept_cons ht (by decide) (.pure ⟨rfl, t, rfl, rfl⟩)

theorem objectType_read {entries : List TyEntry} (hopening : opening.kind = .leftBrace)
    (hclosing : closing.kind = .rightBrace) (hentries : List.Forall₂ TyEntryRead entries rows)
    (hinside : Punctuated .comma rows inside) :
    TyRead (.object entries) (opening :: (inside ++ [closing])) := by
  refine .of_primary (by rw [hopening]; decide) fun fuel last rest id _ => ?_
  have hsolid : ∃ u us, inside ++ closing :: rest = u :: us ∧ u.kind ≠ .newline := by
    cases hentries with
    | nil =>
      cases hinside
      exact ⟨closing, rest, rfl, by rw [hclosing]; decide⟩
    | cons hfirst _ =>
      obtain ⟨more, rfl⟩ := punctuated_head hinside
      obtain ⟨u, us, rfl, hu⟩ := hfirst.starts
      exact ⟨u, us ++ more ++ closing :: rest, by simp, hu⟩
  cases fuel with
  | zero => exact .outOfFuel
  | succ fuel =>
    simp only [List.cons_append, List.append_assoc, List.nil_append, primaryType]
    refine .acceptAny_other rfl (by rw [hopening]; decide) ?_
    refine .acceptAny_other rfl (by rw [hopening]; decide) ?_
    refine .accept_other rfl (by rw [hopening]; decide) (.accept_other rfl (by rw [hopening]; decide) ?_)
    refine .accept_other rfl (by rw [hopening]; decide) (.accept_cons hopening (by decide) ?_)
    have hinner := typeEntries_read hinside hclosing hentries
    have hread := @hinner fuel opening rest id
    obtain ⟨u, us, heq, hu⟩ := hsolid
    rw [heq] at hread ⊢
    refine .skipNewlines_cons hu (hread.bind ?_)
    rintro _ _ ⟨rfl, last', rfl⟩
    exact .expect_cons hclosing (by decide) _
      (.pure ⟨rfl, closing, getLast?_bracketed _ _ _, rfl⟩)

/-! ### All types -/

/-- A row of members starts with its first member. -/
theorem members_start {kind : Token.Kind} {members : List Ty} {row : List Token}
    (hrow : Punctuated kind rows row) (hmembers : List.Forall₂ TyRead members rows)
    (hlength : 2 ≤ members.length) : ∃ u us, row = u :: us ∧ u.kind ∈ tyStarters := by
  cases hmembers with
  | nil => cases hlength
  | cons hfirst _ =>
    obtain ⟨more, rfl⟩ := punctuated_head hrow
    obtain ⟨u, us, rfl, hu⟩ := hfirst.starts
    exact ⟨u, us ++ more, rfl, hu⟩

theorem intersections_of_members {members : List Ty} (hmembers : List.Forall₂ TyRead members rows)
    (hcanonical : membersCanonical 1 members) :
    List.Forall₂ (TyReads intersectionType 1) members rows := by
  induction hmembers with
  | nil => exact .nil
  | cons hfirst _ ih =>
    obtain ⟨hlevel, -, -, hothers⟩ := hcanonical
    exact .cons (hfirst.intersection hlevel) (ih hothers)

theorem arrays_of_members {members : List Ty} (hmembers : List.Forall₂ TyRead members rows)
    (hcanonical : membersCanonical 2 members) :
    List.Forall₂ (TyReads arrayType 2) members rows := by
  induction hmembers with
  | nil => exact .nil
  | cons hfirst _ ih =>
    obtain ⟨hlevel, -, -, hothers⟩ := hcanonical
    exact .cons (hfirst.array hlevel) (ih hothers)

theorem union_read {members : List Ty} {row : List Token} (hrow : Punctuated .pipe rows row)
    (hmembers : List.Forall₂ TyRead members rows) (hlength : 2 ≤ members.length)
    (hcanonical : membersCanonical 1 members) : TyRead (.union members) row where
  starts := members_start hrow hmembers hlength
  union := whole_of_members .union hrow (intersections_of_members hmembers hcanonical) hlength
    hcanonical Iff.rfl
  intersection h := absurd h (Nat.not_succ_le_zero 0)
  array h := absurd h (Nat.not_succ_le_zero 1)
  head h := absurd h (Nat.not_succ_le_zero 1)

theorem intersection_read {members : List Ty} {row : List Token}
    (hrow : Punctuated .ampersand rows row) (hmembers : List.Forall₂ TyRead members rows)
    (hlength : 2 ≤ members.length) (hcanonical : membersCanonical 2 members) :
    TyRead (.intersection members) row := by
  have hread : TyReads intersectionType 1 (.intersection members) row :=
    whole_of_members .intersection hrow (arrays_of_members hmembers hcanonical) hlength hcanonical
      Iff.rfl
  exact ⟨members_start hrow hmembers hlength, whole_of_member .union hread, fun _ => hread,
    fun h => absurd h (Nat.not_succ_le_self 1), fun h => absurd h (Nat.not_succ_le_self 1)⟩

mutual

/-- A canonical type is read from each of its spellings. -/
theorem ty_read : (t : Ty) → {row : List Token} → t.Canonical → t.Spelled row → TyRead t row
  | .named _ _, _, hkind, ⟨_, rfl, rfl, rfl⟩ => named_read hkind
  | .function params result, _, ⟨hlength, hparams, hresult⟩,
      ⟨_, _, _, _, _, _, rfl, hopening, hclosing, harrow, hrows, hinside, hus⟩ =>
    function_read hopening hclosing harrow (params_read params hparams hrows) hlength hinside
      (ty_read result hresult hus)
  | .union members, _, ⟨hlength, hmembers⟩, ⟨_, hrows, hinside⟩ =>
    union_read hinside (members_read_each members hmembers hrows) hlength hmembers
  | .intersection members, _, ⟨hlength, hmembers⟩, ⟨_, hrows, hinside⟩ =>
    intersection_read hinside (members_read_each members hmembers hrows) hlength hmembers
  | .array element, _, ⟨hlevel, hopen, helement⟩, ⟨_, _, _, rfl, hopening, hclosing, hus⟩ =>
    (ty_read element helement hus).of_array hopening hclosing hlevel hopen
  | .tuple elements, _, helements, ⟨_, _, _, _, rfl, hopening, hclosing, hrows, hinside⟩ =>
    tuple_read hopening hclosing (tys_read elements helements hrows) hinside
  | .object _, _, _, .inl ⟨rfl, _, rfl, ht⟩ => emptyObject_read ht
  | .object entries, _, hentries,
      .inr ⟨_, _, _, _, rfl, hopening, hclosing, hrows, hinside⟩ =>
    objectType_read hopening hclosing (tyEntries_read entries hentries hrows) hinside
  | .generic _ args, _, ⟨hne, hargs⟩,
      ⟨_, _, _, _, _, rfl, rfl, hhead, hopening, hclosing, hrows, hinside⟩ =>
    generic_read hhead hopening hclosing (tys_read args hargs hrows) hne hinside
termination_by structural t => t

theorem members_read_each : (ts : List Ty) → {rows : List (List Token)} → {level : Nat} →
    membersCanonical level ts → tysSpelled ts rows → List.Forall₂ TyRead ts rows
  | [], _, _, _, rfl => .nil
  | t :: ts, _, _, ⟨_, _, ht, hts⟩, ⟨_, _, rfl, hrow, hrows⟩ =>
    .cons (ty_read t ht hrow) (members_read_each ts hts hrows)
termination_by structural ts => ts

theorem tys_read : (ts : List Ty) → {rows : List (List Token)} → tysCanonical ts →
    tysSpelled ts rows → List.Forall₂ TyRead ts rows
  | [], _, _, rfl => .nil
  | t :: ts, _, ⟨ht, hts⟩, ⟨_, _, rfl, hrow, hrows⟩ =>
    .cons (ty_read t ht hrow) (tys_read ts hts hrows)
termination_by structural ts => ts

theorem tyEntries_read : (es : List TyEntry) → {rows : List (List Token)} →
    tyEntriesCanonical es → tyEntriesSpelled es rows → List.Forall₂ TyEntryRead es rows
  | [], _, _, rfl => .nil
  | .mk _ ty :: es, _, ⟨hty, hes⟩, ⟨key, colon, us, _, rfl, hname, hkey, hcolon, hus, hrows⟩ =>
    .cons ⟨key, colon, us, rfl, hname, hkey, hcolon, ty_read ty hty hus⟩
      (tyEntries_read es hes hrows)
termination_by structural es => es

theorem parameterRow_each : (p : Parameter) → {row : List Token} → p.Canonical → p.Spelled row →
    ParameterRead p row
  | .mk _ none _ _, _, ⟨hleft, hname, hright⟩, rfl => ⟨rfl, hleft, hname, hright⟩
  | .mk _ (some ty) _ _, _, ⟨hleft, hname, hty, _⟩, ⟨colon, us, rfl, hcolon, hus, hright⟩ =>
    ⟨colon, us, rfl, hleft, hname, hcolon, ty_read ty hty hus, hright⟩
termination_by structural p => p

theorem params_read : (ps : List Parameter) → {rows : List (List Token)} → paramsCanonical ps →
    paramsSpelled ps rows → List.Forall₂ ParameterRead ps rows
  | [], _, _, rfl => .nil
  | p :: ps, _, ⟨hp, hps⟩, ⟨_, _, rfl, hrow, hrows⟩ =>
    .cons (parameterRow_each p hp hrow) (params_read ps hps hrows)
termination_by structural ps => ps

end

end

/-! ### Declarations -/

/-- A declaration with an annotation that is read from its row. -/
theorem annotated_reads {t : Ty} {row : List Token} (h : TyRead t row)
    {keyword name colon mark : Token} (hkeyword : keyword.kind = .kwLet)
    (hname : name.kind = .name) (hcolon : colon.kind = .colon) (hmark : mark.kind = .endMark)
    {fuel : Nat} {c : Cursor} (hc : c.rest = keyword :: name :: colon :: (row ++ [mark])) :
    Parses (statement fuel) c fun s c' =>
      s = .variable name .let_ (some t) none ∧ c'.rest = [mark] := by
  cases fuel with
  | zero => exact .outOfFuel
  | succ fuel =>
    rw [statement]
    refine (Parses.skipNewlines hc feeds_nil (by rw [hkeyword]; decide)).bind fun _ c₁ h₁ => .get ?_
    rw [Parses.peek_eq h₁, hkeyword]
    refine (Parses.advance h₁ (by rw [hkeyword]; decide)).bind fun a c₂ h₂ => ?_
    rw [h₂.1]
    cases fuel with
    | zero => exact .outOfFuel
    | succ fuel =>
      simp only [variableDeclaration]
      refine (Parses.expect h₂.2 hname (by decide) _).bind fun b c₃ h₃ => ?_
      have hannotation : Parses (annotated fuel) c₃ fun ty c' =>
          ty = some t ∧ c'.rest = [mark] := by
        obtain ⟨last, rest, id⟩ := c₃
        obtain ⟨-, rfl⟩ : b = name ∧ rest = colon :: (row ++ [mark]) := h₃
        cases fuel with
        | zero => exact .outOfFuel
        | succ fuel =>
          simp only [annotated]
          refine .accept_cons hcolon (by decide) ?_
          have hcloses : tyContinuation mark.kind = none := by rw [hmark]; rfl
          refine (h.union (.of_none hcloses)).bind ?_
          rintro _ _ ⟨rfl, last', -, rfl⟩
          exact .pure ⟨rfl, rfl⟩
      refine hannotation.bind fun ty c₄ h₄ => .peek ?_
      rw [Parses.peek_eq h₄.2, hmark, if_pos (show Token.Kind.endMark.isTerminator = true from rfl)]
      have hend : Parses statementEnd c₄ fun _ c' => c'.rest = [mark] := by
        refine .acceptAny_other h₄.2 (by rw [hmark]; decide) (.get ?_)
        have hover : (c₄.atEnd || c₄.check .rightBrace) = true := by
          simp [Cursor.atEnd, Parses.peek_eq h₄.2, hmark]
        rw [if_pos hover]
        exact .pure h₄.2
      refine hend.bind fun _ c₅ h₅ => .pure ⟨?_, h₅⟩
      rw [h₃.1, h₄.1, hkeyword]
      rfl

end Grammar

/-! ### Programs -/

/-- The annotations of a function: those of its parameters and of its result. -/
def FunctionDecl.annotations (f : FunctionDecl) : List Ty :=
  f.params.filterMap Parameter.ty ++ f.result.toList

/-- The annotations that are written at a node. -/
def Node.annotations : Node → List Ty
  | .expr (.function _ declaration) | .stmt (.functionDecl declaration) => declaration.annotations
  | .stmt (.variable _ _ ty _) => ty.toList
  | .stmt (.classDecl declaration) =>
    declaration.methods.flatMap FunctionDecl.annotations ++
      declaration.fields.filterMap FieldDecl.ty
  | _ => []

theorem Parameter.Canonical.ty {p : Parameter} (h : p.Canonical) {t : Ty} (ht : p.ty = some t) :
    t.Canonical := by
  obtain ⟨name, ty, left, right⟩ := p
  obtain rfl : ty = some t := ht
  exact h.2.2.1

theorem params_annotations {ps : List Parameter} (h : paramsCanonical ps) :
    ∀ t ∈ ps.filterMap Parameter.ty, t.Canonical := by
  induction ps with
  | nil => exact fun t ht => nomatch ht
  | cons p ps ih =>
    intro t ht
    obtain ⟨q, hq, hty⟩ := List.mem_filterMap.1 ht
    rcases List.mem_cons.1 hq with rfl | hq
    · exact h.1.ty hty
    · exact ih h.2 t (List.mem_filterMap.2 ⟨q, hq, hty⟩)

theorem FunctionDecl.WellFormed.annotations {f : FunctionDecl} (h : f.WellFormed) :
    ∀ t ∈ f.annotations, t.Canonical := by
  intro t ht
  rcases List.mem_append.1 ht with ht | ht
  · exact params_annotations h.params t ht
  · exact h.result t (Option.mem_toList.1 ht)

theorem Node.WellFormed.annotations {n : Node} (h : n.WellFormed) :
    ∀ t ∈ n.annotations, t.Canonical := by
  unfold Node.annotations
  split
  · exact FunctionDecl.WellFormed.annotations h
  · exact FunctionDecl.WellFormed.annotations h
  · exact fun t ht => h.1 t (Option.mem_toList.1 ht)
  · intro t ht
    rcases List.mem_append.1 ht with ht | ht
    · obtain ⟨m, hm, ht⟩ := List.mem_flatMap.1 ht
      exact (h.1 m hm).annotations t ht
    · obtain ⟨f, hf, ht⟩ := List.mem_filterMap.1 ht
      exact h.2 f hf t ht
  · exact fun t ht => nomatch ht

/-- A canonical type has a spelling, and from `let name :` and any spelling of the type the parser
reads the declaration with that type.  Whatever tokens are parsed, all annotations in the program are
canonical. -/
theorem annotation_round_trip :
    (∀ t : Ty, t.Canonical → (∃ row, t.Spelled row) ∧
      ∀ row, t.Spelled row → ∀ (firstId : NodeId) (keyword name colon mark : Token),
        keyword.kind = .kwLet → name.kind = .name → colon.kind = .colon → mark.kind = .endMark →
        ∃ nextId, parseFrom firstId (keyword :: name :: colon :: (row ++ [mark])) =
          .ok ([.variable name .let_ (some t) none], nextId)) ∧
    ∀ (firstId nextId : NodeId) (tokens : List Token) (program : Program),
      parseFrom firstId tokens = .ok (program, nextId) →
      ∀ s ∈ Program.sites program, ∀ t ∈ s.node.annotations, t.Canonical := by
  refine ⟨fun t ht => ⟨?_, ?_⟩, fun firstId nextId tokens program h s hs => ?_⟩
  · obtain ⟨last, hlast⟩ := t.exists_last ht
    obtain ⟨row, hrow, -⟩ := t.exists_spelling ht last hlast
    exact ⟨row, hrow⟩
  · intro row hrow firstId keyword name colon mark hkeyword hname hcolon hmark
    have hread : Grammar.TyRead t row := Grammar.ty_read t ht hrow
    obtain ⟨_, nextId, hparse, rfl⟩ := parseFrom_of_statement firstId (name :: colon :: row)
      (by rw [hkeyword]; decide) (by rw [hkeyword]; decide) hmark
      fun fuel c hc => Grammar.annotated_reads hread hkeyword hname hcolon hmark hc
    exact ⟨nextId, hparse⟩
  · exact ((parseFrom_wellFormed h).nodes s hs).annotations

/-- The type `(x: T) => T[]`. -/
def arrayMaker : Ty :=
  .function [.mk "" (some (.named "" .name)) (freeToken .name none) (some (freeToken .name none))]
    (.array (.named "" .name))

/-- The brackets belong to the result. -/
theorem arrayMaker_read :
    arrayMaker.Canonical ∧
      ∃ nextId, parseFrom 0 [freeToken .kwLet none, freeToken .name none, freeToken .colon none,
          freeToken .leftParen none, freeToken .name none, freeToken .colon none,
          freeToken .name none, freeToken .rightParen none, freeToken .arrow none,
          freeToken .name none, freeToken .leftBracket none, freeToken .rightBracket none,
          freeToken .endMark none] =
        .ok ([.variable (freeToken .name none) .let_ (some arrayMaker) none], nextId) ∧
      ∀ s ∈ Program.sites [.variable (freeToken .name none) .let_ (some arrayMaker) none],
        ∀ t ∈ s.node.annotations, t.Canonical := by
  have hname : (Ty.named "" .name).Canonical := .inr rfl
  have hcanonical : arrayMaker.Canonical :=
    ⟨by decide, ⟨⟨rfl, rfl, hname, freeToken .name none, rfl, rfl, rfl⟩, trivial⟩, rfl,
      fun h => h, hname⟩
  have hspelled : arrayMaker.Spelled [freeToken .leftParen none, freeToken .name none,
      freeToken .colon none, freeToken .name none, freeToken .rightParen none,
      freeToken .arrow none, freeToken .name none, freeToken .leftBracket none,
      freeToken .rightBracket none] := by
    have hparam : [freeToken .name none].getLast? = some (freeToken .name none) := rfl
    exact ⟨freeToken .leftParen none, _, _, freeToken .rightParen none, freeToken .arrow none, _,
      rfl, rfl, rfl, rfl,
      ⟨_, [], rfl, ⟨freeToken .colon none, [freeToken .name none], rfl, rfl,
        ⟨freeToken .name none, rfl, rfl, rfl⟩, hparam⟩, rfl⟩, .one _,
      [freeToken .name none], freeToken .leftBracket none, freeToken .rightBracket none, rfl, rfl,
      rfl, freeToken .name none, rfl, rfl, rfl⟩
  obtain ⟨nextId, hparse⟩ := (annotation_round_trip.1 arrayMaker hcanonical).2 _ hspelled 0
    (freeToken .kwLet none) (freeToken .name none) (freeToken .colon none)
    (freeToken .endMark none) rfl rfl rfl rfl
  exact ⟨hcanonical, nextId, hparse, annotation_round_trip.2 0 nextId _ _ hparse⟩

end ScopedScript
