import ScopedScript.Proofs.Parsing.Locality
import ScopedScript.Proofs.Parsing.Endings

/-! # What may stand behind an expression

An expression that is read up to the end mark is read in the same way before any other token that
cannot continue it, and the brackets in what it takes pair up.

* **Rows.** At a `Seam` a row ends with its end mark, and another one goes on with a token that no
  production looks for beyond the token in view (`soughtAhead`).  A cursor is `Before` another one if it
  has such a row to come where the other one has the row that goes on.
* **Productions.** A production *carries* over the seam (`Carries`) if what it takes leads from so many
  open brackets to so many, and if it makes the same tree at the other cursor.  The exception are
  productions that end at the seam (`Spent`), where the next token may continue what they read; which
  tokens do is a condition that comes with each production.

Each production carries over every seam (`productionsCarry`): an expression unless an operator, an
assignment, a dot or a parenthesis follows (`expressionFollowers`). -/

namespace ScopedScript

namespace Grammar

/-! ### Rows with a seam -/

/-- These tokens, with no end mark among them, lead from so many open brackets to so many. -/
inductive Brackets : Nat → List Token → Nat → Prop
  | nil {n : Nat} : Brackets n [] n
  | opening {n m : Nat} {t : Token} {ts : List Token} : t.kind = .leftBracket →
      Brackets (n + 1) ts m → Brackets n (t :: ts) m
  | closing {n m : Nat} {t : Token} {ts : List Token} : t.kind = .rightBracket →
      Brackets n ts m → Brackets (n + 1) (t :: ts) m
  | other {n m : Nat} {t : Token} {ts : List Token} :
      t.kind ∉ [.leftBracket, .rightBracket, .endMark] → Brackets n ts m → Brackets n (t :: ts) m

namespace Brackets

variable {n m k : Nat} {ts us : List Token}

theorem append (h : Brackets n ts m) (h' : Brackets m us k) : Brackets n (ts ++ us) k := by
  induction h with
  | nil => exact h'
  | opening ht _ ih => exact .opening ht (ih h')
  | closing ht _ ih => exact .closing ht (ih h')
  | other ht _ ih => exact .other ht (ih h')

theorem single {t : Token} (h : t.kind ∉ [.leftBracket, .rightBracket, .endMark]) :
    Brackets n [t] n := .other h .nil

/-- The same tokens, inside of more brackets. -/
theorem deeper (h : Brackets n ts m) (k : Nat) : Brackets (k + n) ts (k + m) := by
  induction h with
  | nil => exact .nil
  | opening ht _ ih => exact .opening ht ih
  | closing ht _ ih => exact .closing ht ih
  | other ht _ ih => exact .other ht ih

theorem ne_endMark (h : Brackets n ts m) : ∀ t ∈ ts, t.kind ≠ .endMark := by
  induction h with
  | nil => exact fun t ht => by cases ht
  | opening ht _ ih | closing ht _ ih => exact List.forall_mem_cons.2 ⟨by simp [ht], ih⟩
  | other ht _ ih => exact List.forall_mem_cons.2 ⟨by rintro h; simp [h] at ht, ih⟩

/-- A token that is no bracket either ends a search or is passed over. -/
theorem assignsAfterBracket_other {t : Token}
    (ht : t.kind ∉ [.leftBracket, .rightBracket, .endMark]) (depth : Nat) (rest : List Token) :
    assignsAfterBracket depth (t :: rest) =
      if t.kind ∈ joints then false else assignsAfterBracket depth rest := by
  simp only [assignsAfterBracket, joints]
  generalize t.kind = kind at ht ⊢
  cases kind <;> first | rfl | exact absurd ht (by decide)

/-- A search that starts behind an open bracket comes to its end before the brackets are closed, or
right behind them. -/
theorem assignsAfterBracket_eq (h : Brackets n ts m) (hn : n ≠ 0) (hm : m = 0)
    {us us' : List Token} (hus : us.head? = us'.head?) :
    assignsAfterBracket n (ts ++ us) = assignsAfterBracket n (ts ++ us') := by
  induction h with
  | nil => exact absurd hm hn
  | opening ht _ ih =>
    simp only [List.cons_append, assignsAfterBracket, ht]
    exact ih (Nat.succ_ne_zero _) hm
  | @closing n _ t ts ht h ih =>
    simp only [List.cons_append, assignsAfterBracket, ht]
    split
    · -- the bracket is the one that the search started at
      cases ts with
      | nil => cases us <;> cases us' <;> simp_all
      | cons u ts => rfl
    · next hdepth => exact ih (by omega) hm
  | @other n _ t ts ht _ ih =>
    rw [List.cons_append, List.cons_append, assignsAfterBracket_other ht,
      assignsAfterBracket_other ht, ih hn hm]

/-- Pairs of brackets with no separator between them are passed over in a search. -/
theorem assignsAfterBracket_append (h : Brackets n ts m) (hts : ∀ t ∈ ts, t.kind ∉ joints)
    (us : List Token) :
    assignsAfterBracket (n + 1) (ts ++ us) = assignsAfterBracket (m + 1) us := by
  induction h with
  | nil => rfl
  | opening ht _ ih =>
    simp only [List.cons_append, assignsAfterBracket, ht]
    exact ih (List.forall_mem_cons.1 hts).2
  | closing ht _ ih =>
    simp only [List.cons_append, assignsAfterBracket, ht]
    rw [if_neg (by omega)]
    exact ih (List.forall_mem_cons.1 hts).2
  | other ht _ ih =>
    obtain ⟨hjoint, hts⟩ := List.forall_mem_cons.1 hts
    rw [List.cons_append, assignsAfterBracket_other ht, if_neg hjoint]
    exact ih hts

/-- A separator between pairs of brackets ends a search. -/
theorem assignsAfterBracket_joint (h : Brackets n ts m) (hts : ∃ t ∈ ts, t.kind ∈ joints)
    (us : List Token) : assignsAfterBracket (n + 1) (ts ++ us) = false := by
  have hrest : ∀ {t : Token} {ts : List Token}, t.kind ∉ joints →
      (∃ u ∈ t :: ts, u.kind ∈ joints) → ∃ u ∈ ts, u.kind ∈ joints := by
    rintro t ts ht ⟨u, hu, hjoint⟩
    rcases List.mem_cons.1 hu with rfl | hu
    · exact absurd hjoint ht
    · exact ⟨u, hu, hjoint⟩
  induction h with
  | nil =>
    obtain ⟨t, ht, -⟩ := hts
    cases ht
  | opening ht _ ih =>
    simp only [List.cons_append, assignsAfterBracket, ht]
    exact ih (hrest (by rw [ht]; decide) hts)
  | closing ht _ ih =>
    simp only [List.cons_append, assignsAfterBracket, ht]
    rw [if_neg (by omega)]
    exact ih (hrest (by rw [ht]; decide) hts)
  | other ht _ ih =>
    rw [List.cons_append, assignsAfterBracket_other ht]
    split
    · rfl
    · next hjoint => exact ih (hrest hjoint hts)

end Brackets

/-- The kinds of tokens that productions look for behind the token in view, or beyond line feeds. -/
def soughtAhead : List Token.Kind := [.name, .colon, .leftBracket, .emptyObject, .endMark]

/-- A place where one row ends, and another goes on. -/
structure Seam where
  mark : Token
  next : Token
  more : List Token
  mark_kind : mark.kind = .endMark
  next_kind : next.kind ∉ soughtAhead

/-- One row ends at the seam, the other one goes on. -/
inductive Seam.Rows (J : Seam) : List Token → List Token → Prop
  | here : J.Rows [J.mark] (J.next :: J.more)
  | cons {t : Token} {ts ts' : List Token} : t.kind ≠ .endMark → J.Rows ts ts' →
      J.Rows (t :: ts) (t :: ts')

theorem Seam.rows (J : Seam) {ts : List Token} (h : ∀ t ∈ ts, t.kind ≠ .endMark) :
    J.Rows (ts ++ [J.mark]) (ts ++ J.next :: J.more) := by
  induction ts with
  | nil => exact .here
  | cons t ts ih =>
    obtain ⟨ht, hts⟩ := List.forall_mem_cons.1 h
    exact .cons ht (ih hts)

/-- The end mark comes behind nothing but line feeds. -/
def Seam.Fed (J : Seam) (ts : List Token) : Prop :=
  ∃ feeds : List Token, (∀ t ∈ feeds, t.kind = .newline) ∧ ts = feeds ++ [J.mark]

/-- Nothing but line feeds, or only an opening bracket, stands before the end mark. -/
def Seam.Spent (J : Seam) (c : Cursor) : Prop :=
  J.Fed c.rest ∨ ∃ t, t.kind = .leftBracket ∧ c.rest = [t, J.mark]

/-- The other cursor has the row that goes on. -/
structure Cursor.Before (J : Seam) (c c' : Cursor) : Prop where
  rows : J.Rows c.rest c'.rest
  last : c'.last = c.last
  nextId : c'.nextId = c.nextId

/-- The tokens between the cursors lead from so many open brackets to so many. -/
def Taken (n m : Nat) (c d : Cursor) : Prop := ∃ ts, Brackets n ts m ∧ c.rest = ts ++ d.rest

/-- If the first result is a tree, then the second is the same one, or nothing is left. -/
def Seam.Carried (J : Seam) (K : Prop) (n m : Nat) (c : Cursor) {α : Type}
    (r r' : Except Failure (α × Cursor)) : Prop :=
  ∀ a d, r = .ok (a, d) → Taken n m c d ∧
    (J.Spent d ∧ K ∨ ∃ d', r' = .ok (a, d') ∧ d.Before J d')

/-- The second production makes the trees of the first, where the row goes on. -/
def Carries (J : Seam) (K : Prop) (n m : Nat) {α : Type} (x x' : Parse α) : Prop :=
  ∀ c c' : Cursor, c.Before J c' → J.Carried K n m c (x c) (x' c')

/-! ### At the seam -/

section

variable {J : Seam} {K K' : Prop} {n m k : Nat} {c d c' : Cursor}

theorem Taken.refl : Taken n n c c := ⟨[], .nil, rfl⟩

theorem Taken.trans (h : Taken n k c d) (h' : Taken k m d c') : Taken n m c c' := by
  obtain ⟨ts, hts, hc⟩ := h
  obtain ⟨us, hus, hd⟩ := h'
  exact ⟨ts ++ us, hts.append hus, by rw [hc, hd, List.append_assoc]⟩

theorem Cursor.kind_of_check {kind : Token.Kind} (h : c.check kind = true) :
    c.peek.kind = kind := by
  simp only [Cursor.check, Bool.and_eq_true, beq_iff_eq] at h
  exact h.2

namespace Seam

theorem mark_atEnd (h : c.rest = [J.mark]) : c.atEnd = true := by
  simp [Cursor.atEnd, Cursor.peek, h, J.mark_kind]

theorem fed_mark : J.Fed [J.mark] := ⟨[], by simp, rfl⟩

theorem Fed.cons {t : Token} {ts : List Token} (ht : t.kind = .newline) (h : J.Fed ts) :
    J.Fed (t :: ts) := by
  obtain ⟨feeds, hfeeds, rfl⟩ := h
  exact ⟨t :: feeds, List.forall_mem_cons.2 ⟨ht, hfeeds⟩, rfl⟩

/-- No more than line feeds can be taken before the end mark. -/
theorem Fed.taken {ts us : List Token} (h : J.Fed (ts ++ us)) (hts : ∀ t ∈ ts, t.kind ≠ .endMark) :
    J.Fed us := by
  obtain ⟨feeds, hfeeds, heq⟩ := h
  obtain ⟨vs, rfl, hus⟩ | ⟨vs, rfl, hmark⟩ := List.append_eq_append_iff.1 heq
  · exact ⟨vs, fun t ht => hfeeds t (List.mem_append_right ts ht), hus⟩
  · cases vs with
    | nil => exact ⟨[], by simp, hmark.symm⟩
    | cons v vs =>
      obtain ⟨rfl, -⟩ := List.cons.inj hmark
      exact absurd J.mark_kind (hts _ (by simp))

theorem Fed.dropWhile {ts : List Token} (h : J.Fed ts) :
    ts.dropWhile (·.kind == .newline) = [J.mark] := by
  obtain ⟨feeds, hfeeds, rfl⟩ := h
  rw [Reads.dropWhile_feeds hfeeds, List.dropWhile_cons_of_neg (by simp [J.mark_kind])]

theorem spent_mark (h : c.rest = [J.mark]) : J.Spent c := .inl (h ▸ fed_mark)

/-- Nothing but line feeds and an opening bracket can be taken at the seam. -/
theorem Spent.taken (h : J.Spent c) (ht : Taken n m c d) : J.Spent d := by
  obtain ⟨ts, hts, heq⟩ := ht
  rcases h with hfed | ⟨t, ht, hrest⟩
  · exact .inl ((heq ▸ hfed).taken hts.ne_endMark)
  · rw [hrest] at heq
    cases ts with
    | nil => exact .inr ⟨t, ht, heq.symm⟩
    | cons u ts =>
      obtain ⟨-, hmore⟩ := List.cons.inj heq
      have hts := hts.ne_endMark
      exact .inl ((hmore ▸ fed_mark).taken (List.forall_mem_cons.1 hts).2)

/-- A row that goes on where the other one ends. -/
theorem Spent.before (h : J.Spent c) : ∃ c', c.Before J c' := by
  obtain ⟨last, rest, nextId⟩ := c
  rcases h with ⟨feeds, hfeeds, hrest⟩ | ⟨t, ht, hrest⟩ <;> obtain rfl := hrest
  · exact ⟨⟨last, feeds ++ J.next :: J.more, nextId⟩,
      J.rows fun t ht => by rw [hfeeds t ht]; decide, rfl, rfl⟩
  · exact ⟨⟨last, t :: J.next :: J.more, nextId⟩, .cons (by simp [ht]) .here, rfl, rfl⟩

theorem Spent.peek_kind (h : J.Spent c) :
    c.peek.kind = .endMark ∨ c.peek.kind ∈ [.leftBracket, .newline] := by
  obtain ⟨last, rest, nextId⟩ := c
  rcases h with ⟨feeds, hfeeds, hrest⟩ | ⟨t, ht, hrest⟩ <;> obtain rfl := hrest
  · cases feeds with
    | nil => exact .inl J.mark_kind
    | cons t feeds =>
      have ht : t.kind = .newline := hfeeds t List.mem_cons_self
      exact .inr (by simp [Cursor.peek, ht])
  · exact .inr (by simp [Cursor.peek, ht])

theorem Spent.check (h : J.Spent c) {kind : Token.Kind} (hkind : kind ∉ [.leftBracket, .newline]) :
    c.check kind = false := by
  rcases h.peek_kind with hpeek | hpeek
  · simp [Cursor.check, Cursor.atEnd, hpeek]
  · refine Bool.eq_false_iff.2 fun hcheck => hkind ?_
    rwa [Cursor.kind_of_check hcheck] at hpeek

end Seam

/-- At its end the row goes on with the next token. -/
theorem Cursor.Before.ended {last : Token} {i : NodeId} (h : Before J ⟨last, [J.mark], i⟩ c') :
    c' = ⟨last, J.next :: J.more, i⟩ := by
  obtain ⟨last', rest', nextId'⟩ := c'
  obtain ⟨hrows, hlast, hid⟩ := h
  dsimp only at hrows hlast hid
  subst hlast hid
  cases hrows with
  | here => rfl
  | cons hkind _ => exact absurd J.mark_kind hkind

namespace Cursor.Before

/-- A row that has ended, or a token that is in view at both cursors. -/
theorem cases (h : c.Before J c') :
    (c.rest = [J.mark] ∧ c'.rest = J.next :: J.more) ∨
    ∃ t ts ts', c.rest = t :: ts ∧ c'.rest = t :: ts' ∧ t.kind ≠ .endMark ∧ J.Rows ts ts' := by
  obtain ⟨last, rest, nextId⟩ := c
  obtain ⟨last', rest', nextId'⟩ := c'
  obtain ⟨hrows, -, -⟩ := h
  cases hrows with
  | here => exact .inl ⟨rfl, rfl⟩
  | cons ht hrows => exact .inr ⟨_, _, _, rfl, rfl, ht, hrows⟩

theorem peek (h : c.Before J c') (hend : c.atEnd = false) : c'.peek = c.peek := by
  rcases h.cases with ⟨hc, -⟩ | ⟨t, ts, ts', hc, hc', -, -⟩
  · rw [J.mark_atEnd hc] at hend
    cases hend
  · rw [Cursor.peek, Cursor.peek, hc, hc']
    rfl

theorem check (h : c.Before J c') (hend : c.atEnd = false) (kind : Token.Kind) :
    c'.check kind = c.check kind := by
  rw [Cursor.check, Cursor.check, Cursor.atEnd, Cursor.atEnd, h.peek hend]

/-- Where the row goes on, only its next token may be in view. -/
theorem check_here (h : c.Before J c') (hc : c.rest = [J.mark]) (kind : Token.Kind) :
    c'.check kind = true ↔ J.next.kind = kind := by
  have hnext : J.next.kind ≠ .endMark := fun h => J.next_kind (by rw [h]; decide)
  rcases h.cases with ⟨-, hc'⟩ | ⟨t, ts, ts', ht, -, hkind, -⟩
  · simp [Cursor.check, Cursor.atEnd, Cursor.peek, hc', hnext]
  · rw [hc] at ht
    obtain ⟨rfl, -⟩ := List.cons.inj ht
    exact absurd J.mark_kind hkind

theorem tail (h : c.Before J c') (hend : c.atEnd = false) : J.Rows c.rest.tail c'.rest.tail := by
  rcases h.cases with ⟨hc, -⟩ | ⟨t, ts, ts', hc, hc', -, hrows⟩
  · rw [J.mark_atEnd hc] at hend
    cases hend
  · rwa [hc, hc']

end Cursor.Before

namespace Seam.Rows

variable {ts ts' : List Token}

theorem checkNext (h : c.Before J c') (hend : c.atEnd = false) {kind : Token.Kind}
    (hkind : kind ∈ [.name, .leftBracket]) : c'.checkNext kind = c.checkNext kind := by
  have hmark : J.mark.kind ≠ kind := by
    rw [J.mark_kind]
    rintro rfl
    exact absurd hkind (by decide)
  have hnext : J.next.kind ≠ kind := by
    rintro rfl
    exact J.next_kind (by revert hkind; generalize J.next.kind = kind; cases kind <;> decide)
  have htail := h.tail hend
  unfold Cursor.checkNext
  generalize c.rest.tail = ts, c'.rest.tail = ts' at htail
  cases htail with
  | here => simp [hmark, hnext]
  | cons => rfl

/-- Line feeds are dropped alike, unless nothing but line feeds comes before the seam. -/
theorem dropWhile (h : J.Rows ts ts') : J.Fed ts ∨ J.Rows
    (ts.dropWhile (·.kind == .newline)) (ts'.dropWhile (·.kind == .newline)) := by
  induction h with
  | here => exact .inl J.fed_mark
  | @cons t ts ts' ht h ih =>
    rw [List.dropWhile_cons, List.dropWhile_cons]
    split
    · next hfeed => exact ih.imp_left (.cons (by simpa using hfeed))
    · exact .inr (.cons ht h)

theorem startsEntry_eq (h : J.Rows ts ts') : J.Fed ts ∨ startsEntry ts' = startsEntry ts := by
  refine h.dropWhile.imp_right fun hdrop => ?_
  have hname : (J.next.kind == .name) = false :=
    beq_eq_false_iff_ne.2 fun h => J.next_kind (by rw [h]; decide)
  have hcolon : (J.next.kind == .colon) = false :=
    beq_eq_false_iff_ne.2 fun h => J.next_kind (by rw [h]; decide)
  have hmark : (J.mark.kind == .colon) = false := by rw [J.mark_kind]; rfl
  unfold startsEntry
  generalize ts.dropWhile _ = us, ts'.dropWhile _ = us' at hdrop
  cases hdrop with
  | here =>
    cases J.more with
    | nil => rfl
    | cons t more => simp only [hname, Bool.false_and]
  | cons _ h =>
    cases h with
    | here => simp only [hcolon, hmark, Bool.and_false]
    | cons => rfl

theorem closesAtOnce_eq (h : J.Rows ts ts') : J.Fed ts ∨ closesAtOnce ts' = closesAtOnce ts := by
  induction h with
  | here => exact .inl J.fed_mark
  | @cons t ts ts' ht h ih =>
    unfold closesAtOnce at ih ⊢
    by_cases hfeed : t.kind = .newline
    · rw [List.dropWhile_cons_of_pos (by simp [hfeed]), List.dropWhile_cons_of_pos (by simp [hfeed])]
      exact ih.imp_left (.cons hfeed)
    · rw [List.dropWhile_cons_of_neg (by simp [hfeed]), List.dropWhile_cons_of_neg (by simp [hfeed])]
      exact .inr rfl

/-- The same token comes first, unless nothing comes before the seam. -/
theorem checkNext_brace (h : c.Before J c') (hend : c.atEnd = false) :
    J.Fed c.rest.tail ∨ c'.checkNext .rightBrace = c.checkNext .rightBrace := by
  have htail := h.tail hend
  unfold Cursor.checkNext
  generalize c.rest.tail = ts, c'.rest.tail = ts' at htail
  cases htail with
  | here => exact .inl J.fed_mark
  | cons => exact .inr rfl

/-- A search that has found its assignment before the seam finds it again. -/
theorem assignsAfterBracket_of (h : J.Rows ts ts') {depth : Nat}
    (hfound : assignsAfterBracket depth ts = true) : assignsAfterBracket depth ts' = true := by
  induction h generalizing depth with
  | here => simp [assignsAfterBracket, J.mark_kind] at hfound
  | cons _ h ih =>
    simp only [assignsAfterBracket] at hfound ⊢
    split at hfound
    · exact ih hfound
    · split at hfound
      · next hdepth =>
        rw [if_pos hdepth]
        cases h with
        | here => simp [J.mark_kind] at hfound
        | cons => exact hfound
      · next hdepth =>
        rw [if_neg hdepth]
        exact ih hfound
    · cases hfound
    · cases hfound
    · cases hfound
    · exact ih hfound

end Seam.Rows

theorem Seam.Fed.startsEntry {ts : List Token} (h : J.Fed ts) : startsEntry ts = false := by
  unfold Grammar.startsEntry
  rw [h.dropWhile]

theorem Seam.Fed.closesAtOnce {ts : List Token} (h : J.Fed ts) : closesAtOnce ts = false := by
  unfold Grammar.closesAtOnce
  rw [h.dropWhile]
  simp [J.mark_kind]

theorem Seam.Fed.checkNext (h : J.Fed c.rest.tail) : c.checkNext .rightBrace = false := by
  obtain ⟨feeds, hfeeds, htail⟩ := h
  unfold Cursor.checkNext
  rw [htail]
  cases feeds with
  | nil => simp [J.mark_kind]
  | cons t feeds => simp [hfeeds t List.mem_cons_self]

/-- What is an object before the seam is one again. -/
theorem Cursor.Before.atObject (h : c.Before J c') (hend : c.atEnd = false)
    (hobject : c.atObject = true) : c'.atObject = true := by
  unfold Cursor.atObject at hobject ⊢
  obtain hfed | hentry := (h.tail hend).startsEntry_eq
  · rw [hfed.startsEntry, hfed.closesAtOnce] at hobject
    cases hobject
  obtain hfed | hcloses := (h.tail hend).closesAtOnce_eq
  · rw [hfed.startsEntry, hfed.closesAtOnce] at hobject
    cases hobject
  rwa [hentry, hcloses]

end

/-! ### Small productions -/

section

variable {β : Type}

theorem accept_bind (kind : Token.Kind) (y : Bool → Parse β) (c : Cursor) :
    (accept kind >>= y) c =
      if c.check kind then (advance >>= fun _ => y true) c else y false c := by
  change ((if c.check kind then _ else _ : Parse Bool) >>= y) c = _
  split
  · change ((advance >>= fun _ => pure true) >>= y) c = _
    rw [bind_assoc]
    rfl
  · rfl

theorem acceptAny_bind (kinds : List Token.Kind) (y : Option Token → Parse β) (c : Cursor) :
    (acceptAny kinds >>= y) c =
      if kinds.any c.check then (advance >>= fun t => y (some t)) c else y none c := by
  change ((if kinds.any c.check then _ else _ : Parse (Option Token)) >>= y) c = _
  split
  · change ((advance >>= fun t => pure (some t)) >>= y) c = _
    rw [bind_assoc]
    rfl
  · rfl

theorem accept_eq_acceptAny (kind : Token.Kind) (y : Bool → Parse β) :
    (accept kind >>= y) = (acceptAny [kind] >>= fun t => y t.isSome) := by
  funext c
  rw [accept_bind, acceptAny_bind, List.any_cons, List.any_nil, Bool.or_false]
  rfl

theorem expect_bind (kind : Token.Kind) (what : Expectation) (y : Token → Parse β) (c : Cursor) :
    (expect kind what >>= y) c =
      if c.check kind then (advance >>= y) c else (failExpecting what : Parse β) c := by
  change ((if c.check kind then _ else _ : Parse Token) >>= y) c = _
  split <;> rfl

end

/-- A token of the kind leads from so many open brackets to so many. -/
def Leads (n m : Nat) (kind : Token.Kind) : Prop := ∀ t : Token, t.kind = kind → Brackets n [t] m

theorem leads_opening (n : Nat) : Leads n (n + 1) .leftBracket := fun _ ht => .opening ht .nil

theorem leads_closing (n : Nat) : Leads (n + 1) n .rightBracket := fun _ ht => .closing ht .nil

theorem leads_other {n : Nat} {kind : Token.Kind}
    (h : kind ∉ [.leftBracket, .rightBracket, .endMark]) : Leads n n kind :=
  fun _ ht => .other (ht ▸ h) .nil

theorem Leads.view {n m : Nat} {c : Cursor} {kind : Token.Kind} (h : Leads n m kind)
    (hview : c.check kind = true) : Leads n m c.peek.kind := by rwa [Cursor.kind_of_check hview]

/-- No tree is made at the seam. -/
def Seam.Stops (J : Seam) {α : Type} (x : Parse α) : Prop :=
  ∀ c, J.Spent c → ∃ e, x c = .error e

section

variable {J : Seam} {K K' : Prop} {n m k : Nat} {c d c' : Cursor}
variable {α β : Type} {x x' : Parse α} {y y' : α → Parse β}

namespace Seam.Stops

theorem bind (h : J.Stops x) : J.Stops (x >>= y) := fun c hc => Reads.bind_error (h c hc)

theorem failExpecting (what : Expectation) : J.Stops (Grammar.failExpecting what : Parse α) :=
  fun _ _ => ⟨_, rfl⟩

theorem expect {kind : Token.Kind} (hkind : kind ∉ [.leftBracket, .newline]) (what : Expectation) :
    J.Stops (Grammar.expect kind what) := by
  intro c hc
  change ∃ e, (if c.check kind then _ else _ : Parse Token) c = _
  rw [hc.check hkind]
  exact failExpecting what c hc

theorem skipNewlines {y : Unit → Parse β} (h : J.Stops (y ())) :
    J.Stops (Grammar.skipNewlines >>= y) := by
  rintro ⟨last, rest, nextId⟩ hc
  obtain ⟨last', rest', hskip, hrest⟩ : ∃ last' rest', Grammar.dropNewlines last rest =
      .ok (last', rest') ∧ J.Spent ⟨last', rest', nextId⟩ := by
    rcases hc with ⟨feeds, hfeeds, hrest⟩ | ⟨t, ht, hrest⟩ <;> obtain rfl := hrest
    · obtain ⟨last', hdrop, -⟩ := Reads.dropNewlines_of_dropWhile (l := last)
        (Seam.Fed.dropWhile ⟨feeds, hfeeds, rfl⟩)
      exact ⟨last', _, hdrop, J.spent_mark rfl⟩
    · rw [Grammar.dropNewlines, if_neg (by simp [ht])]
      exact ⟨last, _, rfl, .inr ⟨t, ht, rfl⟩⟩
  have hskips : Grammar.skipNewlines ⟨last, rest, nextId⟩ = .ok ((), ⟨last', rest', nextId⟩) := by
    rw [Reads.skipNewlines_eq]
    dsimp only
    rw [hskip]
    rfl
  rw [Reads.bind_ok hskips]
  exact h _ hrest

theorem accept {kind : Token.Kind} (hkind : kind ∉ [.leftBracket, .newline]) {y : Bool → Parse β}
    (h : J.Stops (y false)) : J.Stops (Grammar.accept kind >>= y) := by
  intro c hc
  have haccept : Grammar.accept kind c = .ok (false, c) := by
    change (if c.check kind then _ else _ : Parse Bool) c = _
    rw [hc.check hkind]
    rfl
  rw [Reads.bind_ok haccept]
  exact h c hc

theorem ifCheck (kind : Token.Kind) {z w : Parse β} (hz : J.Stops z) (hw : J.Stops w) :
    J.Stops (do if (← MonadState.get).check kind then z else w) := by
  intro c hc
  change ∃ e, (if c.check kind then z else w) c = .error e
  split
  · exact hz c hc
  · exact hw c hc

end Seam.Stops

theorem Seam.Carried.error {e : Failure} {r' : Except Failure (α × Cursor)} :
    J.Carried K n m c (.error e) r' := fun _ _ h => by cases h

/-- At the seam it is enough to know what is taken. -/
theorem Seam.Carried.spent {r r' r'' : Except Failure (α × Cursor)} (hc : J.Spent c)
    (h : J.Carried K n m c r r'') (hK : K) : J.Carried K n m c r r' :=
  fun a d hr => ⟨(h a d hr).1, .inl ⟨hc.taken (h a d hr).1, hK⟩⟩

namespace Carries

theorem pure (a : α) : Carries J K n n (Pure.pure a) (Pure.pure a) := by
  intro c c' h b d hr
  obtain ⟨rfl, rfl⟩ := Prod.mk.inj (Except.ok.inj hr)
  exact ⟨.refl, .inr ⟨c', rfl, h⟩⟩

theorem mono (hx : Carries J K n m x x') (hK : K → K') : Carries J K' n m x x' :=
  fun c c' h a d hr => ⟨(hx c c' h a d hr).1, (hx c c' h a d hr).2.imp (And.imp_right hK) id⟩

theorem bind (hx : Carries J K n k x x') (hy : ∀ a, Carries J K k m (y a) (y' a)) :
    Carries J K n m (x >>= y) (x' >>= y') := by
  intro c c' h b e hr
  obtain ⟨a, d, hxd, hye⟩ := bind_eq_ok hr
  obtain ⟨htaken, hspent | ⟨d', hxd', hbefore⟩⟩ := hx c c' h a d hxd
  · obtain ⟨d', hbefore⟩ := hspent.1.before
    have hmore := (hy a d d' hbefore b e hye).1
    exact ⟨htaken.trans hmore, .inl ⟨hspent.1.taken hmore, hspent.2⟩⟩
  · obtain ⟨hmore, hrest⟩ := hy a d d' hbefore b e hye
    rw [Reads.bind_ok hxd']
    exact ⟨htaken.trans hmore, hrest⟩

/-- What comes last decides, if it makes no tree at the seam. -/
theorem shut (hx : Carries J True n k x x') (hstops : ∀ a, J.Stops (y a))
    (hy : ∀ a, Carries J K k m (y a) (y' a)) : Carries J K n m (x >>= y) (x' >>= y') := by
  intro c c' h b e hr
  obtain ⟨a, d, hxd, hye⟩ := bind_eq_ok hr
  obtain ⟨htaken, hspent | ⟨d', hxd', hbefore⟩⟩ := hx c c' h a d hxd
  · obtain ⟨_, herror⟩ := hstops a d hspent.1
    rw [herror] at hye
    cases hye
  · obtain ⟨hmore, hrest⟩ := hy a d d' hbefore b e hye
    rw [Reads.bind_ok hxd']
    exact ⟨htaken.trans hmore, hrest⟩

/-- What is read first takes nothing at the seam that would help what comes last. -/
theorem stops (hx : Carries J K n k x x') (hstops : ∀ a, J.Stops (y a)) : J.Stops (x >>= y) := by
  intro c hc
  obtain ⟨c', hbefore⟩ := hc.before
  cases hr : x c with
  | error e => exact Reads.bind_error ⟨e, hr⟩
  | ok p =>
    rw [Reads.bind_ok hr]
    exact hstops _ _ (hc.taken (hx c c' hbefore _ _ hr).1)

/-- A production with something made of its tree. -/
theorem map (hx : Carries J K n m x x') (f : α → β) :
    Carries J K n m (do let a ← x; return f a) (do let a ← x'; return f a) :=
  hx.bind fun _ => .pure _

theorem throw (hx : ∃ e, x = MonadExcept.throw e) : Carries J K n m x x' := by
  obtain ⟨e, rfl⟩ := hx
  exact fun _ _ _ => .error

theorem failAt (token : Token) (fault : Fault) :
    Carries J K n m (Grammar.failAt token fault) x' := fun _ _ _ => .error

theorem failExpecting (what : Expectation) :
    Carries J K n m (Grammar.failExpecting what) x' := fun _ _ _ => .error

/-- Looking at the cursor. -/
theorem get {y y' : Cursor → Parse β}
    (h : ∀ c c', c.Before J c' → J.Carried K n m c (y c c) (y' c' c')) :
    Carries J K n m (MonadState.get >>= y) (MonadState.get >>= y') := h

theorem freshId : Carries J K n n Grammar.freshId Grammar.freshId := by
  rintro ⟨last, rest, nextId⟩ ⟨last', rest', nextId'⟩ ⟨hrows, hlast, rfl⟩ a d hr
  obtain ⟨rfl, rfl⟩ := Prod.mk.inj (Except.ok.inj hr)
  exact ⟨⟨[], .nil, rfl⟩, .inr ⟨_, rfl, hrows, hlast, rfl⟩⟩

/-- Taking the token in view, from given cursors. -/
theorem advance_to (h : c.Before J c') (hend : c.atEnd = false)
    (hkind : Leads n k c.peek.kind) {y y' : Token → Parse β}
    (hy : ∀ t d d', d.Before J d' → d.rest = c.rest.tail → J.Carried K k m d (y t d) (y' t d')) :
    J.Carried K n m c ((Grammar.advance >>= y) c) ((Grammar.advance >>= y') c') := by
  obtain ⟨last, rest, nextId⟩ := c
  obtain ⟨last', rest', nextId'⟩ := c'
  obtain ⟨hrows, rfl, rfl⟩ := h
  dsimp only at hrows
  cases hrows with
  | here => simp [Cursor.atEnd, Cursor.peek, J.mark_kind] at hend
  | @cons t ts ts' ht hrows =>
    rw [Reads.bind_ok (Reads.advance_cons ht), Reads.bind_ok (Reads.advance_cons ht)]
    intro b d hr
    obtain ⟨htaken, hrest⟩ :=
      hy t ⟨t, ts, nextId'⟩ ⟨t, ts', nextId'⟩ ⟨hrows, rfl, rfl⟩ rfl b d hr
    exact ⟨Taken.trans ⟨[t], hkind t rfl, rfl⟩ htaken, hrest⟩

theorem advance_from (h : c.Before J c') (hend : c.atEnd = false)
    (hkind : Leads n k c.peek.kind) {y y' : Token → Parse β}
    (hy : ∀ t, Carries J K k m (y t) (y' t)) :
    J.Carried K n m c ((Grammar.advance >>= y) c) ((Grammar.advance >>= y') c') :=
  advance_to h hend hkind fun t d d' hd _ => hy t d d' hd

/-- Taking two tokens, from given cursors. -/
theorem advanceTwice_from {l : Nat} (h : c.Before J c') (hend : c.atEnd = false)
    (hkind : Leads n k c.peek.kind) {kind : Token.Kind} (hnext : c.checkNext kind = true)
    (hkind' : Leads k l kind) {y y' : Parse β} (hy : Carries J K l m y y') :
    J.Carried K n m c ((Grammar.advance >>= fun _ => Grammar.advance >>= fun _ => y) c)
      ((Grammar.advance >>= fun _ => Grammar.advance >>= fun _ => y') c') := by
  refine advance_to h hend hkind fun _ d d' hd hrest => ?_
  have hpeek : d.peek.kind = kind := by
    unfold Cursor.checkNext at hnext
    rw [← hrest] at hnext
    rw [Cursor.peek]
    cases hhead : d.rest.head? with
    | none => simp [hhead] at hnext
    | some t => simpa [hhead] using hnext
  have hne := (hkind' d.peek hpeek).ne_endMark _ List.mem_cons_self
  exact advance_from hd (by simpa [Cursor.atEnd] using hne) (hpeek ▸ hkind') fun _ => hy

theorem expect {kind : Token.Kind} (hkind : Leads n k kind) (what : Expectation)
    {y y' : Token → Parse β} (hy : ∀ t, Carries J K k m (y t) (y' t)) :
    Carries J K n m (Grammar.expect kind what >>= y) (Grammar.expect kind what >>= y') := by
  intro c c' h
  rw [expect_bind, expect_bind]
  split
  · next hcheck =>
    have hend := Reads.atEnd_of_check hcheck
    rw [h.check hend, if_pos hcheck]
    exact advance_from h hend (hkind.view hcheck) hy
  · exact .error

/-- Taking a token of some kinds, or going on without: the next token may be of these kinds if that
is said, or if nothing can be read without one. -/
theorem acceptAny_or {kinds : List Token.Kind} (hkinds : ∀ kind ∈ kinds, Leads n k kind)
    {y y' : Option Token → Parse β}
    (hK : J.next.kind ∈ kinds → K ∨ ∀ c, c.rest = [J.mark] → ∃ e, y none c = .error e)
    (hyes : ∀ t, Carries J K k m (y (some t)) (y' (some t)))
    (hno : Carries J K n m (y none) (y' none)) :
    Carries J K n m (Grammar.acceptAny kinds >>= y) (Grammar.acceptAny kinds >>= y') := by
  intro c c' h
  rw [acceptAny_bind, acceptAny_bind]
  cases hend : c.atEnd with
  | false =>
    rw [funext (h.check hend)]
    split
    · next hcheck =>
      obtain ⟨kind, hmem, hcheck⟩ := List.any_eq_true.1 hcheck
      exact advance_from h hend ((hkinds kind hmem).view hcheck) hyes
    · exact hno _ _ h
  | true =>
    have hnone : ¬kinds.any c.check = true := by
      intro hcheck
      rw [Reads.atEnd_of_anyCheck hcheck] at hend
      cases hend
    rw [if_neg hnone]
    split
    · -- the token behind the seam goes on with what has been read
      next hcheck =>
      obtain ⟨kind, hmem, hcheck⟩ := List.any_eq_true.1 hcheck
      rcases h.cases with ⟨hc, -⟩ | ⟨t, ts, ts', hc, -, ht, -⟩
      · obtain rfl := (h.check_here hc kind).1 hcheck
        rcases hK hmem with hK | hstops
        · exact .spent (J.spent_mark hc) (hno _ _ h) hK
        · obtain ⟨e, herror⟩ := hstops c hc
          rw [herror]
          exact .error
      · simp [Cursor.atEnd, Cursor.peek, hc, ht] at hend
    · exact hno _ _ h

theorem acceptAny {kinds : List Token.Kind} (hkinds : ∀ kind ∈ kinds, Leads n k kind)
    (hK : J.next.kind ∈ kinds → K) {y y' : Option Token → Parse β}
    (hyes : ∀ t, Carries J K k m (y (some t)) (y' (some t)))
    (hno : Carries J K n m (y none) (y' none)) :
    Carries J K n m (Grammar.acceptAny kinds >>= y) (Grammar.acceptAny kinds >>= y') :=
  acceptAny_or hkinds (fun hnext => .inl (hK hnext)) hyes hno

theorem accept {kind : Token.Kind} (hkind : Leads n k kind) (hK : J.next.kind = kind → K)
    {y y' : Bool → Parse β} (hyes : Carries J K k m (y true) (y' true))
    (hno : Carries J K n m (y false) (y' false)) :
    Carries J K n m (Grammar.accept kind >>= y) (Grammar.accept kind >>= y') := by
  rw [accept_eq_acceptAny, accept_eq_acceptAny]
  exact acceptAny (by simpa using hkind) (by simpa using hK) (fun _ => hyes) hno

/-- Line feeds are taken alike, unless nothing but line feeds comes before the seam. -/
theorem skipNewlines_from (h : c.Before J c') {u : Unit} (hr : Grammar.skipNewlines c = .ok (u, d)) :
    Taken n n c d ∧ (J.Fed c.rest ∧ d.rest = [J.mark] ∨
      ∃ d', Grammar.skipNewlines c' = .ok ((), d') ∧ d.Before J d' ∧ d.atEnd = false) := by
  have hdrop : ∀ {ts ts' : List Token}, J.Rows ts ts' → ∀ last, ∃ us last₁ ts₁,
      Grammar.dropNewlines last ts = .ok (last₁, ts₁) ∧ Brackets n us n ∧ ts = us ++ ts₁ ∧
      (J.Fed ts ∧ ts₁ = [J.mark] ∨
        ∃ t us us', ts₁ = t :: us ∧ t.kind ≠ .endMark ∧ J.Rows us us' ∧
          Grammar.dropNewlines last ts' = .ok (last₁, t :: us')) := by
    intro ts ts' h
    induction h with
    | here =>
      intro last
      rw [Grammar.dropNewlines, if_neg (by simp [J.mark_kind])]
      exact ⟨[], _, _, rfl, .nil, rfl, .inl ⟨J.fed_mark, rfl⟩⟩
    | @cons t ts ts' ht h ih =>
      intro last
      rw [Grammar.dropNewlines, Grammar.dropNewlines]
      split
      · next hfeed =>
        obtain ⟨us, last₁, ts₁, heq, hus, hts, hrows⟩ := ih t
        exact ⟨t :: us, last₁, ts₁, heq, .other (by simp [hfeed]) hus, by rw [hts]; rfl,
          hrows.imp_left (And.imp_left (.cons hfeed))⟩
      · exact ⟨[], _, _, rfl, .nil, rfl, .inr ⟨t, ts, ts', rfl, ht, h, rfl⟩⟩
  obtain ⟨last, rest, nextId⟩ := c
  obtain ⟨last', rest', nextId'⟩ := c'
  obtain ⟨hrows, rfl, rfl⟩ := h
  obtain ⟨us, last₁, ts₁, heq, hus, hts, hrows₁⟩ := hdrop hrows last'
  rw [Reads.skipNewlines_eq] at hr ⊢
  dsimp only at heq hr hts hrows₁ ⊢
  rw [heq] at hr
  obtain ⟨-, rfl⟩ := Prod.mk.inj (Except.ok.inj hr)
  refine ⟨⟨us, hus, hts⟩, hrows₁.imp_right ?_⟩
  rintro ⟨t, us, us', rfl, ht, hrows₁, heq'⟩
  rw [heq']
  exact ⟨_, rfl, ⟨.cons ht hrows₁, rfl, rfl⟩, by simpa [Cursor.atEnd, Cursor.peek] using ht⟩

theorem skipNewlines : Carries J True n n Grammar.skipNewlines Grammar.skipNewlines := by
  intro c c' h u d hr
  obtain ⟨htaken, hrest⟩ := skipNewlines_from h hr
  exact ⟨htaken, hrest.imp (fun hfed => ⟨J.spent_mark hfed.2, trivial⟩)
    fun ⟨d', hr', hd, _⟩ => ⟨d', hr', hd⟩⟩

/-- Looking at a cursor with a token in view, where nothing need be said at the seam. -/
theorem look {y z : Cursor → Parse β}
    (hend : ∀ c c', c.Before J c' → c.rest = [J.mark] → ∃ r, J.Carried True n m c (y c c) r)
    (h : ∀ c c', c.Before J c' → c.atEnd = false → J.Carried True n m c (y c c) (z c' c')) :
    Carries J True n m (MonadState.get >>= y) (MonadState.get >>= z) := by
  intro c c' hc
  rcases hc.cases with ⟨hmark, -⟩ | ⟨t, ts, ts', hrest, -, ht, -⟩
  · obtain ⟨r, hr⟩ := hend c c' hc hmark
    exact .spent (J.spent_mark hmark) hr trivial
  · exact h c c' hc (by simpa [Cursor.atEnd, Cursor.peek, hrest] using ht)

/-- Looking at the token in view, where nothing need be said at the seam. -/
theorem peek {y y' : Token → Parse β} (h : ∀ t, Carries J True n m (y t) (y' t)) :
    Carries J True n m (Grammar.peek >>= y) (Grammar.peek >>= y') :=
  look (y := fun c => y c.peek) (z := fun c => y' c.peek)
    (fun c c' hc _ => ⟨_, h c.peek c c' hc⟩)
    fun c c' hc hend => by rw [hc.peek hend]; exact h c.peek c c' hc

/-- Deciding by the kind of token in view, where nothing need be said at the seam. -/
theorem ifCheck (kind : Token.Kind) {z z' w w' : Parse β} (hz : Carries J True n m z z')
    (hw : Carries J True n m w w') :
    Carries J True n m (do if (← MonadState.get).check kind then z else w)
      (do if (← MonadState.get).check kind then z' else w') := by
  refine look (fun c c' hc _ => ?_) fun c c' hc hend => ?_
  · split
    · exact ⟨_, hz c c' hc⟩
    · exact ⟨_, hw c c' hc⟩
  · rw [hc.check hend]
    split
    · exact hz c c' hc
    · exact hw c c' hc

/-- Deciding by the kind of token in view, between two ways that make no tree at the seam. -/
theorem ifCheck_shut (kind : Token.Kind) {z z' w w' : Parse β} (hzs : J.Stops z) (hws : J.Stops w)
    (hz : Carries J K n m z z') (hw : Carries J K n m w w') :
    Carries J K n m (do if (← MonadState.get).check kind then z else w)
      (do if (← MonadState.get).check kind then z' else w') := by
  intro c c' hc
  change J.Carried K n m c ((if c.check kind then z else w) c)
    ((if c'.check kind then z' else w') c')
  rcases hc.cases with ⟨hmark, -⟩ | ⟨t, ts, ts', hrest, -, ht, -⟩
  · have herror : ∃ e, (if c.check kind then z else w) c = .error e := by
      split
      · exact hzs c (J.spent_mark hmark)
      · exact hws c (J.spent_mark hmark)
    obtain ⟨e, herror⟩ := herror
    rw [herror]
    exact .error
  · rw [hc.check (by simpa [Cursor.atEnd, Cursor.peek, hrest] using ht)]
    split
    · exact hz c c' hc
    · exact hw c c' hc

/-- A row that ends at a bracket or at the end mark. -/
theorem row (kind : Token.Kind) {z z' w w' : Parse β} (hz : Carries J True n m z z')
    (hw : Carries J True n m w w') :
    Carries J True n m (do let c ← MonadState.get; if c.check kind || c.atEnd then z else w)
      (do let c ← MonadState.get; if c.check kind || c.atEnd then z' else w') := by
  refine look (fun c c' hc _ => ?_) fun c c' hc hend => ?_
  · split
    · exact ⟨_, hz c c' hc⟩
    · exact ⟨_, hw c c' hc⟩
  · have hend' : c'.atEnd = false := by rwa [Cursor.atEnd, hc.peek hend]
    rw [hc.check hend, hend, hend']
    split
    · exact hz c c' hc
    · exact hw c c' hc

theorem statementEnd : Carries J True n n Grammar.statementEnd Grammar.statementEnd := by
  refine .acceptAny (fun kind hkind => leads_other ?_) (fun _ => trivial) (fun _ => .pure _)
    (look (fun c c' hc _ => ?_) fun c c' hc hend => ?_)
  · revert hkind
    cases kind <;> decide
  · split
    · exact ⟨_, Carries.pure (J := J) _ c c' hc⟩
    · exact ⟨.error .outOfFuel, .error⟩
  · have hend' : c'.atEnd = false := by rwa [Cursor.atEnd, hc.peek hend]
    rw [hc.check hend, hend, hend']
    split
    · exact Carries.pure _ c c' hc
    · exact .error

end Carries

end

/-! ### Annotations -/

/-- The two kinds of brackets, and the end mark. -/
theorem leads_plain {n : Nat} {kinds : List Token.Kind}
    (h : ∀ kind ∈ [Token.Kind.leftBracket, .rightBracket, .endMark], kind ∉ kinds) :
    ∀ kind ∈ kinds, Leads n n kind :=
  fun kind hkind => leads_other fun hbracket => h kind hbracket hkind

section

variable {J : Seam} {n fuel : Nat}

theorem arrayRest_carries (ty : Ty) :
    Carries J True n n (arrayRest fuel ty) (arrayRest fuel ty) := by
  induction fuel generalizing ty with
  | zero => exact .throw ⟨_, rfl⟩
  | succ fuel ih =>
    simp only [arrayRest]
    refine .look (fun c c' hc hmark => ?_) fun c c' hc hend => ?_
    · rw [show c.check .leftBracket = false by simp [Cursor.check, J.mark_atEnd hmark]]
      exact ⟨_, Carries.pure (J := J) ty c c' hc⟩
    · rw [hc.check hend]
      cases hcheck : c.check .leftBracket with
      | false => exact Carries.pure ty c c' hc
      | true =>
        have hopen : c.peek.kind = .leftBracket := Cursor.kind_of_check hcheck
        rcases hc.cases with ⟨hmark, -⟩ | ⟨t, ts, ts', hrest, hrest', ht, hrows⟩
        · rw [J.mark_atEnd hmark] at hend
          cases hend
        cases hrows with
        | here =>
          -- the next token might close the bracket before the seam
          have hnext : c.checkNext .rightBracket = false := by
            simp [Cursor.checkNext, hrest, J.mark_kind]
          have hkind : t.kind = .leftBracket := by rwa [Cursor.peek, hrest] at hopen
          rw [hnext]
          exact .spent (.inr ⟨t, hkind, hrest⟩) (Carries.pure ty c c' hc) trivial
        | cons _ hrows =>
          have hnext : c'.checkNext .rightBracket = c.checkNext .rightBracket := by
            rw [Cursor.checkNext, Cursor.checkNext, hrest, hrest']
            rfl
          rw [hnext, Bool.true_and]
          split
          · next hclose =>
            exact Carries.advanceTwice_from hc hend (hopen ▸ leads_opening n) hclose
              (leads_closing n) (ih _)
          · exact Carries.pure ty c c' hc

/-- The productions for annotations carry over the seam. -/
structure AnnotationsCarry (J : Seam) (fuel : Nat) : Prop where
  announced : ∀ n, Carries J True n n (annotated fuel) (annotated fuel)
  unionType : ∀ n, Carries J True n n (unionType fuel) (unionType fuel)
  unionRest : ∀ n, Carries J True n n (unionRest fuel) (unionRest fuel)
  intersectionType : ∀ n, Carries J True n n (intersectionType fuel) (intersectionType fuel)
  intersectionRest : ∀ n, Carries J True n n (intersectionRest fuel) (intersectionRest fuel)
  arrayType : ∀ n, Carries J True n n (arrayType fuel) (arrayType fuel)
  primaryType : ∀ n, Carries J True n n (primaryType fuel) (primaryType fuel)
  typeArguments : ∀ n, Carries J True n n (typeArguments fuel) (typeArguments fuel)
  tupleElements : ∀ n, Carries J True n n (tupleElements fuel) (tupleElements fuel)
  typeEntries : ∀ n, Carries J True n n (typeEntries fuel) (typeEntries fuel)
  parameters : ∀ n, Carries J False n n (parameters fuel) (parameters fuel)
  parameterRow : ∀ n count, Carries J True n n (parameterRow fuel count) (parameterRow fuel count)

theorem primaryType_carries (h : AnnotationsCarry J fuel) :
    Carries J True n n (primaryType (fuel + 1)) (primaryType (fuel + 1)) := by
  simp only [primaryType]
  refine .acceptAny (leads_plain (by decide)) (fun _ => trivial) (fun _ => .pure _) ?_
  refine .acceptAny (leads_plain (by decide)) (fun _ => trivial) (fun _ => ?_) ?_
  · refine .accept (leads_other (by decide)) (fun _ => trivial) ?_ (.pure _)
    exact (h.typeArguments n).bind fun _ => .expect (leads_other (by decide)) _ fun _ => .pure _
  refine .accept (leads_other (by decide)) (fun _ => trivial) ?_ ?_
  · refine ((h.parameters n).mono False.elim).bind fun _ => ?_
    exact .expect (leads_other (by decide)) _ fun _ => (h.unionType n).map _
  refine .accept (leads_opening n) (fun _ => trivial) ?_ ?_
  · exact (h.tupleElements _).bind fun _ => .expect (leads_closing n) _ fun _ => .pure _
  refine .accept (leads_other (by decide)) (fun _ => trivial) (.pure _) ?_
  refine .accept (leads_other (by decide)) (fun _ => trivial) ?_ (.failExpecting _)
  refine Carries.skipNewlines.bind fun _ => (h.typeEntries n).bind fun _ => ?_
  exact .expect (leads_other (by decide)) _ fun _ => .pure _

theorem annotationsCarry_succ (h : AnnotationsCarry J fuel) : AnnotationsCarry J (fuel + 1) where
  announced n := by
    simp only [annotated]
    exact .accept (leads_other (by decide)) (fun _ => trivial) ((h.unionType n).map _) (.pure _)
  unionType n := by
    simp only [Grammar.unionType]
    exact (h.intersectionType n).bind fun _ => (h.unionRest n).map _
  unionRest n := by
    simp only [Grammar.unionRest]
    refine .accept (leads_other (by decide)) (fun _ => trivial) ?_ (.pure _)
    exact (h.intersectionType n).bind fun _ => (h.unionRest n).map _
  intersectionType n := by
    simp only [Grammar.intersectionType]
    exact (h.arrayType n).bind fun _ => (h.intersectionRest n).map _
  intersectionRest n := by
    simp only [Grammar.intersectionRest]
    refine .accept (leads_other (by decide)) (fun _ => trivial) ?_ (.pure _)
    exact (h.arrayType n).bind fun _ => (h.intersectionRest n).map _
  arrayType n := by
    simp only [Grammar.arrayType]
    exact (h.primaryType n).bind fun _ => arrayRest_carries _
  primaryType _ := primaryType_carries h
  typeArguments n := by
    simp only [Grammar.typeArguments]
    refine (h.unionType n).bind fun _ => ?_
    exact .accept (leads_other (by decide)) (fun _ => trivial) ((h.typeArguments n).map _) (.pure _)
  tupleElements n := by
    simp only [Grammar.tupleElements]
    refine .row _ (.pure _) ((h.unionType n).bind fun _ => ?_)
    exact .accept (leads_other (by decide)) (fun _ => trivial) ((h.tupleElements n).map _) (.pure _)
  typeEntries n := by
    simp only [Grammar.typeEntries]
    refine .row _ (.pure _) (.expect (leads_other (by decide)) _ fun _ => ?_)
    refine .expect (leads_other (by decide)) _ fun _ => (h.unionType n).bind fun _ => ?_
    refine .acceptAny (leads_plain (by decide)) (fun _ => trivial) (fun _ => ?_) ?_
    · exact Carries.skipNewlines.bind fun _ => (h.typeEntries n).map _
    · exact Carries.skipNewlines.bind fun _ => (h.typeEntries n).map _
  parameters n := by
    simp only [Grammar.parameters]
    have hclose : ∀ params : List Parameter, J.Stops (do
        let _ ← expect .rightParen .parametersClose
        return params) := fun _ => (Seam.Stops.expect (by decide) _).bind
    have hparen : ∀ params : List Parameter, Carries J False n n (do
        let _ ← expect .rightParen .parametersClose
        return params) (do
        let _ ← expect .rightParen .parametersClose
        return params) := fun _ => .expect (leads_other (by decide)) _ fun _ => .pure _
    have hnone := (Carries.pure (J := J) (K := True) (n := n) ([] : List Parameter)).stops hclose
    have hsome := (h.parameterRow n 0).stops hclose
    refine Carries.skipNewlines.shut (fun _ => .ifCheck _ hnone hsome) fun _ =>
      .ifCheck_shut _ hnone hsome ?_ ?_
    · exact (Carries.pure _).bind hparen
    · exact (h.parameterRow n 0).shut hclose hparen
  parameterRow n count := by
    simp only [Grammar.parameterRow]
    refine Carries.skipNewlines.bind fun _ => ?_
    split
    · exact .peek fun _ => .failAt _ _
    · refine .expect (leads_other (by decide)) _ fun _ => (h.announced n).bind fun _ => ?_
      refine .get fun c c' hc => ?_
      rw [hc.last]
      refine (Carries.skipNewlines.bind fun _ => ?_) c c' hc
      refine .accept (leads_other (by decide)) (fun _ => trivial) ?_ (.pure _)
      exact (h.parameterRow n (count + 1)).map _

theorem annotationsCarry (fuel : Nat) : AnnotationsCarry J fuel := by
  induction fuel with
  | zero => constructor <;> intros <;> exact .throw ⟨_, rfl⟩
  | succ fuel ih => exact annotationsCarry_succ ih

end

/-! ### Expressions and statements -/

/-- The kinds of tokens that continue an operand. -/
def postfixFollowers : List Token.Kind := [.leftParen, .dot]

/-- The kinds of tokens that continue a row of operands at the given levels. -/
def operandFollowers (levels : List (List Token.Kind)) : List Token.Kind :=
  postfixFollowers ++ levels.flatten

/-- The kinds of tokens that make an assignment of what they follow. -/
def assigners : List Token.Kind :=
  [.assign, .plusAssign, .minusAssign, .timesAssign, .divideAssign, .increment, .decrement]

/-- The kinds of tokens that continue an expression. -/
def expressionFollowers : List Token.Kind := operandFollowers binaryLevels ++ assigners

section

variable {J : Seam} {K : Prop} {n fuel : Nat} {c c' : Cursor}

/-- The productions for expressions and statements carry over the seam. -/
structure ProductionsCarry (J : Seam) (fuel : Nat) : Prop where
  expression : ∀ n, Carries J (J.next.kind ∈ expressionFollowers) n n
    (expression fuel) (expression fuel)
  binary : ∀ n levels, (∀ kind ∈ levels.flatten, Leads n n kind) →
    Carries J (J.next.kind ∈ operandFollowers levels) n n (binary fuel levels) (binary fuel levels)
  binaryRest : ∀ n operators tighter left,
    (∀ kind ∈ (operators :: tighter).flatten, Leads n n kind) →
    Carries J (J.next.kind ∈ operandFollowers (operators :: tighter)) n n
      (binaryRest fuel operators tighter left) (binaryRest fuel operators tighter left)
  unary : ∀ n, Carries J (J.next.kind ∈ postfixFollowers) n n (unary fuel) (unary fuel)
  postfixRest : ∀ n head, Carries J (J.next.kind ∈ postfixFollowers) n n
    (postfixRest fuel head) (postfixRest fuel head)
  argumentRow : ∀ n count, Carries J True n n (argumentRow fuel count) (argumentRow fuel count)
  primary : ∀ n, Carries J False n n (primary fuel) (primary fuel)
  elementRow : ∀ n, Carries J True n n (elementRow fuel) (elementRow fuel)
  entryRow : ∀ n entries, Carries J True n n (entryRow fuel entries) (entryRow fuel entries)
  functionRest : ∀ n name, Carries J False n n (functionRest fuel name) (functionRest fuel name)
  block : ∀ n, Carries J False n n (block fuel) (block fuel)
  blockRow : ∀ n, Carries J True n n (blockRow fuel) (blockRow fuel)
  statement : ∀ n, Carries J True n n (statement fuel) (statement fuel)
  expressionStatement : ∀ n, Carries J True n n (expressionStatement fuel) (expressionStatement fuel)
  overlooked : ∀ {c c'}, c.Before J c' → c.atIndexAssignment = false →
    c'.atIndexAssignment = true → ∀ s d, Grammar.expressionStatement fuel c = .ok (s, d) → J.Spent d
  classDeclaration : ∀ n, Carries J True n n (classDeclaration fuel) (classDeclaration fuel)
  memberRow : ∀ n, Carries J True n n (memberRow fuel) (memberRow fuel)
  ifStatement : ∀ n keyword, Carries J True n n (ifStatement fuel keyword) (ifStatement fuel keyword)
  whileStatement : ∀ n keyword,
    Carries J True n n (whileStatement fuel keyword) (whileStatement fuel keyword)
  forStatement : ∀ n keyword,
    Carries J True n n (forStatement fuel keyword) (forStatement fuel keyword)
  forInit : ∀ n, Carries J True n n (forInit fuel) (forInit fuel)
  variableDeclaration : ∀ n keyword,
    Carries J True n n (variableDeclaration fuel keyword) (variableDeclaration fuel keyword)
  returnStatement : ∀ n keyword,
    Carries J True n n (returnStatement fuel keyword) (returnStatement fuel keyword)
  indexAssignment : ∀ n {c c'}, c.Before J c' → c.check .name = true →
    J.Carried True n n c (indexAssignment fuel c) (indexAssignment fuel c')

theorem assignment_carries (target : Expr) (equals : Token) (value : Expr) :
    Carries J K n n (assignment target equals value) (assignment target equals value) := by
  unfold assignment
  split
  · exact Carries.freshId.map _
  · exact .pure _
  · exact .failAt _ _

theorem compoundAssignment_carries (target : Expr) (operator : Token) (value : Expr) :
    Carries J K n n (compoundAssignment target operator value)
      (compoundAssignment target operator value) := by
  unfold compoundAssignment
  split
  · exact Carries.freshId.map _
  · exact .pure _
  · exact .failAt _ _

theorem numberLiteral_carries (token : Token) :
    Carries J K n n (numberLiteral token) (numberLiteral token) := by
  unfold numberLiteral
  split
  · exact .pure _
  · exact .failAt _ _

theorem emptyObjectStatement_carries :
    Carries J True n n emptyObjectStatement emptyObjectStatement := Carries.statementEnd.map _

theorem expression_carries (h : ProductionsCarry J fuel) :
    Carries J (J.next.kind ∈ expressionFollowers) n n
      (expression (fuel + 1)) (expression (fuel + 1)) := by
  have hassigns : ∀ {kinds : List Token.Kind}, (∀ kind ∈ kinds, kind ∈ assigners) →
      J.next.kind ∈ kinds → J.next.kind ∈ expressionFollowers :=
    fun hkinds hnext => List.mem_append_right _ (hkinds _ hnext)
  simp only [expression]
  refine ((h.binary n _ (leads_plain (by decide))).mono (List.mem_append_left _)).bind
    fun target => ?_
  refine .acceptAny (leads_plain (by decide)) (hassigns (by decide)) (fun _ => ?_) ?_
  · exact (h.expression n).bind fun _ => assignment_carries _ _ _
  refine .acceptAny (leads_plain (by decide)) (hassigns (by decide)) (fun _ => ?_) ?_
  · exact (h.expression n).bind fun _ => compoundAssignment_carries _ _ _
  refine .acceptAny (leads_plain (by decide)) (hassigns (by decide)) (fun _ => ?_) (.pure _)
  exact compoundAssignment_carries _ _ _

theorem operandFollowers_cons {operators : List Token.Kind} {tighter : List (List Token.Kind)}
    {kind : Token.Kind} (h : kind ∈ operandFollowers tighter) :
    kind ∈ operandFollowers (operators :: tighter) := by
  simp only [operandFollowers, List.flatten_cons, List.mem_append] at h ⊢
  exact h.imp_right .inr

theorem operators_follow {operators : List Token.Kind} {tighter : List (List Token.Kind)}
    {kind : Token.Kind} (h : kind ∈ operators) : kind ∈ operandFollowers (operators :: tighter) := by
  simp [operandFollowers, h]

theorem binary_carries (h : ProductionsCarry J fuel) (levels : List (List Token.Kind))
    (hlevels : ∀ kind ∈ levels.flatten, Leads n n kind) :
    Carries J (J.next.kind ∈ operandFollowers levels) n n
      (binary (fuel + 1) levels) (binary (fuel + 1) levels) := by
  cases levels with
  | nil =>
    simp only [binary]
    exact (h.unary n).mono (List.mem_append_left _)
  | cons operators tighter =>
    simp only [binary]
    have htighter : ∀ kind ∈ tighter.flatten, Leads n n kind := fun kind hkind =>
      hlevels kind (by rw [List.flatten_cons]; exact List.mem_append_right _ hkind)
    refine ((h.binary n tighter htighter).mono operandFollowers_cons).bind fun left => ?_
    exact h.binaryRest n operators tighter left hlevels

theorem binaryRest_carries (h : ProductionsCarry J fuel) (operators : List Token.Kind)
    (tighter : List (List Token.Kind)) (left : Expr)
    (hlevels : ∀ kind ∈ (operators :: tighter).flatten, Leads n n kind) :
    Carries J (J.next.kind ∈ operandFollowers (operators :: tighter)) n n
      (binaryRest (fuel + 1) operators tighter left)
      (binaryRest (fuel + 1) operators tighter left) := by
  simp only [binaryRest]
  rw [List.flatten_cons, List.forall_mem_append] at hlevels
  refine .acceptAny hlevels.1 operators_follow (fun operator => ?_) (.pure _)
  refine ((h.binary n tighter hlevels.2).mono operandFollowers_cons).bind fun right => ?_
  refine h.binaryRest n operators tighter _ ?_
  rwa [List.flatten_cons, List.forall_mem_append]

theorem primary_stops {c : Cursor} (hc : c.rest = [J.mark]) (fuel : Nat) :
    ∃ e, primary fuel c = .error e := by
  cases fuel with
  | zero => exact ⟨_, rfl⟩
  | succ fuel =>
    have hkind : c.peek.kind = .endMark := by rw [Cursor.peek, hc]; exact J.mark_kind
    simp only [primary, Reads.get_bind, hkind]
    exact ⟨_, rfl⟩

theorem unary_carries (h : ProductionsCarry J fuel) :
    Carries J (J.next.kind ∈ postfixFollowers) n n (unary (fuel + 1)) (unary (fuel + 1)) := by
  simp only [unary]
  refine .acceptAny_or (leads_plain (by decide)) (fun _ => .inr fun c hc => ?_)
    (fun _ => (h.unary n).map _) ?_
  · exact Reads.bind_error (primary_stops hc fuel)
  · exact ((h.primary n).mono False.elim).bind fun head => h.postfixRest n head

theorem postfixRest_carries (h : ProductionsCarry J fuel) (head : Expr) :
    Carries J (J.next.kind ∈ postfixFollowers) n n
      (postfixRest (fuel + 1) head) (postfixRest (fuel + 1) head) := by
  simp only [postfixRest]
  have hstops : ∀ args : List Expr, J.Stops (do
      let paren ← expect .rightParen .argumentsClose
      postfixRest fuel (.call head paren args)) := fun _ =>
    (Seam.Stops.expect (by decide) _).bind
  have hclose : ∀ args : List Expr, Carries J (J.next.kind ∈ postfixFollowers) n n (do
      let paren ← expect .rightParen .argumentsClose
      postfixRest fuel (.call head paren args)) (do
      let paren ← expect .rightParen .argumentsClose
      postfixRest fuel (.call head paren args)) := fun _ =>
    .expect (leads_other (by decide)) _ fun _ => h.postfixRest n _
  refine .accept (leads_other (by decide)) (fun hnext => by rw [hnext]; decide) ?_ ?_
  · have hnone := (Carries.pure (J := J) (K := True) (n := n) ([] : List Expr)).stops hstops
    have hsome := (h.argumentRow n 0).stops hstops
    refine Carries.skipNewlines.shut (fun _ => .ifCheck _ hnone hsome) fun _ =>
      .ifCheck_shut _ hnone hsome ?_ ?_
    · exact (Carries.pure _).bind hclose
    · exact (h.argumentRow n 0).shut hstops hclose
  · refine .accept (leads_other (by decide)) (fun hnext => by rw [hnext]; decide) ?_ (.pure _)
    exact .expect (leads_other (by decide)) _ fun _ => h.postfixRest n _

theorem primary_carries (h : ProductionsCarry J fuel) :
    Carries J False n n (primary (fuel + 1)) (primary (fuel + 1)) := by
  intro c c' hc
  rcases hc.cases with ⟨hmark, -⟩ | ⟨t, ts, ts', hrest, -, ht, -⟩
  · obtain ⟨e, herror⟩ := primary_stops hmark (fuel + 1)
    rw [herror]
    exact .error
  have hend : c.atEnd = false := by simpa [Cursor.atEnd, Cursor.peek, hrest] using ht
  have hobject := hc.atObject hend
  simp only [primary, Reads.get_bind, hc.peek hend]
  have hadvance : ∀ {kind : Token.Kind} {y : Token → Parse Expr}, c.peek.kind = kind →
      kind ∉ [.leftBracket, .rightBracket, .endMark] →
      (∀ t, Carries J False n n (y t) (y t)) →
      J.Carried False n n c ((advance >>= y) c) ((advance >>= y) c') := fun hpeek hkind hy =>
    Carries.advance_from hc hend (hpeek ▸ leads_other hkind) hy
  generalize hpeek : c.peek.kind = kind at hadvance
  split
  case h_1 | h_2 => exact hadvance rfl (by decide) fun _ => numberLiteral_carries _
  case h_3 | h_4 | h_5 | h_6 | h_7 | h_8 => exact hadvance rfl (by decide) fun _ => .pure _
  case h_9 =>
    refine hadvance rfl (by decide) fun token => .expect (leads_other (by decide)) _ fun _ => ?_
    exact (h.functionRest n token).map _
  case h_10 => exact hadvance rfl (by decide) fun _ => Carries.freshId.map _
  case h_11 | h_12 =>
    refine hadvance rfl (by decide) fun _ => Carries.freshId.bind fun _ => ?_
    refine .accept (leads_opening n) (fun hnext => ?_) ?_ (.pure _)
    · exact J.next_kind (by rw [hnext]; decide)
    · refine ((h.expression (n + 1)).mono fun _ => trivial).shut (fun _ => ?_) fun _ => ?_
      · exact (Seam.Stops.expect (by decide) _).bind
      · exact .expect (leads_closing n) _ fun _ => .pure _
  case h_13 =>
    have hinner := (h.expression n).mono fun _ => trivial
    have hclose : ∀ inner : Expr, J.Stops (do
        skipNewlines
        let _ ← expect .rightParen .groupClose
        return Expr.grouping inner) := fun _ => .skipNewlines (Seam.Stops.expect (by decide) _).bind
    refine hadvance rfl (by decide) fun _ => Carries.skipNewlines.shut
      (fun _ => hinner.stops hclose) fun _ => hinner.shut hclose fun _ => ?_
    refine Carries.skipNewlines.shut (fun _ => (Seam.Stops.expect (by decide) _).bind) fun _ => ?_
    exact .expect (leads_other (by decide)) _ fun _ => .pure _
  case h_14 =>
    refine Carries.advance_from hc hend (hpeek ▸ leads_opening n) fun _ => ?_
    have hclose : ∀ elements : List Expr, J.Stops (do
        let _ ← expect .rightBracket .listClose
        return Expr.literal .list (.list elements)) := fun _ => (Seam.Stops.expect (by decide) _).bind
    refine Carries.skipNewlines.shut (fun _ => (h.elementRow (n + 1)).stops hclose) fun _ => ?_
    exact (h.elementRow (n + 1)).shut hclose fun _ => .expect (leads_closing n) _ fun _ => .pure _
  case h_15 =>
    split
    · next hopens =>
      rw [if_pos (hobject hopens)]
      have hclose : ∀ (brace : Token) (entries : List Entry), J.Stops (do
          let _ ← expect .rightBrace .objectClose
          return Expr.object brace entries) := fun _ _ => (Seam.Stops.expect (by decide) _).bind
      refine hadvance rfl (by decide) fun brace => ?_
      refine Carries.skipNewlines.shut (fun _ => (h.entryRow n []).stops (hclose brace)) fun _ => ?_
      exact (h.entryRow n []).shut (hclose brace) fun _ => .expect (leads_other (by decide)) _ fun _ =>
        .pure _
    · exact .error
  case h_16 => exact .error

theorem block_stops (fuel : Nat) : J.Stops (block fuel) := by
  cases fuel with
  | zero => exact fun _ _ => ⟨_, rfl⟩
  | succ fuel =>
    simp only [block]
    refine .skipNewlines (.accept (by decide) ?_)
    exact (Seam.Stops.expect (by decide) _).bind

theorem block_carries (h : ProductionsCarry J fuel) :
    Carries J False n n (block (fuel + 1)) (block (fuel + 1)) := by
  simp only [block]
  have hclose : ∀ statements : List Stmt, J.Stops (do
      let _ ← expect .rightBrace .blockClose
      return statements) := fun _ => (Seam.Stops.expect (by decide) _).bind
  refine Carries.skipNewlines.shut (fun _ => ?_) fun _ => ?_
  · exact .accept (by decide) (Seam.Stops.expect (by decide) _).bind
  refine .accept (leads_other (by decide)) (fun hnext => ?_) (.pure _) ?_
  · exact J.next_kind (by rw [hnext]; decide)
  refine .expect (leads_other (by decide)) _ fun _ => ?_
  refine Carries.skipNewlines.shut (fun _ => (h.blockRow n).stops hclose) fun _ => ?_
  exact (h.blockRow n).shut hclose fun _ => .expect (leads_other (by decide)) _ fun _ => .pure _

/-- A brace behind which nothing but line feeds comes before the seam opens no block. -/
theorem block_cut {c : Cursor} (hbrace : c.peek.kind = .leftBrace) (hfed : J.Fed c.rest.tail)
    (fuel : Nat) : ∃ e, block fuel c = .error e := by
  cases fuel with
  | zero => exact ⟨_, rfl⟩
  | succ fuel =>
    obtain ⟨last, rest, nextId⟩ := c
    cases rest with
    | nil =>
      obtain ⟨feeds, -, hnil⟩ := hfed
      simp at hnil
    | cons t ts =>
      replace hbrace : t.kind = .leftBrace := hbrace
      replace hfed : J.Fed ts := hfed
      obtain ⟨last', hfeeds, -⟩ := Reads.dropNewlines_of_dropWhile (l := t) hfed.dropWhile
      have hskip : skipNewlines ⟨last, t :: ts, nextId⟩ = .ok ((), ⟨last, t :: ts, nextId⟩) := by
        rw [Reads.skipNewlines_eq, dropNewlines, if_neg (by simp [hbrace])]
        rfl
      have hopen : expect .leftBrace .blockOpen ⟨last, t :: ts, nextId⟩ = .ok (t, ⟨t, ts, nextId⟩) := by
        change (if Cursor.check _ _ then _ else _ : Parse Token) _ = _
        rw [if_pos (by simp [Cursor.check, Cursor.atEnd, Cursor.peek, hbrace]),
          Reads.advance_cons (by simp [hbrace])]
      have hskip' : skipNewlines ⟨t, ts, nextId⟩ = .ok ((), ⟨last', [J.mark], nextId⟩) := by
        rw [Reads.skipNewlines_eq]
        dsimp only
        rw [hfeeds]
        rfl
      have hrow : (∃ e, blockRow fuel ⟨last', [J.mark], nextId⟩ = .error e) ∨
          blockRow fuel ⟨last', [J.mark], nextId⟩ = .ok ([], ⟨last', [J.mark], nextId⟩) := by
        cases fuel with
        | zero => exact .inl ⟨_, rfl⟩
        | succ fuel =>
          simp only [blockRow, Reads.get_bind, J.mark_atEnd (c := ⟨last', [J.mark], nextId⟩) rfl,
            Bool.or_true]
          exact .inr rfl
      rw [block, Reads.bind_ok hskip, accept_bind,
        if_neg (by simp [Cursor.check, Cursor.atEnd, Cursor.peek, hbrace]), if_neg Bool.false_ne_true,
        Reads.bind_ok hopen, Reads.bind_ok hskip']
      obtain herror | hrow := hrow
      · exact Reads.bind_error herror
      · rw [Reads.bind_ok hrow]
        exact Reads.bind_error (Seam.Stops.expect (J := J) (by decide) _ _ (J.spent_mark rfl))

theorem functionRest_carries (h : ProductionsCarry J fuel) (name : Token) :
    Carries J False n n (functionRest (fuel + 1) name) (functionRest (fuel + 1) name) := by
  simp only [functionRest]
  refine ((annotationsCarry fuel).parameters n).bind fun _ => ?_
  refine ((annotationsCarry fuel).announced n).shut (fun _ => ?_) fun _ => (h.block n).map _
  exact (block_stops fuel).bind

/-! ### Assignments to an index -/

/-- What ends a statement can be read behind it. -/
theorem statementEnd_view {c d : Cursor} {u : Unit} (h : statementEnd c = .ok (u, d)) :
    c.peek.kind.isTerminator = true := by
  obtain ⟨o, c₂, ho, hrest⟩ := bind_eq_ok h
  by_cases hcheck : [Token.Kind.semicolon, .newline].any c.check = true
  · obtain ⟨kind, hmem, hcheck⟩ := List.any_eq_true.1 hcheck
    rw [Cursor.kind_of_check hcheck]
    revert hmem
    cases kind <;> decide
  · rw [Reads.acceptAny_of_not_check hcheck] at ho
    obtain ⟨rfl, rfl⟩ := Prod.mk.inj (Except.ok.inj ho)
    change (if c.atEnd || c.check .rightBrace then _ else _ : Parse Unit) c = _ at hrest
    split at hrest
    · next hview =>
      rcases Bool.or_eq_true_iff.1 hview with hend | hbrace
      · rw [show c.peek.kind = .endMark by simpa [Cursor.atEnd] using hend]
        rfl
      · rw [Cursor.kind_of_check hbrace]
        rfl
    · cases hrest

theorem Seam.Rows.split {us vs ts' : List Token} (h : J.Rows (us ++ vs) ts') (hvs : vs ≠ []) :
    ∃ vs', ts' = us ++ vs' ∧ J.Rows vs vs' := by
  induction us generalizing ts' with
  | nil => exact ⟨ts', rfl, h⟩
  | cons u us ih =>
    generalize hrow : u :: us ++ vs = ts at h
    cases h with
    | here =>
      obtain ⟨-, hnil⟩ := List.cons.inj hrow
      exact absurd (List.append_eq_nil_iff.1 hnil).2 hvs
    | cons _ h =>
      obtain ⟨rfl, rfl⟩ := List.cons.inj hrow
      obtain ⟨vs', rfl, h'⟩ := ih h
      exact ⟨vs', rfl, h'⟩

theorem atIndexAssignment_of (h : c.Before J c') (hassign : c.atIndexAssignment = true) :
    c'.atIndexAssignment = true := by
  simp only [Cursor.atIndexAssignment, Bool.and_eq_true] at hassign ⊢
  obtain ⟨⟨hname, hnext⟩, hfound⟩ := hassign
  have hend := Reads.atEnd_of_check hname
  exact ⟨⟨(h.check hend _).trans hname, (Seam.Rows.checkNext h hend (by decide)).trans hnext⟩,
    (h.tail hend).assignsAfterBracket_of hfound⟩

/-- A search looks at no more than one token behind an expression. -/
theorem atIndexAssignment_eq {ts vs vs' : List Token} {u : Token} (hts : Brackets 0 ts 0)
    (hc : c.rest = ts ++ u :: vs) (hc' : c'.rest = ts ++ u :: vs')
    (hu : u.kind.isTerminator = true) : c'.atIndexAssignment = c.atIndexAssignment := by
  have hopen : (u.kind == .leftBracket) = false :=
    beq_eq_false_iff_ne.2 fun h => by rw [h] at hu; cases hu
  have hname : (u.kind == .name) = false :=
    beq_eq_false_iff_ne.2 fun h => by rw [h] at hu; cases hu
  simp only [Cursor.atIndexAssignment, Cursor.check, Cursor.checkNext, Cursor.atEnd, Cursor.peek,
    hc, hc']
  cases hts with
  | nil => simp only [List.nil_append, List.head?_cons, Option.getD_some, hname, Bool.and_false,
      Bool.false_and]
  | opening ht =>
    have hfirst : (Token.Kind.leftBracket == .name) = false := rfl
    simp only [List.cons_append, List.head?_cons, Option.getD_some, ht, hfirst, Bool.and_false,
      Bool.false_and]
  | @other _ _ t ts _ hts =>
    cases hts with
    | nil => simp only [List.cons_append, List.nil_append, List.tail_cons, List.head?_cons, hopen,
        Bool.and_false, Bool.false_and]
    | @other _ _ t' ts ht' =>
      have hnext : (t'.kind == .leftBracket) = false :=
        beq_eq_false_iff_ne.2 fun h => ht' (by rw [h]; decide)
      simp only [List.cons_append, List.tail_cons, List.head?_cons, hnext, Bool.and_false,
        Bool.false_and]
    | @opening _ _ t' ts ht' hts =>
      simp only [List.cons_append, List.head?_cons, Option.getD_some, List.tail_cons,
        assignsAfterBracket, ht']
      have hheads : (u :: vs').head? = (u :: vs).head? := rfl
      rw [hts.assignsAfterBracket_eq (Nat.succ_ne_zero 0) rfl hheads]

theorem overlooked_spent (h : ProductionsCarry J fuel) (hc : c.Before J c')
    (hassign : c.atIndexAssignment = false) (hassign' : c'.atIndexAssignment = true) {s : Stmt}
    {d : Cursor} (hs : expressionStatement (fuel + 1) c = .ok (s, d)) : J.Spent d := by
  simp only [expressionStatement, Reads.peek_bind] at hs
  obtain ⟨e, d₁, he, hmore⟩ := bind_eq_ok hs
  obtain ⟨_, d₂, hend, hd⟩ := bind_eq_ok hmore
  obtain ⟨-, rfl⟩ := Prod.mk.inj (Except.ok.inj hd)
  obtain ⟨⟨ts, hts, hrest⟩, hseam⟩ := h.expression 0 c c' hc e d₁ he
  have hspent : J.Spent d₁ → J.Spent d₂ := fun hd₁ => by
    obtain ⟨d₁', hd₁'⟩ := hd₁.before
    exact hd₁.taken (Carries.statementEnd (n := 0) d₁ d₁' hd₁' _ _ hend).1
  rcases hseam with ⟨hd₁, -⟩ | ⟨d₁', -, hd₁'⟩
  · exact hspent hd₁
  rcases hd₁'.cases with ⟨hmark, -⟩ | ⟨u, us, us', hus, -, hu, hrows⟩
  · exact hspent (J.spent_mark hmark)
  -- the statement ends before the seam, so the search has come to its end there too
  have hsplit : J.Rows (ts ++ u :: us) c'.rest := by
    rw [← hus, ← hrest]
    exact hc.rows
  obtain ⟨vs, hrest', hvs⟩ := hsplit.split (List.cons_ne_nil _ _)
  generalize hrow : u :: us = ws at hvs
  cases hvs with
  | here =>
    obtain ⟨rfl, -⟩ := List.cons.inj hrow
    exact absurd J.mark_kind hu
  | cons _ _ =>
    obtain ⟨rfl, rfl⟩ := List.cons.inj hrow
    have hterminator := statementEnd_view hend
    rw [Cursor.peek, hus] at hterminator
    rw [atIndexAssignment_eq hts (hus ▸ hrest) hrest' hterminator, hassign] at hassign'
    cases hassign'

theorem statement_carries (h : ProductionsCarry J fuel) :
    Carries J True n n (statement (fuel + 1)) (statement (fuel + 1)) := by
  simp only [statement]
  refine Carries.skipNewlines.bind fun _ => .look (fun c c' hc hmark => ?_) fun c c' hc hend => ?_
  · have hkind : c.peek.kind = .endMark := by rw [Cursor.peek, hmark]; exact J.mark_kind
    simp only [hkind]
    exact ⟨_, Carries.pure (J := J) _ c c' hc⟩
  have hadvance : ∀ {kind : Token.Kind} {y : Token → Parse Stmt}, c.peek.kind = kind →
      kind ∉ [.leftBracket, .rightBracket, .endMark] →
      (∀ t, Carries J True n n (y t) (y t)) →
      J.Carried True n n c ((advance >>= y) c) ((advance >>= y) c') := fun hpeek hkind hy =>
    Carries.advance_from hc hend (hpeek ▸ leads_other hkind) hy
  rw [hc.peek hend]
  generalize hpeek : c.peek.kind = kind at hadvance
  split
  case h_1 => exact hadvance rfl (by decide) fun _ => h.classDeclaration n
  case h_2 => exact hadvance rfl (by decide) fun keyword => h.forStatement n keyword
  case h_3 => exact hadvance rfl (by decide) fun keyword => h.whileStatement n keyword
  case h_4 => exact hadvance rfl (by decide) fun keyword => h.ifStatement n keyword
  case h_5 | h_6 | h_7 =>
    exact hadvance rfl (by decide) fun keyword => h.variableDeclaration n keyword
  case h_8 =>
    rw [Seam.Rows.checkNext hc hend (by decide)]
    split
    · refine hadvance rfl (by decide) fun _ => .expect (leads_other (by decide)) _ fun name => ?_
      refine .expect (leads_other (by decide)) _ fun _ => ?_
      exact ((h.functionRest n name).mono False.elim).map _
    · exact h.expressionStatement n c c' hc
  case h_9 => exact hadvance rfl (by decide) fun keyword => h.returnStatement n keyword
  case h_10 =>
    have hcut : J.Fed c.rest.tail → J.Carried True n n c
        ((if c.checkNext .rightBrace then do
            let _ ← advance
            let _ ← advance
            emptyObjectStatement
          else if startsEntry c.rest.tail then expressionStatement fuel
          else return Stmt.block (← block fuel)) c)
        ((if c'.checkNext .rightBrace then do
            let _ ← advance
            let _ ← advance
            emptyObjectStatement
          else if startsEntry c'.rest.tail then expressionStatement fuel
          else return Stmt.block (← block fuel)) c') := fun hfed => by
      obtain ⟨e, herror⟩ := Reads.bind_error (k := fun statements => return Stmt.block statements)
        (block_cut hpeek hfed fuel)
      rw [if_neg (by simp [hfed.checkNext]), if_neg (by simp [hfed.startsEntry]), herror]
      exact .error
    obtain hfed | hnext := Seam.Rows.checkNext_brace hc hend
    · exact hcut hfed
    obtain hfed | hentry := (hc.tail hend).startsEntry_eq
    · exact hcut hfed
    rw [hnext, hentry]
    split
    · next hnext =>
      exact Carries.advanceTwice_from hc hend (hpeek ▸ leads_other (by decide)) hnext
        (leads_other (by decide)) emptyObjectStatement_carries
    · split
      · exact h.expressionStatement n c c' hc
      · exact ((h.block n).mono False.elim).map _ c c' hc
  case h_11 => exact hadvance rfl (by decide) fun _ => emptyObjectStatement_carries
  case h_12 => exact Carries.pure _ c c' hc
  case h_13 =>
    cases hassign : c.atIndexAssignment with
    | true =>
      have hname : c.check .name = true := by
        simp only [Cursor.atIndexAssignment, Bool.and_eq_true] at hassign
        exact hassign.1.1
      rw [atIndexAssignment_of hc hassign]
      exact h.indexAssignment n hc hname
    | false =>
      cases hassign' : c'.atIndexAssignment with
      | false => exact h.expressionStatement n c c' hc
      | true =>
        intro s d hs
        exact ⟨(h.expressionStatement n c c' hc s d hs).1,
          .inl ⟨h.overlooked hc hassign hassign' s d hs, trivial⟩⟩

theorem ifStatement_carries (h : ProductionsCarry J fuel) (keyword : Token) :
    Carries J True n n (ifStatement (fuel + 1) keyword) (ifStatement (fuel + 1) keyword) := by
  simp only [ifStatement]
  refine .expect (leads_other (by decide)) _ fun _ => ?_
  refine ((h.expression n).mono fun _ => trivial).bind fun _ => ?_
  refine .expect (leads_other (by decide)) _ fun _ => ?_
  refine ((h.block n).mono False.elim).bind fun _ => .get fun c c' hc => ?_
  intro s e hs
  obtain ⟨_, d, hskip, hrest⟩ := bind_eq_ok hs
  obtain ⟨htaken, ⟨hfed, hmark⟩ | ⟨d', hskip', hd, hview⟩⟩ :=
    Carries.skipNewlines_from (n := n) hc hskip
  · -- nothing but line feeds is left, and the cursor goes back before them
    rw [accept_bind, if_neg (by simp [Cursor.check, J.mark_atEnd hmark])] at hrest
    obtain ⟨rfl, rfl⟩ := Prod.mk.inj (Except.ok.inj hrest)
    exact ⟨.refl, .inl ⟨.inl hfed, trivial⟩⟩
  rw [Reads.bind_ok hskip']
  rw [accept_bind] at hrest ⊢
  split at hrest
  · next helse =>
    rw [hd.check hview, if_pos helse]
    suffices hmore : J.Carried True n n d _ _ from
      ⟨htaken.trans (hmore s e hrest).1, (hmore s e hrest).2⟩
    refine Carries.advance_from hd hview ((leads_other (by decide)).view helse) fun _ => ?_
    refine .acceptAny (leads_plain (by decide)) (fun _ => trivial) (fun inner => ?_) ?_
    · exact (h.ifStatement n inner).map _
    · exact ((h.block n).mono False.elim).map _
  · next helse =>
    -- without `else` the cursors go back before the line feeds
    obtain ⟨rfl, rfl⟩ := Prod.mk.inj (Except.ok.inj hrest)
    rw [if_neg (by rwa [hd.check hview])]
    exact ⟨.refl, .inr ⟨c', rfl, hc⟩⟩

theorem forStatement_carries (h : ProductionsCarry J fuel) (keyword : Token) :
    Carries J True n n (forStatement (fuel + 1) keyword) (forStatement (fuel + 1) keyword) := by
  simp only [forStatement]
  refine .expect (leads_other (by decide)) _ fun _ => (h.forInit n).bind fun init => ?_
  have hexpression := (h.expression n).mono fun _ => trivial
  have hbody := fun (condition : Expr) (increment : Option Expr) =>
    Carries.expect (J := J) (K := True) (leads_other (by decide) : Leads n n .rightParen)
      .forClose fun _ => (h.statement n).map fun body =>
        forLoop keyword init condition increment body
  have hincrement := fun condition : Expr =>
    Carries.expect (J := J) (K := True) (leads_other (by decide) : Leads n n .semicolon)
      .loopSemicolon fun _ => .ifCheck .rightParen
        ((Carries.pure none).bind fun increment => hbody condition increment)
        ((hexpression.map some).bind fun increment => hbody condition increment)
  exact .ifCheck _ ((Carries.pure _).bind hincrement) (hexpression.bind hincrement)

theorem variableDeclaration_carries (h : ProductionsCarry J fuel) (keyword : Token) :
    Carries J True n n (variableDeclaration (fuel + 1) keyword)
      (variableDeclaration (fuel + 1) keyword) := by
  simp only [variableDeclaration]
  refine .expect (leads_other (by decide)) _ fun _ => ?_
  refine ((annotationsCarry fuel).announced n).bind fun _ => .peek fun t => ?_
  split
  · exact Carries.statementEnd.map _
  · refine .expect (leads_other (by decide)) _ fun _ => .look (fun c c' hc hmark => ?_)
      fun c c' hc hend => ?_
    · rw [J.mark_atEnd hmark, Bool.or_true, if_pos rfl]
      exact ⟨.error .outOfFuel, .error⟩
    · have hend' : c'.atEnd = false := by rwa [Cursor.atEnd, hc.peek hend]
      rw [hc.check hend, hend, hend']
      split
      · exact .error
      · exact (((h.expression n).mono fun _ => trivial).bind fun _ =>
          Carries.statementEnd.map _) c c' hc

theorem productionsCarry_succ (h : ProductionsCarry J fuel) : ProductionsCarry J (fuel + 1) where
  expression _ := expression_carries h
  binary _ := binary_carries h
  binaryRest _ := binaryRest_carries h
  unary _ := unary_carries h
  postfixRest _ := postfixRest_carries h
  argumentRow n count := by
    simp only [Grammar.argumentRow]
    refine Carries.skipNewlines.bind fun _ => ?_
    split
    · exact .peek fun _ => .failAt _ _
    · refine ((h.expression n).mono fun _ => trivial).bind fun _ => ?_
      refine Carries.skipNewlines.bind fun _ => ?_
      refine .accept (leads_other (by decide)) (fun _ => trivial) ?_ (.pure _)
      exact (h.argumentRow n (count + 1)).map _
  primary _ := primary_carries h
  elementRow n := by
    simp only [Grammar.elementRow]
    refine .row _ (.pure _) (((h.expression n).mono fun _ => trivial).bind fun _ => ?_)
    refine Carries.skipNewlines.bind fun _ => ?_
    refine .accept (leads_other (by decide)) (fun _ => trivial) ?_ (.pure _)
    exact Carries.skipNewlines.bind fun _ => (h.elementRow n).map _
  entryRow n entries := by
    simp only [Grammar.entryRow]
    refine .row _ (.pure _) (.expect (leads_other (by decide)) _ fun _ => ?_)
    refine .expect (leads_other (by decide)) _ fun _ => Carries.skipNewlines.bind fun _ => ?_
    refine ((h.expression n).mono fun _ => trivial).bind fun _ => ?_
    refine Carries.skipNewlines.bind fun _ => ?_
    refine .accept (leads_other (by decide)) (fun _ => trivial) ?_ (.pure _)
    exact Carries.skipNewlines.bind fun _ => h.entryRow n _
  functionRest _ := functionRest_carries h
  block _ := block_carries h
  blockRow n := by
    simp only [Grammar.blockRow]
    refine .row _ (.pure _) ((h.statement n).bind fun _ => ?_)
    exact Carries.skipNewlines.bind fun _ => (h.blockRow n).map _
  statement _ := statement_carries h
  expressionStatement n := by
    simp only [Grammar.expressionStatement]
    refine .peek fun _ => ((h.expression n).mono fun _ => trivial).bind fun _ => ?_
    exact Carries.statementEnd.map _
  overlooked hc hassign hassign' _ _ := overlooked_spent h hc hassign hassign'
  classDeclaration n := by
    simp only [Grammar.classDeclaration]
    refine .expect (leads_other (by decide)) _ fun _ => Carries.skipNewlines.bind fun _ => ?_
    refine .accept (leads_other (by decide)) (fun _ => trivial) (.pure _) ?_
    refine .expect (leads_other (by decide)) _ fun _ => Carries.skipNewlines.bind fun _ => ?_
    exact (h.memberRow n).bind fun _ => .expect (leads_other (by decide)) _ fun _ => .pure _
  memberRow n := by
    simp only [Grammar.memberRow]
    refine .row _ (.pure _) (.expect (leads_other (by decide)) _ fun name => ?_)
    refine .accept (leads_other (by decide)) (fun _ => trivial) ?_ ?_
    · refine ((h.functionRest n name).mono False.elim).bind fun _ => ?_
      exact Carries.skipNewlines.bind fun _ => (h.memberRow n).map _
    · refine ((annotationsCarry fuel).announced n).bind fun _ => ?_
      refine .expect (leads_other (by decide)) _ fun _ => ?_
      refine ((h.expression n).mono fun _ => trivial).bind fun _ => ?_
      refine Carries.statementEnd.bind fun _ => Carries.skipNewlines.bind fun _ => ?_
      exact (h.memberRow n).map _
  ifStatement _ := ifStatement_carries h
  whileStatement n keyword := by
    simp only [Grammar.whileStatement]
    refine .expect (leads_other (by decide)) _ fun _ => ?_
    refine ((h.expression n).mono fun _ => trivial).bind fun _ => ?_
    exact .expect (leads_other (by decide)) _ fun _ => (h.statement n).map _
  forStatement _ := forStatement_carries h
  forInit n := by
    simp only [Grammar.forInit]
    refine .accept (leads_other (by decide)) (fun _ => trivial) (.pure _) ?_
    refine .acceptAny (leads_plain (by decide)) (fun _ => trivial) (fun keyword => ?_) ?_
    · exact (h.variableDeclaration n keyword).map _
    · exact (h.expressionStatement n).map _
  variableDeclaration _ := variableDeclaration_carries h
  returnStatement n keyword := by
    simp only [Grammar.returnStatement]
    refine .peek fun t => ?_
    split
    · exact (Carries.pure _).bind fun _ => Carries.statementEnd.map _
    · refine ((h.expression n).mono fun _ => trivial).bind fun _ => ?_
      exact Carries.statementEnd.map _
  indexAssignment n c c' hc hname := by
    simp only [Grammar.indexAssignment]
    have hexpression := fun k => (h.expression k).mono fun _ => True.intro
    refine Carries.advance_from hc (Reads.atEnd_of_check hname)
      ((leads_other (by decide)).view hname) fun _ => ?_
    refine Carries.freshId.bind fun _ => .expect (leads_opening n) _ fun _ => ?_
    refine (hexpression (n + 1)).bind fun _ => .expect (leads_closing n) _ fun _ => ?_
    refine .expect (leads_other (by decide)) _ fun _ => (hexpression n).bind fun _ => ?_
    exact Carries.statementEnd.map _

theorem productionsCarry (fuel : Nat) : ProductionsCarry J fuel := by
  induction fuel with
  | zero =>
    constructor
    case overlooked => exact fun _ _ _ s d hs => by cases hs
    case indexAssignment => exact fun _ _ _ _ _ => .error
    all_goals intros; exact .throw ⟨_, rfl⟩
  | succ fuel ih => exact productionsCarry_succ ih

end

end Grammar

end ScopedScript
