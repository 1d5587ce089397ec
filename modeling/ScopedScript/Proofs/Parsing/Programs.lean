import Mathlib.Data.List.TakeWhile
import ScopedScript.Proofs.Parsing.Productions

/-! # Programs, read side by side

What the productions do to statements carries over to whole programs.

* Rows that correspond token by token spell programs that correspond, or have the same fault at
  corresponding tokens (`parseFrom_alike`).
* In particular a program is numbered as its reading says (`parseFrom_numbered`).
* A row, a line feed and another row spell the two programs one after the other, if the first
  program has no empty statement inside (`parseFrom_append`).  The bound on the depth is larger for
  the longer row, but that makes no difference to what has been read. -/

namespace ScopedScript

namespace Grammar

open Reading

/-! ### Statements of a program -/

/-- Cursors behind a statement and the line feeds after it. -/
def Parted (G : Reading) (c c' : Cursor) : Prop :=
  G.Step c c' ∧ c'.peek.kind ≠ .newline ∨ G.Past c c'

theorem dropNewlines_peek {last last' : Token} {ts rest : List Token}
    (h : dropNewlines last ts = .ok (last', rest)) (i : NodeId) :
    (Cursor.peek ⟨last', rest, i⟩).kind ≠ .newline := by
  induction ts generalizing last with
  | nil =>
    rw [dropNewlines] at h
    split at h
    · cases h
    · next hlast =>
      obtain ⟨rfl, rfl⟩ := Prod.mk.inj (Except.ok.inj h)
      exact hlast
  | cons t ts ih =>
    rw [dropNewlines] at h
    split at h
    · exact ih h
    · next ht =>
      obtain ⟨rfl, rfl⟩ := Prod.mk.inj (Except.ok.inj h)
      exact ht

theorem skipNewlines_peek {c c₁ : Cursor} (h : skipNewlines c = .ok ((), c₁)) :
    c₁.peek.kind ≠ .newline := by
  rw [Reads.skipNewlines_eq] at h
  generalize hr : dropNewlines c.last c.rest = r at h
  cases r with
  | error e => cases h
  | ok p =>
    obtain rfl := (Prod.mk.inj (Except.ok.inj h)).2
    exact dropNewlines_peek hr c.nextId

section

variable {G : Reading} {n n' : Nat} {c c' : Cursor}

/-- Line feeds after a statement. -/
theorem skipNewlines_parts (hc : Ended G c c') :
    Reads G never (Parted G) (fun j _ _ => j = c.nextId) (skipNewlines c) (skipNewlines c') := by
  have h : Reads G never (fun c₁ c₁' => G.Step c₁ c₁' ∨ G.Past c₁ c₁') (fun j _ _ => j = c.nextId)
      (skipNewlines c) (skipNewlines c') := by
    rcases hc with hc | hc
    · exact Reads.skipNewlines hc
    · exact (Reads.skipNewlines_over hc).weaken (fun _ _ h => h) (fun _ _ h => .inr h)
        fun _ _ _ h => h
  have hpeek : ∀ c₁, skipNewlines c' = .ok ((), c₁) → c₁.peek.kind ≠ .newline := fun _ =>
    skipNewlines_peek
  generalize skipNewlines c = r, skipNewlines c' = r' at h hpeek
  cases h with
  | failed he => exact .failed he
  | escaped h => exact h.elim
  | @read _ _ c₁ c₁' hc₁ hj =>
    rcases hc₁ with hc₁ | hc₁
    · exact .read (.inl ⟨hc₁, hpeek c₁' rfl⟩) hj
    · exact .read (.inr hc₁) hj

theorem topStatement_makes (hb : G.Bounds n n') (hc : G.Step c c') :
    Reads G (unfinished G) (Parted G) (fun j s s' => s.Made G.token G.shift c.nextId j s')
      (topStatement n c) (topStatement n' c') := by
  refine ((productionsMake G hb).statement hc).bindEscaping ?_ ?_
  · rintro s c₁ ⟨hlost, hs⟩ r'
    rw [Reads.bind_ok (Reads.skipNewlines_lost hlost)]
    exact .escaped ⟨hlost, hs⟩
  · intro s s' c₁ c₁' hc₁ hs
    refine (skipNewlines_parts hc₁).bind fun _ _ c₂ c₂' hc₂ hj => .pure hc₂ ?_
    rwa [hj]

end

/-! ### Rows of statements -/

section

variable {n : Nat} {c d : Cursor}

theorem programRow_atEnd (h : c.atEnd = true) : programRow n c = .ok ([], c) := by
  rw [programRow, if_pos h]
  rfl

theorem programRow_cons {s : Stmt} {c₁ : Cursor} (h : c.atEnd = false)
    (hs : topStatement n c = .ok (s, c₁)) (hlt : c₁.rest.length < c.rest.length) :
    programRow n c = (programRow n c₁).map fun p => (s :: p.1, p.2) := by
  rw [programRow, if_neg (Bool.eq_false_iff.1 h), hs]
  change (if _ : c₁.rest.length < c.rest.length then _ else _) = _
  rw [dif_pos hlt]
  cases programRow n c₁ <;> rfl

theorem programRow_stuck {s : Stmt} {c₁ : Cursor} (h : c.atEnd = false)
    (hs : topStatement n c = .ok (s, c₁)) (hlt : ¬c₁.rest.length < c.rest.length) :
    programRow n c = .error .outOfFuel := by
  rw [programRow, if_neg (Bool.eq_false_iff.1 h), hs]
  change (if _ : c₁.rest.length < c.rest.length then _ else _) = _
  rw [dif_neg hlt]
  rfl

theorem programRow_error {e : Failure} (h : c.atEnd = false)
    (hs : topStatement n c = .error e) : programRow n c = .error e := by
  rw [programRow, if_neg (Bool.eq_false_iff.1 h), hs]
  rfl

/-- A row of statements away from the end has a first one. -/
theorem programRow_ok {p : List Stmt} (h : c.atEnd = false) (hp : programRow n c = .ok (p, d)) :
    ∃ s ss c₁, p = s :: ss ∧ topStatement n c = .ok (s, c₁) ∧
      c₁.rest.length < c.rest.length ∧ programRow n c₁ = .ok (ss, d) := by
  cases hs : topStatement n c with
  | error e =>
    rw [programRow_error h hs] at hp
    cases hp
  | ok r =>
    obtain ⟨s, c₁⟩ := r
    by_cases hlt : c₁.rest.length < c.rest.length
    · rw [programRow_cons h hs hlt] at hp
      cases hrow : programRow n c₁ with
      | error e =>
        rw [hrow] at hp
        cases hp
      | ok r =>
        rw [hrow] at hp
        obtain ⟨rfl, rfl⟩ := Prod.mk.inj (Except.ok.inj hp)
        exact ⟨s, r.1, c₁, rfl, rfl, hlt, hrow⟩
    · rw [programRow_stuck h hs hlt] at hp
      cases hp

end

section

variable {G : Reading} {n n' : Nat} {c c' : Cursor} {ts ts' : List Token}

theorem not_lost (hnone : G.later = none) : ¬G.Lost c := by
  rintro ⟨⟨more, hmore⟩, _⟩
  rw [hnone] at hmore
  cases hmore

theorem rows_length_whole (hnone : G.later = none) (h : G.Rows ts ts') :
    ts'.length = ts.length := by
  induction h with
  | nil _ => rfl
  | mark hmore _ =>
    rw [hnone] at hmore
    cases hmore
  | cons _ _ _ ih => rw [List.length_cons, List.length_cons, ih]

theorem rows_length {more : List Token} (hmore : G.later = some more) (h : G.Rows ts ts') :
    ts'.length = ts.length + more.length := by
  induction h with
  | nil hnone =>
    rw [hnone] at hmore
    cases hmore
  | @mark _ more' hmore' _ =>
    obtain rfl := Option.some.inj (hmore.symm.trans hmore')
    simp only [List.length_cons, List.length_nil]
    omega
  | cons _ _ _ ih =>
    rw [List.length_cons, List.length_cons, ih]
    omega

/-- Where the second row goes on, only the end mark of the first row is a mark. -/
theorem lost_of_atEnd {more : List Token} (hmore : G.later = some more) (hc : G.Step c c')
    (h : c.atEnd = true) : G.Lost c := by
  obtain ⟨last, rest, nextId⟩ := c
  have hrows : G.Rows rest c'.rest := hc.rows
  generalize c'.rest = rest' at hrows
  cases hrows with
  | nil hnone =>
    rw [hnone] at hmore
    cases hmore
  | mark hmore hmark => exact ⟨⟨_, hmore⟩, _, rfl, hmark⟩
  | cons _ hend _ =>
    have hne := hend (by rw [hmore]; exact Option.some_ne_none _)
    exact absurd (by simpa [Cursor.atEnd, Cursor.peek] using h) hne

/-- The second cursor is at the first token that is no line feed. -/
theorem Reading.Past.dropped {more : List Token} (h : G.Past c c') (hmore : G.later = some more) :
    more.dropWhile (·.kind == .newline) = c'.rest := by
  obtain ⟨feeds, hfeeds, hlater⟩ := h.rest
  obtain ⟨t, rest, hrest, hne⟩ := h.first
  obtain rfl := Option.some.inj (hmore.symm.trans hlater)
  rw [Reads.dropWhile_feeds hfeeds, hrest, List.dropWhile_cons_of_neg (by simpa using hne)]

/-- Programs in rows that correspond throughout. -/
theorem programRow_makes (hnone : G.later = none) (hb : G.Bounds n n') (hc : G.Step c c') :
    Reads G never G.Step (fun j ss ss' => stmtsMade G.token G.shift c.nextId j ss ss')
      (programRow n c) (programRow n' c') := by
  induction hlen : c.rest.length using Nat.strongRecOn generalizing c c' with
  | ind len ih =>
    subst hlen
    rcases hc.peek with ht | ⟨hlost, _⟩
    swap
    · exact absurd hlost (not_lost hnone)
    have hatEnd : c'.atEnd = c.atEnd := by simp [Cursor.atEnd, ht.kind_eq]
    cases hend : c.atEnd with
    | true =>
      rw [programRow_atEnd hend, programRow_atEnd (hatEnd.trans hend)]
      exact .read hc (.nil (Nat.le_refl _))
    | false =>
      have hend' := hatEnd.trans hend
      have htop := topStatement_makes hb hc
      generalize hr : topStatement n c = r, hr' : topStatement n' c' = r' at htop
      cases htop with
      | failed he =>
        rw [programRow_error hend hr]
        refine .failed fun hexact => ?_
        obtain ⟨e', rfl, hee⟩ := he hexact
        exact ⟨e', programRow_error hend' hr', hee⟩
      | escaped hesc => exact absurd hesc.1 (not_lost hnone)
      | @read s s' c₁ c₁' hc₁ hs =>
        obtain ⟨hc₁, _⟩ | hpast := hc₁
        swap
        · exact absurd hpast.lost (not_lost hnone)
        have hlen := rows_length_whole hnone hc.rows
        have hlen₁ := rows_length_whole hnone hc₁.rows
        by_cases hlt : c₁.rest.length < c.rest.length
        · rw [programRow_cons hend hr hlt, programRow_cons hend' hr' (by omega)]
          have hrow := ih _ hlt hc₁ rfl
          generalize programRow n c₁ = r₁, programRow n' c₁' = r₁' at hrow
          cases hrow with
          | failed he =>
            refine .failed fun hexact => ?_
            obtain ⟨e', rfl, hee⟩ := he hexact
            exact ⟨e', rfl, hee⟩
          | escaped hesc => exact hesc.elim
          | read hd hss => exact .read hd (.cons hs hss)
        · rw [programRow_stuck hend hr hlt, programRow_stuck hend' hr' (by omega)]
          exact .failed fun _ => ⟨_, rfl, .outOfFuel⟩

/-- Where the second row goes on, the second program starts with what corresponds to the first, and
the rest of it is what comes later. -/
theorem programRow_goesOn {more : List Token} {p : List Stmt} {d : Cursor}
    (hmore : G.later = some more) (hjoint : G.joint.kind = .newline) (hb : G.Bounds n n')
    (hc : Parted G c c') (h : programRow n c = .ok (p, d)) (hp : Filled p) :
    ∃ p' d', G.Past d d' ∧ stmtsMade G.token G.shift c.nextId d.nextId p p' ∧
      programRow n' c' = (programRow n' d').map fun r => (p' ++ r.1, r.2) := by
  induction hlen : c.rest.length using Nat.strongRecOn generalizing c c' p with
  | ind len ih =>
    subst hlen
    obtain ⟨hc, hpeek⟩ | hpast := hc
    swap
    · rw [programRow_atEnd hpast.lost.atEnd] at h
      obtain ⟨rfl, rfl⟩ := Prod.mk.inj (Except.ok.inj h)
      exact ⟨[], c', hpast, .nil (Nat.le_refl _), by cases programRow n' c' <;> rfl⟩
    cases hend : c.atEnd with
    | true =>
      have hlost := lost_of_atEnd hmore hc hend
      obtain ⟨_, mark, hr, hmark⟩ := hlost
      have hrows := hc.rows
      rw [hr] at hrows
      generalize hr' : c'.rest = rest' at hrows
      cases hrows with
      | mark =>
        -- the second cursor would have the line feed in view
        exact absurd (by simp [Cursor.peek, hr', hjoint]) hpeek
      | cons _ hne _ => exact absurd hmark (hne (by rw [hmore]; exact Option.some_ne_none _))
    | false =>
      obtain ⟨s, ss, c₁, rfl, hr, hlt, hss⟩ := programRow_ok hend h
      have htop := topStatement_makes hb hc
      rw [hr] at htop
      generalize hr' : topStatement n' c' = r' at htop
      cases htop with
      | escaped hesc => exact absurd hesc.2 (hp s List.mem_cons_self)
      | @read _ s' _ c₁' hc₁ hs =>
        obtain ⟨p', d', hd, hmade, hrest⟩ :=
          ih _ hlt hc₁ hss (fun t ht => hp t (List.mem_cons_of_mem s ht)) rfl
        refine ⟨s' :: p', d', hd, .cons hs hmade, ?_⟩
        have hlen := rows_length hmore hc.rows
        have hlt' : c₁'.rest.length < c'.rest.length := by
          obtain ⟨hc₁, _⟩ | hpast := hc₁
          · have := rows_length hmore hc₁.rows
            omega
          · obtain ⟨feeds, _, hlater⟩ := hpast.rest
            obtain rfl := Option.some.inj (hmore.symm.trans hlater)
            simp only [List.length_append] at hlen
            omega
        rw [programRow_cons (hc.view hend).2.1 hr' hlt', hrest]
        cases programRow n' d' <;> rfl

end

/-! ### Programs -/

/-- A relation between tokens that productions cannot tell apart. -/
structure Matches (token : Token → Token → Prop) : Prop where
  same : ∀ {t t' : Token}, token t t' →
    t'.kind = t.kind ∧ t'.lexeme = t.lexeme ∧ t'.literal = t.literal
  derived : ∀ {t t' : Token} {kind : Token.Kind} (lexeme : String), kind ∈ arithmetic →
    token t t' → token (.derived kind lexeme t) (.derived kind lexeme t')

theorem Matches.eq : Matches Eq where
  same h := h ▸ ⟨rfl, rfl, rfl⟩
  derived _ _ h := h ▸ rfl

/-- Rows that correspond throughout. -/
def Reading.throughout {token : Token → Token → Prop} (h : Matches token)
    (mark : Token → Token → Prop) (shift : Nat) (exact : Prop) : Reading where
  token := token
  mark := mark
  shift := shift
  exact := exact
  taken := False
  joint := ⟨.newline, "", 0, 0, 0, 0, none⟩
  later := none
  joins := by decide
  same := h.same
  derived := h.derived
  whole _ := rfl
  goesOn := by simp

/-- A second row that goes on after a joint. -/
def Reading.joining {token : Token → Token → Prop} (h : Matches token) (shift : Nat) {joint : Token}
    (hjoint : joint.kind ∈ joints) {more rest : List Token} {t : Token}
    (hmore : more.dropWhile (·.kind == .newline) = t :: rest) (ht : Apart token t) :
    Reading where
  token := token
  mark _ _ := False
  shift := shift
  exact := False
  taken := joint.kind = .semicolon
  joint := joint
  later := some more
  joins := hjoint
  same := h.same
  derived := h.derived
  whole := False.elim
  goesOn hl := by
    obtain rfl := Option.some.inj hl
    exact ⟨t, rest, hmore, ht⟩

section

variable {token : Token → Token → Prop} {ts ts' : List Token}

theorem rows_throughout (h : Matches token) {mark : Token → Token → Prop} (shift : Nat)
    (exact : Prop) (hts : List.Forall₂ (Viewed token mark) ts ts') :
    (Reading.throughout h mark shift exact).Rows ts ts' := by
  induction hts with
  | nil => exact .nil rfl
  | cons ht _ ih => exact .cons ht (fun hne => absurd rfl hne) ih

theorem rows_joining (h : Matches token) (shift : Nat) {joint : Token}
    (hjoint : joint.kind ∈ joints) {more rest : List Token} {t : Token}
    (hmore : more.dropWhile (·.kind == .newline) = t :: rest)
    (ht : Apart token t) (hts : List.Forall₂ token ts ts')
    (hends : ∀ t ∈ ts, t.kind ≠ .endMark) {mark : Token} (hmark : mark.kind = .endMark) :
    (Reading.joining h shift hjoint hmore ht).Rows (ts ++ [mark]) (ts' ++ joint :: more) := by
  induction hts with
  | nil => exact .mark rfl hmark
  | cons ht' _ ih =>
    refine .cons (.inl ht') (fun _ => hends _ List.mem_cons_self) ?_
    exact ih fun u hu => hends u (List.mem_cons_of_mem _ hu)

end

/-- Reading a program: line feeds, then statements up to the end mark. -/
theorem parseFrom_cons (i : NodeId) (t : Token) (ts : List Token) :
    parseFrom i (t :: ts) = (skipNewlines ⟨t, t :: ts, i⟩ >>= fun p =>
      (programRow (depthBound (ts.length + 1)) p.2).map fun r => (r.1, r.2.nextId)) := by
  change (skipNewlines ⟨t, t :: ts, i⟩ >>= fun p =>
    programRow (depthBound (ts.length + 1)) p.2) >>= (fun r => Pure.pure (r.1, r.2.nextId)) = _
  cases skipNewlines ⟨t, t :: ts, i⟩ with
  | error e => rfl
  | ok p =>
    change (programRow (depthBound (ts.length + 1)) p.2 >>= fun r =>
      Pure.pure (r.1, r.2.nextId)) = (programRow (depthBound (ts.length + 1)) p.2).map _
    cases programRow (depthBound (ts.length + 1)) p.2 <;> rfl

theorem parseFrom_ok {i j : NodeId} {t : Token} {ts : List Token} {p : Program}
    (h : parseFrom i (t :: ts) = .ok (p, j)) :
    ∃ c d, skipNewlines ⟨t, t :: ts, i⟩ = .ok ((), c) ∧
      programRow (depthBound (ts.length + 1)) c = .ok (p, d) ∧ d.nextId = j := by
  rw [parseFrom_cons] at h
  cases hskip : skipNewlines ⟨t, t :: ts, i⟩ with
  | error e =>
    rw [hskip] at h
    cases h
  | ok r =>
    obtain ⟨_, c⟩ := r
    rw [hskip] at h
    change (programRow (depthBound (ts.length + 1)) c).map _ = _ at h
    cases hrow : programRow (depthBound (ts.length + 1)) c with
    | error e =>
      rw [hrow] at h
      cases h
    | ok r =>
      rw [hrow] at h
      obtain ⟨rfl, rfl⟩ := Prod.mk.inj (Except.ok.inj h)
      exact ⟨c, r.2, rfl, hrow, rfl⟩

theorem parseFrom_of_programRow {i : NodeId} {t : Token} {ts : List Token} {p : Program}
    {c d : Cursor} (hskip : skipNewlines ⟨t, t :: ts, i⟩ = .ok ((), c))
    (hrow : programRow (depthBound (ts.length + 1)) c = .ok (p, d)) :
    parseFrom i (t :: ts) = .ok (p, d.nextId) := by
  rw [parseFrom_cons, hskip]
  change (programRow (depthBound (ts.length + 1)) c).map _ = _
  rw [hrow]
  rfl

/-- No statement starts with `else`. -/
theorem statement_else {n : Nat} {last t : Token} {rest : List Token} {i : NodeId}
    (ht : t.kind = .kwElse) : ∃ e, statement n ⟨last, t :: rest, i⟩ = .error e := by
  cases n with
  | zero => exact ⟨_, rfl⟩
  | succ n =>
    have hskip : skipNewlines ⟨last, t :: rest, i⟩ = .ok ((), ⟨last, t :: rest, i⟩) := by
      rw [Reads.skipNewlines_eq]
      simp [dropNewlines, ht, Except.map]
    have hbarren : Cursor.Barren ⟨last, t :: rest, i⟩ := .inr ht
    have hassign : Cursor.atIndexAssignment ⟨last, t :: rest, i⟩ = false := by
      unfold Cursor.atIndexAssignment
      rw [hbarren.check (by decide)]
      rfl
    rw [statement, Reads.bind_ok hskip, Reads.get_bind]
    simp only [Cursor.peek, List.head?_cons, Option.getD_some, ht, hassign, Bool.false_eq_true,
      if_false]
    cases n with
    | zero => exact ⟨_, rfl⟩
    | succ n =>
      rw [expressionStatement, Reads.peek_bind]
      exact Reads.bind_error (expression_barren hbarren)

/-- A program that is read from a row with an end mark starts with something other than `else`. -/
theorem starts_of_parseFrom {i j : NodeId} {ts : List Token} {p : Program}
    (h : parseFrom i ts = .ok (p, j)) (hts : ∃ t ∈ ts, t.kind = .endMark) :
    ∃ t rest, ts.dropWhile (·.kind == .newline) = t :: rest ∧ t.kind ≠ .kwElse := by
  cases hdrop : ts.dropWhile (·.kind == .newline) with
  | nil =>
    obtain ⟨t, ht, hmark⟩ := hts
    have hall := List.dropWhile_eq_nil_iff.1 hdrop t ht
    simp [hmark] at hall
  | cons t rest =>
    refine ⟨t, rest, rfl, fun helse => ?_⟩
    cases ts with
    | nil => cases hdrop
    | cons u us =>
      obtain ⟨c, d, hskip, hrow, _⟩ := parseFrom_ok h
      obtain ⟨last, heq, _⟩ := Reads.dropNewlines_of_dropWhile (l := u) hdrop
      rw [Reads.skipNewlines_eq] at hskip
      dsimp only at hskip
      rw [heq] at hskip
      obtain rfl := (Prod.mk.inj (Except.ok.inj hskip)).2
      obtain ⟨s, _, c₁, _, htop, _⟩ := programRow_ok (by simp [Cursor.atEnd, Cursor.peek, helse]) hrow
      obtain ⟨e, he⟩ : ∃ e, statement (depthBound (us.length + 1)) ⟨last, t :: rest, i⟩ = .error e :=
        statement_else helse
      obtain ⟨e', he'⟩ := Reads.bind_error (k := fun s => do skipNewlines; return s) ⟨e, he⟩
      exact absurd (htop.symm.trans he') (by simp)

/-- Programs that have been read side by side from the number `i` on, or the same failure. -/
inductive Parsed (G : Reading) (i : Nat) :
    Except Failure (Program × NodeId) → Except Failure (Program × NodeId) → Prop
  | failed {e e' : Failure} : G.Failures e e' → Parsed G i (.error e) (.error e')
  | read {p p' : Program} {j : NodeId} : stmtsMade G.token G.shift i j p p' →
      Parsed G i (.ok (p, j)) (.ok (p', j + G.shift))

end Grammar

open Grammar

/-- Rows that correspond spell programs that correspond, or have the same fault. -/
theorem parseFrom_alike {token mark : Token → Token → Prop} (h : Matches token) (i : NodeId)
    (shift : Nat) {ts ts' : List Token} (hts : List.Forall₂ (Viewed token mark) ts ts') :
    Parsed (.throughout h mark shift True) i (parseFrom i ts) (parseFrom (i + shift) ts') := by
  have hrows := rows_throughout h shift True hts
  cases hts with
  | nil => exact .read (.nil (Nat.le_refl i))
  | @cons t t' us us' ht hus =>
    rw [parseFrom_cons, parseFrom_cons, ← hus.length_eq]
    have hc : (Reading.throughout h mark shift True).Step ⟨t, t :: us, i⟩
        ⟨t', t' :: us', i + shift⟩ :=
      ⟨hrows, fun h => h.elim (by simp) False.elim, (fun hj => by cases hj), rfl⟩
    have hskip := skipNewlines_parts (.inl hc)
    generalize skipNewlines ⟨t, t :: us, i⟩ = r, skipNewlines ⟨t', t' :: us', i + shift⟩ = r'
      at hskip
    cases hskip with
    | failed he =>
      obtain ⟨e', rfl, hee⟩ := he trivial
      exact .failed hee
    | escaped hesc => exact hesc.elim
    | @read _ _ c c' hc₁ hj =>
      obtain ⟨hc₁, _⟩ | hpast := hc₁
      swap
      · exact absurd hpast.lost (not_lost rfl)
      have hrow := programRow_makes (n := depthBound (us.length + 1)) rfl
        ⟨Nat.le_refl _, fun _ => rfl⟩ hc₁
      change Parsed _ i ((programRow _ c).map _) ((programRow _ c').map _)
      generalize programRow _ c = r, programRow _ c' = r' at hrow
      cases hrow with
      | failed he =>
        obtain ⟨e', rfl, hee⟩ := he trivial
        exact .failed hee
      | escaped hesc => exact hesc.elim
      | @read p p' d d' hd hp =>
        change Parsed _ i (.ok (p, d.nextId)) (.ok (p', d'.nextId))
        rw [hd.nextId]
        refine .read ?_
        rwa [hj] at hp

theorem viewed_self (ts : List Token) : List.Forall₂ (Viewed Eq fun _ _ => False) ts ts :=
  List.forall₂_same.2 fun _ _ => .inl rfl

/-- The nodes of a program are numbered from the number it was given up to the one it leaves. -/
theorem parseFrom_numbered {i j : NodeId} {ts : List Token} {p : Program}
    (h : parseFrom i ts = .ok (p, j)) : stmtsMade Eq 0 i j p p := by
  have hp := parseFrom_alike .eq i 0 (viewed_self ts)
  rw [Nat.add_zero, h] at hp
  cases hp with
  | read hmade => exact hmade

theorem forall₂_dropWhile {token : Token → Token → Prop} (h : Matches token)
    {ts ts' : List Token} (hts : List.Forall₂ token ts ts') :
    List.Forall₂ token (ts.dropWhile (·.kind == .newline))
      (ts'.dropWhile (·.kind == .newline)) := by
  induction hts with
  | nil => exact .nil
  | @cons t t' ts ts' ht hts ih =>
    rw [List.dropWhile_cons, List.dropWhile_cons, (h.same ht).1]
    split
    · exact ih
    · exact .cons ht hts

theorem starts_alike {token : Token → Token → Prop} (h : Matches token) {us us' : List Token}
    (hus : List.Forall₂ token us us')
    (hstarts : ∃ t rest, us.dropWhile (·.kind == .newline) = t :: rest ∧ t.kind ≠ .kwElse) :
    ∃ t rest, us'.dropWhile (·.kind == .newline) = t :: rest ∧ t.kind ≠ .kwElse := by
  obtain ⟨v, vs, hdrop, helse⟩ := hstarts
  have hdrops := forall₂_dropWhile h hus
  rw [hdrop] at hdrops
  generalize us'.dropWhile (·.kind == .newline) = ws at hdrops
  obtain _ | @⟨_, v', _, vs', hv, _⟩ := hdrops
  exact ⟨v', vs', rfl, by rwa [(h.same hv).1]⟩

/-- The bound for the joined row is large enough for both rows. -/
theorem joined_bounds {token : Token → Token → Prop} {ts ts' us us' tail tail' : List Token}
    {mark feed t t' : Token} (hts : List.Forall₂ token ts ts') (hus : List.Forall₂ token us us')
    (ht : ts ++ [mark] = t :: tail) (ht' : ts' ++ feed :: us' = t' :: tail') :
    depthBound (tail.length + 1) ≤ depthBound (tail'.length + 1) ∧
      depthBound us.length ≤ depthBound (tail'.length + 1) := by
  have h₁ := congrArg List.length ht
  have h₂ := congrArg List.length ht'
  have h₃ := hts.length_eq
  have h₄ := hus.length_eq
  simp only [List.length_append, List.length_cons, List.length_nil] at h₁ h₂
  unfold depthBound
  omega

/-- What comes later is read as it is by itself. -/
theorem programRow_later {token : Token → Token → Prop} (h : Matches token)
    {us us' rest : List Token} {t : Token}
    (hmore : us'.dropWhile (·.kind == .newline) = t :: rest) (hus : List.Forall₂ token us us')
    {n : Nat} (hn : depthBound us.length ≤ n) {d : Cursor} (hd : d.rest = t :: rest) {k : NodeId}
    {q : Program} (hq : parseFrom d.nextId us = .ok (q, k)) :
    ∃ q' e, programRow n d = .ok (q', e) ∧ e.nextId = k ∧ stmtsMade token 0 d.nextId k q q' := by
  have hdrops := forall₂_dropWhile h hus
  rw [hmore] at hdrops
  generalize hdrop : us.dropWhile (·.kind == .newline) = ws at hdrops
  obtain _ | @⟨v, _, vs, _, hv, hvs⟩ := hdrops
  cases us with
  | nil => cases hdrop
  | cons u us =>
    obtain ⟨c₂, d₂, hskip₂, hrow₂, hk⟩ := parseFrom_ok hq
    obtain ⟨last, heq, _⟩ := Reads.dropNewlines_of_dropWhile (l := u) hdrop
    rw [Reads.skipNewlines_eq] at hskip₂
    dsimp only at hskip₂
    rw [heq] at hskip₂
    obtain rfl := (Prod.mk.inj (Except.ok.inj hskip₂)).2
    have hstep : (Reading.throughout h (fun _ _ => False) 0 False).Step ⟨last, v :: vs, d.nextId⟩ d := by
      refine ⟨?_, fun h => h.elim (by simp) False.elim, (fun hj => by cases hj), rfl⟩
      rw [hd]
      exact rows_throughout h 0 False (.cons (.inl hv) (hvs.imp fun _ _ => .inl))
    rw [List.length_cons] at hn
    have hmakes := programRow_makes rfl ⟨hn, False.elim⟩ hstep
    dsimp only at hrow₂
    rw [hrow₂] at hmakes
    generalize hrow' : programRow n d = r at hmakes
    obtain _ | hesc | @⟨_, q', _, e, he, hmade⟩ := hmakes
    · exact hesc.elim
    rw [hk] at hmade
    exact ⟨q', e, rfl, he.nextId.trans hk, hmade⟩

/-- A row that spells a program, a line feed and more: the statements of the program come first, and
the rest is read from where it starts. -/
theorem parseFrom_behind {token : Token → Token → Prop} (h : Matches token) (shift : Nat)
    {ts ts' more rest : List Token} {mark feed t : Token} {i j : NodeId} {p : Program}
    (hts : List.Forall₂ token ts ts') (hmark : mark.kind = .endMark) (hfeed : feed.kind = .newline)
    (hinner : ∀ t ∈ ts, t.kind ≠ .endMark)
    (hmore : more.dropWhile (·.kind == .newline) = t :: rest) (hapart : Apart token t)
    (hp : parseFrom i (ts ++ [mark]) = .ok (p, j)) (hfin : Filled p) :
    ∃ p' d, stmtsMade token shift i j p p' ∧ d.rest = t :: rest ∧ d.nextId = j + shift ∧
      parseFrom (i + shift) (ts' ++ feed :: more) =
        (programRow (depthBound (ts' ++ feed :: more).length) d).map fun r =>
          (p' ++ r.1, r.2.nextId) := by
  have hjoint : feed.kind ∈ joints := by simp [hfeed, joints]
  -- the first row, and what corresponds to it in the longer row
  obtain ⟨u, tail, hu⟩ := List.exists_cons_of_ne_nil (List.append_ne_nil_of_right_ne_nil ts
    (List.cons_ne_nil mark []))
  obtain ⟨u', tail', hu'⟩ := List.exists_cons_of_ne_nil (List.append_ne_nil_of_right_ne_nil ts'
    (List.cons_ne_nil feed more))
  have hbound : depthBound (tail.length + 1) ≤ depthBound (tail'.length + 1) := by
    have h₁ := congrArg List.length hu
    have h₂ := congrArg List.length hu'
    have h₃ := hts.length_eq
    simp only [List.length_append, List.length_cons, List.length_nil] at h₁ h₂
    unfold depthBound
    omega
  have hrows := rows_joining h shift hjoint hmore hapart hts hinner hmark
  rw [hu, hu'] at hrows
  rw [hu] at hp
  obtain ⟨c, d, hskip, hrow, rfl⟩ := parseFrom_ok hp
  have hstart : (Reading.joining h shift hjoint hmore hapart).Step ⟨u, u :: tail, i⟩
      ⟨u', u' :: tail', i + shift⟩ :=
    ⟨hrows, fun h => h.elim (by simp) fun hj => absurd (hfeed.symm.trans hj) (by simp),
      fun hj => absurd (hfeed.symm.trans hj) (by simp), rfl⟩
  have hparts := skipNewlines_parts (.inl hstart)
  rw [hskip] at hparts
  generalize hskip' : skipNewlines ⟨u', u' :: tail', i + shift⟩ = r' at hparts
  obtain _ | hesc | @⟨_, _, _, c', hc, hi⟩ := hparts
  · exact hesc.elim
  obtain ⟨p', d', hd, hmade, hrest⟩ :=
    programRow_goesOn rfl hfeed ⟨hbound, False.elim⟩ hc hrow hfin
  refine ⟨p', d', ?_, ?_, hd.nextId, ?_⟩
  · rw [hi] at hmade
    exact hmade
  · exact (hd.dropped rfl).symm.trans hmore
  · rw [hu', List.length_cons, parseFrom_cons, hskip']
    change (programRow _ c').map _ = _
    rw [hrest]
    cases programRow (depthBound (tail'.length + 1)) d' <;> rfl

/-- Two programs that can be read by themselves can be read one after the other, with a line feed
between them, if the first has no empty statement inside. -/
theorem parseFrom_append {token : Token → Token → Prop} (h : Matches token)
    {ts ts' us us' : List Token} {mark feed : Token} {i j k : NodeId} {p q : Program}
    (hts : List.Forall₂ token ts ts') (hus : List.Forall₂ token us us')
    (hmark : mark.kind = .endMark) (hfeed : feed.kind = .newline)
    (hinner : ∀ t ∈ ts, t.kind ≠ .endMark) (hends : ∃ t ∈ us, t.kind = .endMark)
    (hp : parseFrom i (ts ++ [mark]) = .ok (p, j)) (hq : parseFrom j us = .ok (q, k))
    (hfin : Filled p) :
    ∃ p' q', parseFrom i (ts' ++ feed :: us') = .ok (p' ++ q', k) ∧
      stmtsMade token 0 i j p p' ∧ stmtsMade token 0 j k q q' := by
  obtain ⟨v', vs', hdrop', helse'⟩ := starts_alike h hus (starts_of_parseFrom hq hends)
  obtain ⟨p', d, hmade, hd, hid, hparse⟩ := parseFrom_behind h 0 hts hmark hfeed hinner hdrop'
    (apart_of_ne helse') hp hfin
  have hbound : depthBound us.length ≤ depthBound (ts' ++ feed :: us').length := by
    have := hus.length_eq
    simp only [List.length_append, List.length_cons]
    unfold depthBound
    omega
  rw [Nat.add_zero] at hid
  rw [← hid] at hq
  obtain ⟨q', e, hrow, rfl, hmade₂⟩ := programRow_later h hdrop' hus hbound hd hq
  rw [hid] at hmade₂
  rw [Nat.add_zero, hrow] at hparse
  exact ⟨p', q', hparse, hmade, hmade₂⟩

end ScopedScript
