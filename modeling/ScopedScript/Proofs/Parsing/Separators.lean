import Mathlib
import ScopedScript.Proofs.Parsing.Endings
import ScopedScript.Proofs.Parsing.Identity

/-! # Semicolons and line feeds between statements

Two statements that can each be read by themselves can be read one after the other, with a line
feed between them.  With a semicolon between them that depends on how the first one ends
(`separators_between_statements`): a statement that takes a separator takes the semicolon, but after
one that is closed by a brace the semicolon would have to start the next statement, and no
statement starts with one.

The reading of the joined row goes in step with the reading of the first statement.  Whether it has
taken the semicolon with that statement shows in the token it has taken last: the first row ends
with no separator of its own. -/

namespace ScopedScript

namespace Grammar

/-! ### A semicolon where a statement should start -/

section

variable {c : Cursor} (n : Nat)

theorem bind_error_eq {α β : Type} {x : Parse α} {k : α → Parse β} {e : Failure}
    (h : x c = .error e) : (x >>= k) c = .error e := by
  change (x c >>= fun p => k p.1 p.2) = _
  rw [h]
  rfl

/-- What is reported at a token where an expression should start. -/
def noExpression (t : Token) : Failure := .rejected ⟨.expected .expression, t⟩

theorem primary_semicolon (h : c.peek.kind = .semicolon) :
    primary (n + 1) c = .error (noExpression c.peek) := by
  rw [primary, Reads.get_bind, h]
  rfl

theorem unary_semicolon (h : c.peek.kind = .semicolon) :
    unary (n + 2) c = .error (noExpression c.peek) := by
  have hcheck : ¬[Token.Kind.not, .minus].any c.check = true := by simp [Cursor.check, h]
  rw [unary, Reads.bind_ok (Reads.acceptAny_of_not_check hcheck)]
  exact bind_error_eq (primary_semicolon n h)

theorem binary_semicolon (h : c.peek.kind = .semicolon) (levels : List (List Token.Kind)) :
    binary (n + 3 + levels.length) levels c = .error (noExpression c.peek) := by
  induction levels with
  | nil => exact unary_semicolon n h
  | cons operators levels ih =>
    rw [List.length_cons, ← Nat.add_assoc, binary]
    exact bind_error_eq ih

theorem statement_semicolon (h : c.peek.kind = .semicolon) :
    statement (n + 12) c = .error (noExpression c.peek) := by
  have hskip : skipNewlines c = .ok ((), c) := by
    obtain ⟨last, rest, nextId⟩ := c
    rw [Reads.skipNewlines_eq]
    cases rest with
    | nil =>
      replace h : last.kind = .semicolon := h
      simp [dropNewlines, h, Except.map]
    | cons t rest =>
      replace h : t.kind = .semicolon := h
      simp [dropNewlines, h, Except.map]
  have hassign : c.atIndexAssignment = false := by simp [Cursor.atIndexAssignment, Cursor.check, h]
  have hexpr : expression (n + 10) c = .error (noExpression c.peek) := by
    rw [expression]
    exact bind_error_eq (binary_semicolon n h binaryLevels)
  rw [statement, Reads.bind_ok hskip, Reads.get_bind, h]
  simp only [hassign, Bool.false_eq_true, if_false]
  rw [expressionStatement, Reads.peek_bind]
  exact bind_error_eq hexpr

end

/-! ### A semicolon after a statement -/

section

variable {G : Reading} {more : List Token} {c c' : Cursor}

/-- If only line feeds are left before the end mark, there are none. -/
theorem rows_tidy {ts ts' : List Token} (hmore : G.later = some more) (h : G.Rows ts ts')
    {last last' : Token} {rest : List Token} {i : NodeId} (htidy : Tidy (last :: ts))
    (hdrop : dropNewlines last ts = .ok (last', rest))
    (hend : Cursor.atEnd ⟨last', rest, i⟩ = true) :
    ∃ mark, ts = [mark] ∧ mark.kind = .endMark := by
  induction h generalizing last with
  | nil hnone =>
    rw [hnone] at hmore
    cases hmore
  | mark _ hmark => exact ⟨_, rfl, hmark⟩
  | @cons t t' ts ts' _ hne _ ih =>
    have hmark : t.kind ≠ .endMark := hne (by rw [hmore]; exact Option.some_ne_none _)
    rw [dropNewlines] at hdrop
    split at hdrop
    · next hfeed =>
      obtain ⟨mark, rfl, _⟩ := ih htidy.tail hdrop
      exact absurd (hfeed ▸ List.mem_cons_self) (htidy [last] t mark rfl)
    · obtain ⟨rfl, rfl⟩ := Prod.mk.inj (Except.ok.inj hdrop)
      exact absurd (by simpa [Cursor.atEnd, Cursor.peek] using hend) hmark

/-- Where the first row is at its end, the second has the joint in view. -/
theorem joint_in_view (hlost : G.Lost c) (hc : G.Step c c') :
    ∃ more, c'.rest = G.joint :: more ∧ G.later = some more := by
  obtain ⟨⟨more, hmore⟩, mark, hrest, hmark⟩ := hlost
  have hrows := hc.rows
  rw [hrest] at hrows
  generalize hrest' : c'.rest = rest' at hrows
  cases hrows with
  | mark hmore' _ => exact ⟨_, rfl, hmore'⟩
  | cons _ hne _ => exact absurd hmark (hne (by rw [hmore]; exact Option.some_ne_none _))

end


section

variable {G : Reading} {more : List Token} {n n' : Nat} {c c₀ c₀' c' : Cursor} {s : Stmt}

/-- A statement that takes a separator takes the semicolon. -/
theorem over_of_takesSeparator (hjoint : G.joint.kind = .semicolon) (htaken : G.taken)
    (hc : Ended G c₀ c₀') (hlost : G.Lost c₀) (hs : s.takesSeparator = true)
    (hfin : Finished s c₀') : G.Over c₀ c₀' := by
  rcases hc with hc | hover
  swap
  · exact hover
  exfalso
  obtain ⟨more, hrest', _⟩ := joint_in_view hlost hc
  have hview : c₀'.peek.kind = .semicolon := by simp [Cursor.peek, hrest', hjoint]
  obtain ⟨_, mark, hrest, _⟩ := hlost
  -- the token last taken is the last one of the first row, which is no separator
  have hlast : c₀.last.kind ∉ joints := by
    have htidy := hc.tidy hjoint
    rw [hrest] at htidy
    exact htidy [] c₀.last mark rfl
  rcases hfin.separated hs with hsep | hend | hbrace
  · exact hlast (Reading.kind_eq (hc.last (.inr htaken)) ▸ hsep)
  · simp [Cursor.atEnd, hview] at hend
  · simp [Cursor.check, hview] at hbrace

/-- A statement that is closed by a brace leaves the semicolon in view. -/
theorem step_of_closed (hc : Ended G c₀ c₀') (hs : s.takesSeparator = false)
    (hunf : ¬s.Unfinished) (hfin : Finished s c₀') : G.Step c₀ c₀' := by
  rcases hc with hc | hover
  · exact hc
  rcases hfin.closed hs with hclose | h
  · have hdisjoint : ∀ kind ∈ joints, kind ∉ closers := by decide
    exact absurd hclose (hdisjoint _ hover.last)
  · exact absurd h hunf

/-- A program of one statement: what is left behind the statement is line feeds. -/
theorem programRow_single {d : Cursor} (h : programRow n c = .ok ([s], d)) :
    c.atEnd = false ∧ d.atEnd = true ∧ d.rest.length < c.rest.length ∧
      ∃ c₀, statement n c = .ok (s, c₀) ∧ skipNewlines c₀ = .ok ((), d) := by
  have hend : c.atEnd = false := by
    cases hend : c.atEnd with
    | true =>
      rw [programRow_atEnd hend] at h
      cases h
    | false => rfl
  obtain ⟨_, ss, c₁, heq, htop, hlt, hss⟩ := programRow_ok hend h
  obtain ⟨rfl, rfl⟩ := List.cons.inj heq
  have hend₁ : c₁.atEnd = true := by
    by_contra hne
    obtain ⟨_, _, _, hnil, _⟩ := programRow_ok (Bool.eq_false_iff.2 hne) hss
    cases hnil
  obtain rfl : c₁ = d := by
    rw [programRow_atEnd hend₁] at hss
    exact (Prod.mk.inj (Except.ok.inj hss)).2
  obtain ⟨_, c₀, hstmt, hrest⟩ := bind_eq_ok htop
  obtain ⟨_, c₂, hskip, hret⟩ := bind_eq_ok hrest
  obtain ⟨rfl, rfl⟩ := Prod.mk.inj (Except.ok.inj hret)
  exact ⟨hend, hend₁, hlt, c₀, hstmt, hskip⟩

/-- Behind a statement that is all of a tidy row, there is nothing to skip. -/
theorem lost_behind {d : Cursor} (hmore : G.later = some more) (hjoint : G.joint.kind = .semicolon)
    (hc : Ended G c₀ c₀') (hskip : skipNewlines c₀ = .ok ((), d)) (hend : d.atEnd = true) :
    G.Lost c₀ ∧ d = c₀ := by
  have hlost : G.Lost c₀ := by
    rcases hc with hstep | hover
    swap
    · exact hover.lost
    rw [Reads.skipNewlines_eq] at hskip
    cases hdrop : dropNewlines c₀.last c₀.rest with
    | error e =>
      rw [hdrop] at hskip
      cases hskip
    | ok p =>
      rw [hdrop] at hskip
      obtain rfl := (Prod.mk.inj (Except.ok.inj hskip)).2
      obtain ⟨mark, hrest, hmark⟩ := rows_tidy hmore hstep.rows (hstep.tidy hjoint) hdrop hend
      exact ⟨⟨more, hmore⟩, mark, hrest, hmark⟩
  refine ⟨hlost, ?_⟩
  rw [Reads.skipNewlines_lost hlost] at hskip
  exact (Prod.mk.inj (Except.ok.inj hskip)).2.symm

/-- One statement that is all of the first row, as it is read from the second row. -/
theorem statement_alone {d : Cursor} (hmore : G.later = some more) (hjoint : G.joint.kind = .semicolon)
    (hb : G.Bounds n n') (hc : G.Step c c') (h : programRow n c = .ok ([s], d))
    (hunf : ¬s.Unfinished) :
    ∃ s' d', s.Made G.token G.shift c.nextId d.nextId s' ∧ statement n' c' = .ok (s', d') ∧
      Ended G d d' ∧ G.Lost d ∧ c'.atEnd = false ∧
      d.rest.length + more.length < c'.rest.length := by
  obtain ⟨hend, hend₁, hlt, c₀, hstmt, hskip⟩ := programRow_single h
  have hread := (productionsMake G hb).statement hc
  rw [hstmt] at hread
  generalize hstmt' : statement n' c' = r' at hread
  obtain _ | ⟨_, hesc⟩ | @⟨_, s', _, c₀', hended, hmade⟩ := hread
  · exact absurd hesc hunf
  obtain ⟨hlost, rfl⟩ := lost_behind hmore hjoint hended hskip hend₁
  refine ⟨s', c₀', hmade, rfl, hended, hlost, (hc.view hend).2.1, ?_⟩
  have hlen := rows_length hmore hc.rows
  omega

/-- The second row goes on behind a semicolon that the statement has taken. -/
theorem programRow_taken {d d' : Cursor} (hmore : G.later = some more) (hover : G.Over d d')
    (hend : c'.atEnd = false) (hlen : d.rest.length + more.length < c'.rest.length)
    (hstmt : statement n' c' = .ok (s, d')) :
    ∃ e', G.Past d e' ∧ ∀ q e, programRow n' e' = .ok (q, e) →
      programRow n' c' = .ok (s :: q, e) := by
  have hskip := Reads.skipNewlines_over hover
  rw [Reads.skipNewlines_lost hover.lost] at hskip
  generalize hr : skipNewlines d' = r at hskip
  obtain _ | hesc | @⟨_, _, _, e', hpast, _⟩ := hskip
  · exact hesc.elim
  refine ⟨e', hpast, fun q e hq => ?_⟩
  have htop : topStatement n' c' = .ok (s, e') := by
    unfold topStatement
    rw [Reads.bind_ok hstmt, Reads.bind_ok hr]
    rfl
  have hlt : e'.rest.length < c'.rest.length := by
    obtain ⟨feeds, _, hlater⟩ := hpast.rest
    obtain rfl := Option.some.inj (hmore.symm.trans hlater)
    simp only [List.length_append] at hlen
    omega
  rw [programRow_cons hend htop hlt, hq]
  rfl

/-- The second row cannot go on at a semicolon that the statement has left. -/
theorem programRow_refused {d d' : Cursor} (hmore : G.later = some more)
    (hjoint : G.joint.kind = .semicolon) (hlost : G.Lost d) (hstep : G.Step d d')
    (hend : c'.atEnd = false) (hlen : d.rest.length + more.length < c'.rest.length)
    (hstmt : statement (n' + 12) c' = .ok (s, d')) :
    programRow (n' + 12) c' = .error (noExpression G.joint) := by
  obtain ⟨more', hrest, hmore'⟩ := joint_in_view hlost hstep
  obtain rfl := Option.some.inj (hmore.symm.trans hmore')
  have hpeek : d'.peek = G.joint := by simp [Cursor.peek, hrest]
  have hview : d'.peek.kind = .semicolon := by rw [hpeek, hjoint]
  have hskip : skipNewlines d' = .ok ((), d') := by
    obtain ⟨last', rest', nextId'⟩ := d'
    obtain rfl : rest' = G.joint :: more := hrest
    rw [Reads.skipNewlines_eq]
    simp [dropNewlines, hjoint, Except.map]
  have htop : topStatement (n' + 12) c' = .ok (s, d') := by
    unfold topStatement
    rw [Reads.bind_ok hstmt, Reads.bind_ok hskip]
    rfl
  have hlt : d'.rest.length < c'.rest.length := by
    have := rows_length hmore hstep.rows
    omega
  have hnext : programRow (n' + 12) d' = .error (noExpression d'.peek) :=
    programRow_error (by simp [Cursor.atEnd, hview]) (bind_error_eq (statement_semicolon n' hview))
  rw [programRow_cons hend htop hlt, hnext, hpeek]
  rfl

end

end Grammar

open Grammar

/-! ### Programs of one statement -/

section

variable {ts us : List Token} {t mark feed : Token} {i j k : NodeId} {a : Stmt} {q : Program}

theorem tidy_of_last (hne : ts ≠ []) (h : ∀ u, ts.getLast? = some u → u.kind ∉ joints) :
    Tidy (t :: (ts ++ [mark])) := by
  intro pre u v heq
  have hsplit : (t :: ts) ++ [mark] = (pre ++ [u]) ++ [v] := by simpa using heq
  have hpre : t :: ts = pre ++ [u] := (List.append_inj' hsplit rfl).1
  refine h u ?_
  rw [← List.getLast?_cons_of_ne_nil hne, hpre, List.getLast?_concat]

/-- The end mark alone is no statement. -/
theorem parseFrom_mark_ne (hmark : mark.kind = .endMark) : parseFrom i [mark] ≠ .ok ([a], j) := by
  intro h
  obtain ⟨c, d, hskip, hrow, _⟩ := parseFrom_ok h
  rw [Reads.skipNewlines_eq] at hskip
  simp only [dropNewlines, hmark] at hskip
  obtain rfl := (Prod.mk.inj (Except.ok.inj hskip)).2
  rw [programRow_atEnd (by simp [Cursor.atEnd, Cursor.peek, hmark])] at hrow
  cases hrow

/-- A semicolon between two programs, the first of which is one statement: it separates them if the
statement takes it, and stands in the way otherwise. -/
theorem parseFrom_semicolon (hmark : mark.kind = .endMark) (hfeed : feed.kind = .semicolon)
    (hinner : ∀ t ∈ ts, t.kind ≠ .endMark) (htidy : ∀ t, ts.getLast? = some t → t.kind ∉ joints)
    (hends : ∃ t ∈ us, t.kind = .endMark) (hp : parseFrom i (ts ++ [mark]) = .ok ([a], j))
    (hq : parseFrom j us = .ok (q, k)) (hempty : ¬a.Unfinished) :
    parseFrom i (ts ++ feed :: us) =
      if a.takesSeparator then .ok (a :: q, k) else .error (noExpression feed) := by
  have hjoint : feed.kind ∈ joints := by simp [hfeed, joints]
  obtain ⟨v, vs, hdrop, helse⟩ := starts_of_parseFrom hq hends
  have hapart : Apart Eq v := apart_of_ne helse
  have hts : List.Forall₂ Eq ts ts := List.forall₂_same.2 fun _ _ => rfl
  have hus : List.Forall₂ Eq us us := List.forall₂_same.2 fun _ _ => rfl
  have hne : ts ≠ [] := by
    rintro rfl
    exact parseFrom_mark_ne hmark hp
  obtain ⟨t, tail, ht⟩ := List.exists_cons_of_ne_nil (List.append_ne_nil_of_left_ne_nil hne [mark])
  obtain ⟨t', tail', ht'⟩ :=
    List.exists_cons_of_ne_nil (List.append_ne_nil_of_left_ne_nil hne (feed :: us))
  obtain rfl : t' = t := by
    obtain ⟨u, us', rfl⟩ := List.exists_cons_of_ne_nil hne
    rw [← (List.cons.inj ht).1, ← (List.cons.inj ht').1]
  obtain ⟨hbound, hbound₂⟩ := joined_bounds hts hus ht ht'
  have hrows := rows_joining .eq 0 hjoint hdrop hapart hts hinner hmark
  have htidy' : Tidy (t' :: (ts ++ [mark])) := tidy_of_last hne htidy
  rw [ht] at hp htidy'
  rw [ht, ht'] at hrows
  obtain ⟨c, d, hskip, hrow, rfl⟩ := parseFrom_ok hp
  have hstart : (Reading.joining .eq 0 hjoint hdrop hapart).Step ⟨t', t' :: tail, i⟩
      ⟨t', t' :: tail', i⟩ := ⟨hrows, fun _ => rfl, fun _ => htidy', rfl⟩
  have hparts := skipNewlines_parts (.inl hstart)
  rw [hskip] at hparts
  generalize hskip' : skipNewlines ⟨t', t' :: tail', i⟩ = r' at hparts
  obtain _ | hesc | @⟨_, _, _, c', hc, hi⟩ := hparts
  · exact hesc.elim
  obtain ⟨hc, _⟩ | hpast := hc
  swap
  · exact absurd (hpast.lost.atEnd.symm.trans (programRow_single hrow).1) (by simp)
  obtain ⟨a', d', hmade, hstmt, hended, hlost, hend, hlen⟩ :=
    statement_alone rfl hfeed ⟨hbound, False.elim⟩ hc hrow hempty
  obtain rfl : a' = a := Stmt.Alike.eq (shifting_identifies Eq.symm) a (hmade true .top).1
  rw [ht']
  have hfinished := statement_finished _ hstmt
  cases hs : a'.takesSeparator with
  | true =>
    have hover := over_of_takesSeparator hfeed hfeed hended hlost hs hfinished
    obtain ⟨e', hpast, hrest⟩ := programRow_taken rfl hover hend hlen hstmt
    have hid : e'.nextId = d.nextId := hpast.nextId
    rw [← hid] at hq
    obtain ⟨q', e, hrow', rfl, hmade₂⟩ :=
      programRow_later .eq hdrop hus hbound₂ ((hpast.dropped rfl).symm.trans hdrop) hq
    obtain rfl := stmtsMade_eq hmade₂
    rw [if_pos rfl]
    exact parseFrom_of_programRow hskip' (hrest q' e hrow')
  | false =>
    have hstep := step_of_closed hended hs hempty hfinished
    obtain ⟨n', hn'⟩ : ∃ n', depthBound (tail'.length + 1) = n' + 12 :=
      ⟨depthBound (tail'.length + 1) - 12, by unfold depthBound; omega⟩
    rw [hn'] at hstmt
    have herror := programRow_refused rfl hfeed hlost hstep hend hlen hstmt
    rw [if_neg (by simp), parseFrom_cons, hskip', hn']
    change (programRow (n' + 12) c').map _ = _
    rw [herror]
    rfl

end

/-! ### Separators between two statements -/

theorem parse_ok {ts : List Token} {p : Program} (h : parse ts = .ok p) :
    ∃ j, parseFrom 0 ts = .ok (p, j) := by
  unfold parse at h
  cases hp : parseFrom 0 ts with
  | error e =>
    rw [hp] at h
    cases h
  | ok r =>
    rw [hp] at h
    obtain rfl : r.1 = p := Except.ok.inj h
    exact ⟨r.2, rfl⟩

theorem parse_of_parseFrom {ts : List Token} {r : Except Failure (Program × NodeId)}
    (h : parseFrom 0 ts = r) : parse ts = r.map Prod.fst := by
  rw [parse, h]

/-- A statement that can be read by itself can be read after any others, with other numbers. -/
theorem parseFrom_renumbered {us : List Token} {b : Stmt} {k : NodeId}
    (h : parseFrom 0 us = .ok ([b], k)) (j : NodeId) :
    ∃ b', stmtsMade Eq j 0 k [b] [b'] ∧ parseFrom j us = .ok ([b'], k + j) := by
  have hb := parseFrom_alike .eq 0 j (viewed_self us)
  rw [h, Nat.zero_add] at hb
  generalize hr : parseFrom j us = r at hb
  obtain _ | @⟨_, q, _, hmade⟩ := hb
  obtain ⟨b', rest, rfl, _, hrest⟩ := (hmade true .top).1
  obtain rfl : rest = [] := hrest
  exact ⟨b', hmade, rfl⟩

/-- Two rows that each spell one statement spell the two statements with a line feed between them.
A semicolon does the same where the first statement takes it, and is refused as the start of an
expression where that one is closed by a brace. -/
theorem separators_between_statements {ts us : List Token} {mark mark' feed semi : Token}
    {a b : Stmt} (hmark : mark.kind = .endMark) (hmark' : mark'.kind = .endMark)
    (hfeed : feed.kind = .newline) (hsemi : semi.kind = .semicolon)
    (hinner : ∀ t ∈ ts, t.kind ≠ .endMark)
    (hlast : ∀ t, ts.getLast? = some t → t.kind ≠ .newline ∧ t.kind ≠ .semicolon)
    (ha : parse (ts ++ [mark]) = .ok [a]) (hb : parse (us ++ [mark']) = .ok [b])
    (hempty : ∀ r ∈ Program.places [a], r.node ≠ .stmt .empty) :
    ∃ b' shift k, stmtsMade Eq shift 0 k [b] [b'] ∧
      parse (ts ++ feed :: (us ++ [mark'])) = .ok [a, b'] ∧
      parse (ts ++ semi :: (us ++ [mark'])) =
        if a.takesSeparator then .ok [a, b'] else .error (noExpression semi) := by
  obtain ⟨j, hp⟩ := parse_ok ha
  obtain ⟨k, hq⟩ := parse_ok hb
  obtain ⟨b', hmade, hq'⟩ := parseFrom_renumbered hq j
  have hends : ∃ t ∈ us ++ [mark'], t.kind = .endMark := ⟨mark', by simp, hmark'⟩
  refine ⟨b', j, k, hmade, ?_, ?_⟩
  · obtain ⟨p', q', hnewline, hp', hq''⟩ := parseFrom_append .eq
      (List.forall₂_same.2 fun _ _ => rfl) (List.forall₂_same.2 fun _ _ => rfl)
      hmark hfeed hinner hends hp hq' (filled_of_places hempty)
    obtain rfl := stmtsMade_eq hp'
    obtain rfl := stmtsMade_eq hq''
    exact parse_of_parseFrom hnewline
  · have hunf : ¬a.Unfinished := fun h => by
      obtain ⟨r, hr, hre⟩ := unfinished_stmts h List.mem_cons_self true .top
      exact hempty r hr hre
    have hsemicolon := parseFrom_semicolon hmark hsemi hinner
      (fun t ht => by simpa [joints] using hlast t ht) hends hp hq' hunf
    rw [parse_of_parseFrom hsemicolon]
    split <;> rfl

/-- A token of which only the kind matters. -/
def Token.plain (kind : Token.Kind) (lexeme : String) : Token := ⟨kind, lexeme, 0, 0, 0, 0, none⟩

set_option maxRecDepth 100000 in
/-- A block between braces does not take the semicolon that follows it. -/
theorem block_refuses_semicolon :
    ∃ a b b' : Stmt, a.takesSeparator = false ∧
      parse [.plain .leftBrace "\x7b", .plain .name "x", .plain .rightBrace "\x7d",
        .plain .newline "\n", .plain .name "y", .plain .endMark ""] = .ok [a, b'] ∧
      parse [.plain .leftBrace "\x7b", .plain .name "x", .plain .rightBrace "\x7d",
        .plain .semicolon ";", .plain .name "y", .plain .endMark ""] =
        .error (noExpression (.plain .semicolon ";")) ∧
      parse [.plain .name "y", .plain .endMark ""] = .ok [b] := by
  have ha : parse ([.plain .leftBrace "\x7b", .plain .name "x", .plain .rightBrace "\x7d"] ++
      [.plain .endMark ""]) = .ok [.block [.expression (.name 0 (.plain .name "x"))
        (.plain .name "x")]] := by cbv
  have hb : parse ([.plain .name "y"] ++ [.plain .endMark ""]) =
      .ok [.expression (.name 0 (.plain .name "y")) (.plain .name "y")] := by cbv
  obtain ⟨b', _, _, _, hnewline, hsemicolon⟩ := separators_between_statements rfl rfl
    (rfl : (Token.plain .newline "\n").kind = .newline)
    (rfl : (Token.plain .semicolon ";").kind = .semicolon) (by decide) (by decide) ha hb
    (by simp [Program.places, stmtsPlaces, Stmt.places, Expr.places])
  exact ⟨_, _, b', rfl, hnewline, hsemicolon, hb⟩

end ScopedScript
