import ScopedScript.Proofs.Parsing.Separators
import ScopedScript.Proofs.Parsing.Locality
import ScopedScript.Proofs.Sessions.Origins

/-! # Programs behind programs

A row of tokens, a line feed and another row are read like the two rows by themselves, if the first
row is a program without an empty statement.  The statements come one after the other, and the second
row is numbered from where the first one leaves off; if it has a fault, so have both together, the
same one at the same token.

What could cross the seam is an `else`, which goes on from an `if` at the end of the first row.  So
the second row must not start with `else`, or there is no `if` in the first one; the latter holds
of the prelude (`Seam`).

* In the row for both, productions may be deeper, and the token last taken at the start of the
  second one is another.  Neither makes a difference (`programRow_deeper`).
* `parse_across_seam` says this for rows of tokens and for a session that has still to run the
  prelude. -/

namespace ScopedScript

namespace Grammar

/-! ### The second row -/

/-- A larger bound, and another token last taken, make no difference to what has been read. -/
theorem programRow_deeper {n n' : Nat} (hn : n ≤ n') {c d : Cursor} (hrest : d.rest = c.rest)
    (hid : d.nextId = c.nextId) (hends : ∃ t ∈ c.rest, t.kind = .endMark)
    (hover : programRow n c ≠ .error .outOfFuel) :
    (programRow n' d).map (fun r => (r.1, r.2.nextId)) =
      (programRow n c).map fun r => (r.1, r.2.nextId) := by
  obtain ⟨last, rest, nextId⟩ := c
  obtain ⟨last', rest', nextId'⟩ := d
  dsimp only at hrest hid hends
  subst hrest hid
  have hne : rest' ≠ [] := by
    obtain ⟨t, ht, -⟩ := hends
    exact List.ne_nil_of_mem ht
  -- first the token last taken, then the bound
  have hstep : (Reading.throughout .eq (fun _ _ => False) 0 True).Step ⟨last, rest', nextId'⟩
      ⟨last', rest', nextId'⟩ :=
    ⟨rows_throughout .eq 0 True (viewed_self rest'), fun h => h.elim (absurd · hne) False.elim,
      (fun hj => by cases hj), rfl⟩
  have hmakes := programRow_makes (n := n) rfl ⟨Nat.le_refl _, fun _ => rfl⟩ hstep
  obtain ⟨behind, hrows⟩ := sameToMark_self hends
  have hechoes := programRow_echoes (H := ⟨fun _ => True, behind, behind⟩) hn
    ⟨last', rest', nextId'⟩ ⟨last', rest', nextId'⟩ ⟨hrows, trivial, rfl, rfl⟩
  generalize programRow n ⟨last, rest', nextId'⟩ = r at hmakes hover ⊢
  generalize programRow n ⟨last', rest', nextId'⟩ = r₁ at hmakes hechoes
  generalize programRow n' ⟨last', rest', nextId'⟩ = r₂ at hechoes ⊢
  cases hmakes with
  | @failed e r' he =>
    obtain ⟨e', rfl, hee⟩ := he trivial
    cases hee with
    | outOfRange => cases hechoes
    | outOfFuel => exact absurd rfl hover
    | rejected fault ht =>
      cases hechoes with
      | rejected _ =>
        obtain rfl | ⟨-, -, hnone⟩ := ht
        · rfl
        · exact hnone.elim
  | escaped h => exact h.elim
  | @read p p' c₁ c₁' hc₁ hmade =>
    obtain rfl := stmtsMade_eq hmade
    cases hechoes with
    | tree hc₂ =>
      change Except.ok (_, _) = Except.ok (_, _)
      rw [hc₂.nextId, hc₁.nextId]
      rfl

/-- A program by itself, from the first token on that is no line feed. -/
theorem parseFrom_dropped {i : NodeId} {ts rest : List Token} {t : Token}
    (hdrop : ts.dropWhile (·.kind == .newline) = t :: rest) : ∃ last n, n = depthBound ts.length ∧
      parseFrom i ts = (programRow n ⟨last, t :: rest, i⟩).map fun r => (r.1, r.2.nextId) := by
  cases ts with
  | nil => cases hdrop
  | cons u us =>
    obtain ⟨last, heq, _⟩ := Reads.dropNewlines_of_dropWhile (l := u) hdrop
    refine ⟨last, _, rfl, ?_⟩
    rw [parseFrom_cons, Reads.skipNewlines_eq]
    dsimp only
    rw [heq]
    rfl

end Grammar

open Grammar

/-- No `else` goes on from the first row: the second does not start with one, or there is no `if`. -/
def Seam (ts us : List Token) : Prop :=
  (∀ t rest, us.dropWhile (·.kind == .newline) = t :: rest → t.kind ≠ .kwElse) ∨
    ∀ t ∈ ts, t.kind ≠ .kwIf

/-- A row that spells a program, a line feed and another row are read one after the other. -/
theorem parseFrom_seam {ts us : List Token} {mark feed : Token} {i j : NodeId} {p : Program}
    (hmark : mark.kind = .endMark) (hfeed : feed.kind = .newline)
    (hinner : ∀ t ∈ ts, t.kind ≠ .endMark) (hends : ∃ t ∈ us, t.kind = .endMark)
    (hp : parseFrom i (ts ++ [mark]) = .ok (p, j))
    (hfilled : Filled p) (hseam : Seam ts us) :
    parseFrom i (ts ++ feed :: us) = (parseFrom j us).map fun r => (p ++ r.1, r.2) := by
  obtain ⟨t, rest, hdrop, hsub⟩ := Session.exists_dropWhile hends
  -- what is known of the tokens of the first row
  obtain ⟨Q, hQ, hts, hapart⟩ : ∃ Q, PassedOn Q ∧ (∀ u ∈ ts, Q u) ∧ Apart (Diagonal Q) t := by
    rcases hseam with helse | hif
    · exact ⟨fun _ => True, fun _ _ _ _ _ => trivial, fun _ _ => trivial,
        apart_of_ne (helse t rest hdrop)⟩
    · exact ⟨Session.NoIf, Session.passedOn_noIf, hif, fun _ u _ hu => hu.2⟩
  have hrows : List.Forall₂ (Diagonal Q) ts ts := List.forall₂_same.2 fun u hu => ⟨rfl, hts u hu⟩
  obtain ⟨p', d, hmade, hd, hid, hparse⟩ := parseFrom_behind (matches_diagonal hQ) 0 hrows hmark
    hfeed hinner hdrop hapart hp hfilled
  obtain rfl : p' = p := stmtsMade_same (fun h => h.1) hmade
  rw [Nat.add_zero] at hid hparse
  obtain ⟨last, n, rfl, hus⟩ := parseFrom_dropped (i := j) hdrop
  have hbound : depthBound us.length ≤ depthBound (ts ++ feed :: us).length := by
    simp only [List.length_append, List.length_cons]
    unfold depthBound
    omega
  have hmarked : ∃ u ∈ t :: rest, u.kind = .endMark := by
    obtain ⟨u, hu, humark⟩ := hends
    refine ⟨u, ?_, humark⟩
    rw [← List.takeWhile_append_dropWhile (p := (·.kind == .newline)) (l := us), hdrop] at hu
    refine (List.mem_append.1 hu).resolve_left fun htake => ?_
    have hall := List.all_eq_true.1 (List.all_takeWhile (p := (·.kind == .newline)) (l := us)) u htake
    simp [humark] at hall
  have hover : programRow (depthBound us.length) ⟨last, t :: rest, j⟩ ≠ .error .outOfFuel := by
    intro hover
    rw [hover] at hus
    exact parseFrom_ne_outOfFuel j hends hus
  have hsame := programRow_deeper hbound (c := ⟨last, t :: rest, j⟩) hd hid hmarked hover
  rw [hparse, hus, ← hsame]
  cases programRow (depthBound (ts ++ feed :: us).length) d <;> rfl

/-- A row that spells a program can stand behind another one, since no statement starts with `else`. -/
theorem parseFrom_joined {ts us : List Token} {mark feed : Token} {i j k : NodeId} {p q : Program}
    (hmark : mark.kind = .endMark) (hfeed : feed.kind = .newline)
    (hinner : ∀ t ∈ ts, t.kind ≠ .endMark) (hends : ∃ t ∈ us, t.kind = .endMark)
    (hp : parseFrom i (ts ++ [mark]) = .ok (p, j)) (hfilled : Filled p)
    (hq : parseFrom j us = .ok (q, k)) : parseFrom i (ts ++ feed :: us) = .ok (p ++ q, k) := by
  obtain ⟨t, rest, hdrop, helse⟩ := starts_of_parseFrom hq hends
  have hseam : Seam ts us := .inl fun t' rest' hdrop' => by
    obtain ⟨rfl, -⟩ := List.cons.inj (hdrop.symm.trans hdrop')
    exact helse
  rw [parseFrom_seam hmark hfeed hinner hends hp hfilled hseam, hq]
  rfl

/-! ### The prelude in front -/

/-- There is nothing to read in front of an end mark. -/
theorem parseFrom_mark {mark : Token} (hmark : mark.kind = .endMark) (i : NodeId) :
    parseFrom i [mark] = .ok ([], i) := by
  have hskip : skipNewlines ⟨mark, [mark], i⟩ = .ok ((), ⟨mark, [mark], i⟩) := by
    rw [Reads.skipNewlines_eq]
    simp [dropNewlines, hmark, Except.map]
  refine parseFrom_of_programRow hskip (programRow_atEnd ?_)
  simp [Cursor.atEnd, Cursor.peek, hmark]

/-- The prelude, whatever number it is read from. -/
theorem SelfContained.parseFrom {inner : List Token} {feed mark : Token} {program : Program}
    (h : SelfContained inner feed mark program) (i : NodeId) :
    ∃ p j, ScopedScript.parseFrom i (inner ++ [mark]) = .ok (p, j) ∧ Filled p ∧
      RowOfClasses Prelude.classes p := by
  obtain ⟨j, hread⟩ := h.read
  have hparsed := parseFrom_alike .eq 0 i (viewed_self (inner ++ [mark]))
  rw [hread, Nat.zero_add] at hparsed
  generalize ScopedScript.parseFrom i (inner ++ [mark]) = r at hparsed
  cases hparsed with
  | read hmade =>
    obtain ⟨halike, -⟩ := hmade true .top
    exact ⟨_, _, rfl, (filled_of_places h.filled).alike halike,
      h.classes.alike (fun t t' (ht : t = t') => ht ▸ rfl) halike⟩

/-- The prelude by itself, and what it is with other tokens behind it. -/
theorem SelfContained.parseFrom_behind {inner : List Token} {feed mark : Token} {program : Program}
    (h : SelfContained inner feed mark program) (i : NodeId) : ∃ p j,
      ScopedScript.parseFrom i (inner ++ [feed, mark]) = .ok (p, j) ∧
      RowOfClasses Prelude.classes p ∧
      ∀ us : List Token, (∃ t ∈ us, t.kind = .endMark) →
        ScopedScript.parseFrom i (inner ++ feed :: us) =
          (ScopedScript.parseFrom j us).map fun r => (p ++ r.1, r.2) := by
  obtain ⟨p, j, hread, hfilled, hclasses⟩ := h.parseFrom i
  have hbehind : ∀ us : List Token, (∃ t ∈ us, t.kind = .endMark) →
      ScopedScript.parseFrom i (inner ++ feed :: us) =
        (ScopedScript.parseFrom j us).map fun r => (p ++ r.1, r.2) := fun us hus =>
    parseFrom_seam h.isMark h.isFeed (fun t ht => (h.plain t ht).1) hus hread hfilled
      (.inr fun t ht => (h.plain t ht).2)
  refine ⟨p, j, ?_, hclasses, hbehind⟩
  rw [hbehind [mark] ⟨mark, List.mem_singleton_self mark, h.isMark⟩, parseFrom_mark h.isMark]
  change Except.ok (p ++ [], j) = _
  rw [List.append_nil]

/-- The row of tokens of a session that has still to run the prelude. -/
theorem Session.Fronted.scanned {s s₁ : Session} (h : s.Fronted) (hpending : s.preludePending = true)
    {name source : String} {tokens : List Token}
    (hscan : s.scanSource name source = (.ok tokens, s₁)) :
    ∃ leading mark own, tokenizeFrom 1 Prelude.source = .ok (leading ++ [mark]) ∧
      tokenizeFrom s.nextSourceLine source = .ok own ∧
      tokens = leading ++ own.map (Token.shift leading.length) := by
  obtain ⟨leading, mark, s₂, hlead, hprelude, _⟩ := h.leading hpending
  obtain ⟨own, hown, rfl⟩ := scanned_of_leading hlead hscan
  exact ⟨leading, mark, own, hprelude, hown, rfl⟩

/-- Rows are read one after the other.

* A row that spells a program without an empty statement, a line feed and a row that spells a
  program: both together spell the statements of the one and of the other, with the same numbers.
* If the second row has a fault by itself, and does not start with `else`, both together have the
  same fault at the same token.
* A session that has still to run the prelude reads the tokens of the prelude and those of the source
  like that, whatever the source starts with: the program is that of the prelude and that of the
  source, or the fault is that of the source. -/
theorem parse_across_seam {ts us : List Token} {mark mark' feed : Token} {i j : NodeId}
    {p : Program} (hmark : mark.kind = .endMark) (hmark' : mark'.kind = .endMark)
    (hfeed : feed.kind = .newline) (hinner : ∀ t ∈ ts, t.kind ≠ .endMark)
    (hp : parseFrom i (ts ++ [mark]) = .ok (p, j))
    (hempty : ∀ r ∈ p.places, r.node ≠ .stmt .empty) :
    (∀ q k, parseFrom j (us ++ [mark']) = .ok (q, k) →
      parseFrom i (ts ++ feed :: us ++ [mark']) = .ok (p ++ q, k)) ∧
    (∀ e, parseFrom j (us ++ [mark']) = .error (.rejected e) →
      (∀ t rest, us.dropWhile (·.kind == .newline) = t :: rest → t.kind ≠ .kwElse) →
      parseFrom i (ts ++ feed :: us ++ [mark']) = .error (.rejected e)) ∧
    ∀ (input : List UInt8) (limit : Option Nat) (clock : Clock) (history : List Action)
      (s : Session), s = (Session.start true input limit clock).after history →
      s.preludePending = true → ∀ name source tokens s₁,
      s.scanSource name source = (.ok tokens, s₁) →
      ∃ prelude own q k, tokenizeFrom 1 Prelude.source = .ok prelude ∧
        tokenizeFrom s.nextSourceLine source = .ok own ∧
        parseFrom s.nextId prelude = .ok (q, k) ∧
        parseFrom s.nextId tokens =
          (parseFrom k (own.map (Token.shift prelude.dropLast.length))).map fun r =>
            (q ++ r.1, r.2) := by
  have hends : ∃ t ∈ us ++ [mark'], t.kind = .endMark := ⟨mark', by simp, hmark'⟩
  have hfilled := filled_of_places hempty
  simp only [List.append_assoc, List.cons_append]
  refine ⟨fun q k hq => parseFrom_joined hmark hfeed hinner hends hp hfilled hq,
    fun e he helse => ?_, ?_⟩
  · have hstart : Seam ts (us ++ [mark']) := .inl fun t rest hdrop => by
      rw [List.dropWhile_append] at hdrop
      split at hdrop
      · -- nothing but line feeds before the end mark
        rw [List.dropWhile_cons_of_neg (by simp [hmark'])] at hdrop
        obtain ⟨rfl, -⟩ := List.cons.inj hdrop
        simp [hmark']
      · next hne =>
        cases hus : us.dropWhile (·.kind == .newline) with
        | nil => simp [hus] at hne
        | cons u more =>
          rw [hus] at hdrop
          obtain ⟨rfl, -⟩ := List.cons.inj hdrop
          exact helse _ _ hus
    rw [parseFrom_seam hmark hfeed hinner hends hp hfilled hstart, he]
    rfl
  · rintro input limit clock history s rfl hpending name source tokens s₁ hscan
    have hfronted := Session.Fronted.after
      (fun _ => Session.fronted_start true input limit clock) history hpending
    generalize (Session.start true input limit clock).after history = s at *
    obtain ⟨leading, end_, own, hprelude, hown, rfl⟩ := hfronted.scanned hpending hscan
    obtain ⟨inner, feed', program, rfl, hself⟩ := selfContained_of_leading hprelude
    obtain ⟨q, k, hread, -, hbehind⟩ := hself.parseFrom_behind s.nextId
    refine ⟨_, own, q, k, hprelude, hown, by rwa [List.append_assoc], ?_⟩
    rw [List.dropLast_concat, ← hbehind _ (endMark_mem_shift hown _), List.append_assoc,
      List.singleton_append]

/-- An `if` before the line feed: a name behind it is a statement of its own, and the fault of a
bracket behind it is the fault of both. -/
theorem if_across_seam : ∃ p q e,
    parseFrom 3 ([.plain .kwIf "if", .plain .leftParen "(", .plain .name "x",
      .plain .rightParen ")", .plain .emptyObject "\x7b\x7d"] ++ [.plain .endMark ""]) =
        .ok (p, 4) ∧
    parseFrom 3 [.plain .kwIf "if", .plain .leftParen "(", .plain .name "x",
      .plain .rightParen ")", .plain .emptyObject "\x7b\x7d", .plain .newline "\n",
      .plain .name "y", .plain .endMark ""] = .ok (p ++ q, 5) ∧
    parseFrom 3 [.plain .kwIf "if", .plain .leftParen "(", .plain .name "x",
      .plain .rightParen ")", .plain .emptyObject "\x7b\x7d", .plain .newline "\n",
      .plain .rightBracket "]", .plain .endMark ""] = .error (.rejected e) := by
  have hp : parseFrom 3 ([.plain .kwIf "if", .plain .leftParen "(", .plain .name "x",
      .plain .rightParen ")", .plain .emptyObject "\x7b\x7d"] ++ [.plain .endMark ""]) =
      .ok ([.cond (.plain .kwIf "if") (.name 3 (.plain .name "x")) (.block []) none], 4) := by cbv
  have hq : parseFrom 4 ([.plain .name "y"] ++ [.plain .endMark ""]) =
      .ok ([.expression (.name 4 (.plain .name "y")) (.plain .name "y")], 5) := by cbv
  have he : parseFrom 4 ([.plain .rightBracket "]"] ++ [.plain .endMark ""]) =
      .error (.rejected ⟨.expected .expression, .plain .rightBracket "]"⟩) := by cbv
  have hempty : ∀ r ∈ Program.places
      [.cond (.plain .kwIf "if") (.name 3 (.plain .name "x")) (.block []) none],
      r.node ≠ .stmt .empty := by
    simp [Program.places, stmtsPlaces, Stmt.places, Expr.places, optionPlaces]
  have hseam := fun us => @parse_across_seam _ us _ _ _ _ _ _ rfl
    (rfl : (Token.plain .endMark "").kind = .endMark)
    (rfl : (Token.plain .newline "\n").kind = .newline) (by decide) hp hempty
  exact ⟨_, _, _, hp, (hseam [.plain .name "y"]).1 _ _ hq,
    (hseam [.plain .rightBracket "]"]).2.1 _ he (by simp [Token.plain])⟩

end ScopedScript
