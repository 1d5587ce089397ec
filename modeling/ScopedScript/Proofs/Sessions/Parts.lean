import ScopedScript.Proofs.Sessions.Seams

/-! # A source in two parts

Two sources that are programs by themselves, joined by a line feed: if the first one does not end
with a line feed and has no empty statement, a session loads the joined source just if it loads the
two one after the other, and the programs are the same (`Session.load_parts`).

* The tokens of the second part stand at other positions of their row, but on the same lines
  (`Token.Reindexed`), and its nodes have the same numbers.
* The analysis of the joined program implies that of the parts.  What it records for the second part
  may differ: there the names that the first part declares are known.
* Being a program by itself does not depend on lines, numbers and what stands in front
  (`ReadAlone.elsewhere`). -/

namespace ScopedScript

open Grammar

/-! ### Tokens elsewhere -/

/-- Tokens that productions cannot tell apart, wherever they stand. -/
def Token.SameText (t t' : Token) : Prop :=
  t'.kind = t.kind ∧ t'.lexeme = t.lexeme ∧ t'.literal = t.literal

theorem matches_sameText : Matches Token.SameText where
  same h := h
  derived _ _ _ := ⟨rfl, rfl, rfl⟩

/-- The same token at some position of a row. -/
def Token.Reindexed (t t' : Token) : Prop := ∃ index, t' = { t with index := index }

theorem matches_reindexed : Matches Token.Reindexed where
  same := by
    rintro t _ ⟨index, rfl⟩
    exact ⟨rfl, rfl, rfl⟩
  derived := by
    rintro t _ kind lexeme - ⟨index, rfl⟩
    exact ⟨index, rfl⟩

theorem Token.Reindexed.lexeme_eq {t t' : Token} (h : t.Reindexed t') : t'.lexeme = t.lexeme := by
  obtain ⟨index, rfl⟩ := h
  rfl

/-- The source is a program by itself. -/
def ReadAlone (source : String) (program : Program) : Prop :=
  ∃ tokens nextId, tokenize source = .ok tokens ∧ parseFrom 0 tokens = .ok (program, nextId)

/-- Rows that cannot be told apart, with any numbers: if one can be read, so can the other. -/
theorem parseFrom_sameText {i j k : NodeId} {ts ts' : List Token} {p : Program}
    (h : parseFrom i ts = .ok (p, j)) (hts : List.Forall₂ Token.SameText ts ts') :
    ∃ p', parseFrom (i + k) ts' = .ok (p', j + k) ∧ stmtsMade Token.SameText k i j p p' := by
  have hrows : List.Forall₂ (Viewed Token.SameText fun _ _ => False) ts ts' :=
    hts.imp fun _ _ => .inl
  have hparsed := parseFrom_alike matches_sameText i k hrows
  rw [h] at hparsed
  generalize parseFrom (i + k) ts' = r at hparsed
  cases hparsed with
  | read hmade => exact ⟨_, rfl, hmade⟩

/-- The same tokens at other positions spell a program that has them there. -/
theorem parseFrom_reindexed {j k : NodeId} {n : Nat} {ts : List Token} {r : Program}
    (h : parseFrom j (ts.map (Token.shift n)) = .ok (r, k)) :
    ∃ r', parseFrom j ts = .ok (r', k) ∧ stmtsMade Token.Reindexed 0 j k r r' := by
  have hrows : List.Forall₂ (Viewed Token.Reindexed fun _ _ => False)
      (ts.map (Token.shift n)) ts :=
    List.forall₂_map_left_iff.2 (List.forall₂_same.2 fun t _ => .inl ⟨t.index, rfl⟩)
  have hparsed := parseFrom_alike matches_reindexed j 0 hrows
  rw [h, Nat.add_zero] at hparsed
  generalize parseFrom j ts = u at hparsed
  cases hparsed with
  | read hmade => exact ⟨_, rfl, hmade⟩

/-- A program by itself can be read from any line, behind other tokens and with any numbers. -/
theorem ReadAlone.elsewhere {source : String} {program : Program} (h : ReadAlone source program)
    (line k : Nat) (i : NodeId) : ∃ tokens p j, tokenizeFrom line source = .ok tokens ∧
      parseFrom i (tokens.map (Token.shift k)) = .ok (p, j) ∧
      stmtsAlike (shifting Token.SameText i) true .top program p := by
  obtain ⟨tokens, nextId, htokens, hparse⟩ := h
  have hfirst := tokenizeFrom_down 0 1 source
  have hline := tokenizeFrom_down 0 line source
  rw [Nat.zero_add] at hfirst hline
  rw [tokenize, hfirst] at htokens
  cases hzero : tokenizeFrom 0 source with
  | error e =>
    rw [hzero] at htokens
    cases htokens
  | ok ts =>
    rw [hzero] at htokens hline
    obtain rfl := Except.ok.inj htokens
    have hsame : List.Forall₂ Token.SameText (ts.map (Token.down 1))
        ((ts.map (Token.down line)).map (Token.shift k)) := by
      rw [List.map_map, List.forall₂_map_left_iff, List.forall₂_map_right_iff]
      exact List.forall₂_same.2 fun _ _ => ⟨rfl, rfl, rfl⟩
    obtain ⟨p, hp, hmade⟩ := parseFrom_sameText (k := i) hparse hsame
    rw [Nat.zero_add] at hp
    exact ⟨_, p, _, hline, hp, (hmade true .top).1⟩

namespace Session

variable {s s₁ : Session}

/-! ### What stands in front -/

/-- What goes in front of a source is a program without an empty statement, or nothing. -/
theorem leading_read (hlaid : s.Laid) (hfronted : s.preludePending = true → s.Fronted) :
    ∃ leading s₁ q j, s.leadingTokens = (.ok leading, s₁) ∧ Filled q ∧
      (∀ t ∈ leading, t.kind ≠ .endMark) ∧
      ∀ us : List Token, (∃ t ∈ us, t.kind = .endMark) →
        parseFrom s.nextId (leading ++ us) = (parseFrom j us).map fun r => (q ++ r.1, r.2) := by
  obtain ⟨leading, s₁, hlead, -, -, hlines, -⟩ := leadingTokens_ok hlaid
  cases hpending : s.preludePending with
  | false =>
    obtain rfl : leading = [] := by
      rw [leadingTokens, hpending] at hlead
      exact (Except.ok.inj (Prod.mk.inj hlead).1).symm
    refine ⟨[], s₁, [], s.nextId, hlead, fun _ h => (List.not_mem_nil h).elim, by simp,
      fun us _ => ?_⟩
    rw [List.nil_append]
    cases parseFrom s.nextId us <;> rfl
  | true =>
    obtain ⟨leading', mark, s₂, hlead', hprelude, -⟩ := (hfronted hpending).leading hpending
    obtain ⟨hsame, rfl⟩ := Prod.mk.inj (hlead.symm.trans hlead')
    obtain rfl := Except.ok.inj hsame
    obtain ⟨inner, feed, program, rfl, hself⟩ := selfContained_of_leading hprelude
    obtain ⟨q, j, hread, hfilled, -⟩ := hself.parseFrom s.nextId
    refine ⟨inner ++ [feed], s₁, q, j, hlead, hfilled, fun t ht => (hlines t ht).1,
      fun us hus => ?_⟩
    rw [List.append_assoc, List.singleton_append]
    exact parseFrom_seam hself.isMark hself.isFeed (fun t ht => (hself.plain t ht).1) hus hread
      hfilled (.inr fun t ht => (hself.plain t ht).2)

/-- What is known of a program that has been accepted. -/
theorem load_accepts {name source : String} {p : Program} (h : s.load name source = (.ok p, s₁)) :
    resolve s.machine.distances p = (.ok (), s₁.machine.distances) ∧
      s₁.machine = { s.machine with distances := s₁.machine.distances } ∧
      s₁.preludePending = false := by
  obtain ⟨D, hmachine⟩ := s.load_machine name source
  have hloaded := load_loaded s name source
  rw [h] at hloaded hmachine
  dsimp only at hmachine
  cases hloaded with
  | accepted _ _ hres => exact ⟨hres, by rw [hmachine], rfl⟩

/-! ### The two parts -/

/-- A joined source is accepted as a program in two parts, and so are its parts one after the other:
the first as `q`, and the second, which is `r` behind the first, as `r'`. -/
structure Parts (s s₁ : Session) (a b : String) (own q r r' : Program) (j : NodeId) (line : Nat) :
    Prop where
  joined : stmtsMade Eq 0 s.nextId s₁.nextId (q ++ r) (q ++ r)
  first : stmtsMade Eq 0 s.nextId j q q
  second : stmtsMade Token.Reindexed 0 j s₁.nextId r r'
  /-- The second part is what it is by itself. -/
  alone : stmtsAlike (shifting Token.SameText j) true .top own r
  loadFirst : ∀ name, ∃ t, s.load name a = (.ok q, t) ∧ t.nextId = j ∧ t.sources.nextLine = line
  /-- The analysis of `r'` finds what that of `r` would find without the first part. -/
  loadSecond : ∀ (t : Session) (name : String), t.nextId = j → t.preludePending = false →
    t.sources.nextLine = line → ∃ t' E, t.load name b = (.ok r', t') ∧ t'.nextId = s₁.nextId ∧
      resolve t.machine.distances r = (.ok (), E) ∧
      (∀ id : NodeId, j ≤ id → t'.machine.distances[id]? = E[id]?) ∧
      ∀ id : NodeId, id < j → t'.machine.distances[id]? = t.machine.distances[id]?

/-- What a joined source is scanned to: the tokens of its parts, and a line feed between them. -/
theorem scanSource_joined {a b : String} {leading inner ts : List Token} {mark : Token}
    {s₂ : Session} (hlead : s.leadingTokens = (.ok leading, s₂))
    (ha : tokenizeFrom s₂.sources.nextLine a = .ok (inner ++ [mark]))
    (hb : tokenizeFrom (s₂.sources.nextLine + 1 + a.toList.count '\n') b = .ok ts)
    (name : String) : (s.scanSource name (a ++ "\n" ++ b)).1 =
      .ok (leading ++ inner.map (Token.shift leading.length) ++
        (lineFeed ⟨mark.line, mark.column⟩ inner.length).shift leading.length ::
          ts.map (Token.shift (inner.length + 1 + leading.length))) := by
  obtain ⟨inner', mark', hsame, -, -, hjoin⟩ := tokenizeFrom_join ha
  obtain ⟨rfl, hmarks⟩ := List.append_inj' hsame rfl
  obtain rfl := List.singleton_inj.1 hmarks
  rw [scanSource_of_leading hlead, hjoin, hb, List.append_assoc]
  change Except.ok (leading ++ (inner ++ lineFeed ⟨mark.line, mark.column⟩ inner.length ::
    ts.map (Token.shift (inner.length + 1))).map (Token.shift leading.length)) = _
  rw [List.map_append, List.map_cons, List.map_map]
  refine congrArg (fun us => Except.ok (leading ++ (_ ++ _ :: us))) (List.map_congr_left ?_)
  exact fun t _ => congrArg (fun index => { t with index := index }) (Nat.add_assoc _ _ _)

/-- A session that does not run the prelude accepts a source if the analysis accepts the same program
with its tokens at other positions. -/
theorem load_reindexed {t : Session} {name source : String} {ts : List Token} {k : NodeId}
    {r r' : Program} {E : Distances} (hready : t.preludePending = false)
    (hscan : tokenizeFrom t.sources.nextLine source = .ok ts)
    (hparse : parseFrom t.nextId ts = .ok (r', k))
    (hmade : stmtsMade Token.Reindexed 0 t.nextId k r r')
    (hres : resolve t.machine.distances r = (.ok (), E)) :
    ∃ t', t.load name source = (.ok r', t') ∧ t'.nextId = k ∧
      (∀ id : NodeId, t.nextId ≤ id → t'.machine.distances[id]? = E[id]?) ∧
      ∀ id : NodeId, id < t.nextId → t'.machine.distances[id]? = t.machine.distances[id]? := by
  have hD : ∀ x : NodeId, t.nextId ≤ x → t.machine.distances[x + 0]? = t.machine.distances[x]? :=
    fun _ _ => rfl
  have hanalyses := resolve_alike (fun h => h.lexeme_eq) hmade hD
  rw [hres] at hanalyses
  generalize hu : resolve t.machine.distances r' = u at hanalyses
  cases hanalyses with
  | failed h =>
    obtain ⟨_, _, h, -⟩ := h trivial
    cases h
  | ok hsame =>
    refine ⟨_, load_of_accepted (scanSource_of_ready hready name hscan) hparse hu, rfl, hsame,
      fun id hlt => ?_⟩
    have hkept : (resolve t.machine.distances r').2[id]? = t.machine.distances[id]? :=
      resolve_of_outside (parseFrom_numbered hparse true .top).2 fun h =>
        absurd h.1 (Nat.not_le.2 hlt)
    rwa [hu] at hkept

/-- A joined source that is accepted is accepted in parts. -/
theorem load_parts (hlaid : s.Laid) (hfronted : s.preludePending = true → s.Fronted)
    {a b : String} {own own' : Program} (ha : ReadAlone a own) (hb : ReadAlone b own')
    (hempty : ∀ r ∈ own.places, r.node ≠ .stmt .empty) (hlast : a.toList.getLast? ≠ some '\n')
    {name : String} {p : Program} (hload : s.load name (a ++ "\n" ++ b) = (.ok p, s₁)) :
    ∃ q r r' j line, p = q ++ r ∧ s.Parts s₁ a b own' q r r' j line := by
  obtain ⟨leading, s₂, q₀, i, hlead, hfilled, hleading, hfront⟩ := leading_read hlaid hfronted
  -- the tokens of the parts, and what they spell
  obtain ⟨ta, p₁, j, hta, hp₁, halike⟩ := ha.elsewhere s₂.sources.nextLine leading.length i
  obtain ⟨inner, mark, rfl, hmark, -, hinner⟩ := tokenizeFrom_ok hta
  obtain ⟨tb, r, k, htb, hr, hown⟩ :=
    hb.elsewhere (s₂.sources.nextLine + 1 + a.toList.count '\n')
      (inner.length + 1 + leading.length) j
  -- the first part, behind what stands in front
  have hq : parseFrom s.nextId (leading ++ (inner ++ [mark]).map (Token.shift leading.length)) =
      .ok (q₀ ++ p₁, j) := by
    rw [hfront _ (endMark_mem_shift hta _), hp₁]
    rfl
  have hscanFirst : ∀ name', s.scanSource name' a =
      (.ok (leading ++ (inner ++ [mark]).map (Token.shift leading.length)),
        { s₂ with sources := (s₂.sources.add name' a).2 }) := fun name' => by
    rw [scanSource_of_leading hlead, hta]
    rfl
  -- the joined source
  have hscan := scanSource_joined hlead hta htb name
  have hparse : parseFrom s.nextId (leading ++ inner.map (Token.shift leading.length) ++
      (lineFeed ⟨mark.line, mark.column⟩ inner.length).shift leading.length ::
        tb.map (Token.shift (inner.length + 1 + leading.length))) = .ok (q₀ ++ p₁ ++ r, k) := by
    have hshifted : (mark.shift leading.length).kind = .endMark := hmark
    have hplain : ∀ t ∈ leading ++ inner.map (Token.shift leading.length), t.kind ≠ .endMark := by
      refine List.forall_mem_append.2 ⟨hleading, fun t ht => ?_⟩
      obtain ⟨u, hu, rfl⟩ := List.mem_map.1 ht
      exact (hinner u hu).1
    have hfirst := hq
    rw [List.map_append, ← List.append_assoc] at hfirst
    exact parseFrom_joined hshifted rfl hplain (endMark_mem_shift htb _) hfirst
      (hfilled.append ((filled_of_places hempty).alike halike)) hr
  obtain ⟨hres, -, -⟩ := load_accepts hload
  obtain ⟨rfl, hk⟩ : p = q₀ ++ p₁ ++ r ∧ s₁.nextId = k := by
    have hloaded := load_loaded s name (a ++ "\n" ++ b)
    rw [hload] at hloaded
    cases hloaded with
    | accepted hscan' hparse' _ =>
      rw [hscan'] at hscan
      obtain rfl := Except.ok.inj hscan
      obtain ⟨rfl, rfl⟩ := Prod.mk.inj (Except.ok.inj (hparse'.symm.trans hparse))
      exact ⟨rfl, rfl⟩
  obtain ⟨⟨E, hE⟩, hrest⟩ := resolve_append (parseFrom_numbered hr) hres
  -- the second part by itself has its tokens at other positions
  obtain ⟨r', hr', hmade⟩ := parseFrom_reindexed hr
  have hlines : ∀ name', (s₂.sources.add name' a).2.nextLine =
      s₂.sources.nextLine + 1 + a.toList.count '\n' := fun name' =>
    SourceMap.add_nextLine hlast s₂.sources name'
  refine ⟨q₀ ++ p₁, r, r', j, s₂.sources.nextLine + 1 + a.toList.count '\n', rfl,
    hk ▸ parseFrom_numbered hparse, parseFrom_numbered hq, hk ▸ hmade, hown, fun name' => ?_,
    fun t name' hid hready hline => ?_⟩
  · exact ⟨_, load_of_accepted (hscanFirst name') hq hE, rfl, hlines name'⟩
  · obtain ⟨E', hE'⟩ := hrest t.machine.distances
    subst hid
    obtain ⟨t', hload', hnext, hbehind, hbefore⟩ :=
      load_reindexed hready (hline ▸ htb) hr' hmade hE'
    exact ⟨t', E', hload', hnext.trans hk.symm, hE', hbehind, hbefore⟩

end Session

end ScopedScript
