import ScopedScript.Proofs.Scanning.Coverage
import ScopedScript.Proofs.Sessions.StaticFailures

/-! # Sources joined by a line feed

A source, a line feed and another source are scanned as the two sources by themselves: the tokens of
the first up to its end mark, the line feed where the end mark was, and the tokens of the second,
which starts on the line after (`tokenizeFrom_join`).  What the scanner sees behind the last
character of the first source, the line feed or nothing, makes no difference to the pieces it cuts.

The layout of sources counts lines the same way.  So laying out a text that ends with a line feed,
and scanning another one behind it, is the same as scanning the two as one text
(`Session.layFirst_joins`); a session with a prelude that has still to run scans every source as if
the prelude stood in front of it, except that sources which failed in between push the lines of the
new source down (`Session.scanSource_joins`). -/

namespace ScopedScript

/-! ### Numbers of tokens -/

/-- Scanning with the tokens numbered from further on. -/
theorem Scan.start_shift (p : Position) (i k : Nat) (source : List Char) :
    start p (i + k) source =
      ⟨(start p i source).tokens.map (Token.shift k), (start p i source).error⟩ := by
  fun_induction start p i source with
  | case1 p i => rw [start_nil]; rfl
  | case2 p i c cs fault h => rw [start_fault h]; rfl
  | case3 p i c cs skipped rest h ih => rw [start_skip h, ih]
  | case4 p i c cs kind literal lexeme rest h later ih =>
    rw [start_token h, Nat.add_right_comm, ih]
    rfl

/-! ### Two sources -/

/-- The end mark stands behind the source. -/
theorem endMark_place {line : Nat} {source : String} {inner : List Token} {mark : Token}
    (h : tokenizeFrom line source = .ok (inner ++ [mark])) :
    mark.kind = .endMark ∧ (⟨mark.line, mark.column⟩ : Position) = .behind line source.toList := by
  obtain ⟨spans, hspans, hcovers⟩ := spans_of_tokenizeFrom h
  obtain ⟨before, last, rfl, hkind, _, _⟩ := hcovers.marked
  rw [List.map_append] at hspans
  obtain ⟨_, hlast⟩ := List.append_inj' hspans rfl
  obtain rfl := (List.cons.inj hlast).1
  have hstands := hcovers.standing ⟨source.toList.length, mark⟩ (by simp)
  refine ⟨hkind, ?_⟩
  rw [hstands.line, hstands.column, List.take_length]
  rfl

/-- The tokens of a source, a line feed and another source. -/
theorem tokenizeFrom_join {line : Nat} {a : String} {tokens : List Token}
    (h : tokenizeFrom line a = .ok tokens) :
    ∃ inner mark, tokens = inner ++ [mark] ∧ mark.kind = .endMark ∧
      (⟨mark.line, mark.column⟩ : Position) = .behind line a.toList ∧
      ∀ b, tokenizeFrom line (a ++ "\n" ++ b) =
        (tokenizeFrom (line + 1 + a.toList.count '\n') b).map fun later =>
          inner ++ lineFeed ⟨mark.line, mark.column⟩ inner.length ::
            later.map (Token.shift (inner.length + 1)) := by
  obtain ⟨herror, htokens⟩ := start_of_tokenizeFrom h
  unfold scanFrom at herror htokens
  obtain ⟨inner, mark, hinner, _⟩ := Scan.start_append _ _ a.toList [] herror
  obtain rfl := htokens.symm.trans hinner
  obtain ⟨hmark, hplace⟩ := endMark_place h
  refine ⟨inner, mark, rfl, hmark, hplace, fun b => ?_⟩
  obtain ⟨inner', mark', hinner', hjoin⟩ := Scan.start_append _ _ a.toList b.toList herror
  obtain ⟨rfl, _⟩ := List.append_inj' (hinner.symm.trans hinner') rfl
  have hline : (Position.after ⟨line, 1⟩ a.toList).line + 1 =
      line + 1 + a.toList.count '\n' := by
    rw [Position.after_line]
    exact Nat.add_right_comm _ _ _
  have hchars : (a ++ "\n" ++ b).toList = a.toList ++ '\n' :: b.toList := by simp
  rw [hline, Position.after_start, ← hplace, Nat.zero_add, ← Nat.zero_add (inner.length + 1),
    Scan.start_shift] at hjoin
  unfold tokenizeFrom scanFrom
  rw [hchars, hjoin]
  unfold Scan.result
  cases (Scan.start ⟨line + 1 + a.toList.count '\n', 1⟩ 0 b.toList).error with
  | none => rfl
  | some e => rfl

/-- The lines of a source that does not end with a line feed. -/
theorem SourceMap.add_nextLine {a : String} (h : a.toList.getLast? ≠ some '\n') (m : SourceMap)
    (name : String) :
    (m.add name a).2.nextLine = (m.add name a).1 + 1 + a.toList.count '\n' := by
  simp only [SourceMap.add, lineCount_eq, linesOf, if_neg h]
  omega

/-! ### A text that ends with a line feed -/

namespace Piece

theorem closeComment_feed {cs : List Char} (h : closeComment cs = none) :
    closeComment (cs ++ ['\n']) = none := by
  fun_induction closeComment cs with
  | case1 r => cases h
  | case2 c r hne ih =>
    have hr : closeComment r = none := Option.map_eq_none_iff.1 h
    rw [List.cons_append, closeComment, ih hr]
    · rfl
    · rintro rest rfl hrest
      cases r with
      | nil => simp at hrest
      | cons d r =>
        obtain ⟨rfl, _⟩ := List.cons.inj hrest
        exact hne r rfl rfl
  | case3 => rfl

/-- A line feed at the end completes no piece. -/
theorem ofSource_feed {c : Char} {cs : List Char} {fault : ScanFault}
    (h : ofSource c cs = .fault fault) : ofSource c (cs ++ ['\n']) = .fault fault := by
  have hhead (d : Char) (hd : d ≠ '\n') :
      (cs ++ ['\n']).head? = some d ↔ cs.head? = some d := by
    cases cs with
    | nil => simp [hd.symm]
    | cons e cs => simp
  simp only [ofSource, hhead '/' (by decide), hhead '*' (by decide)] at h ⊢
  split_ifs at h ⊢ with _ _ _ _ _ _ hstar
  · unfold string at h ⊢
    dsimp only at h ⊢
    split at h
    · cases h
    · next hdrop =>
      have hnone : ∀ d ∈ cs, (d != '"') = true := List.dropWhile_eq_nil_iff.1 hdrop
      have hnil : (cs ++ ['\n']).dropWhile (· != '"') = [] := by
        refine List.dropWhile_eq_nil_iff.2 fun d hd => ?_
        rcases List.mem_append.1 hd with hd | hd
        · exact hnone d hd
        · obtain rfl := List.mem_singleton.1 hd
          rfl
      rw [hnil]
      exact h
  · unfold number at h
    dsimp only at h
    split at h
    · split at h <;> cases h
    · cases h
  · cases h
  · cases h
  · obtain ⟨body, rfl⟩ : ∃ body, cs = '*' :: body := by
      cases cs with
      | nil => cases hstar.2
      | cons d body => exact ⟨body, by rw [Option.some.inj hstar.2]⟩
    simp only [List.cons_append, List.tail_cons, blockComment] at h ⊢
    split at h
    · cases h
    · next hclose =>
      rw [closeComment_feed hclose]
      exact h
  · have hext := symbol_extend ['\n'] rfl c (c :: cs)
    rw [h] at hext
    exact hext

end Piece

/-- A text that can be scanned with a line feed at its end can be scanned without. -/
theorem Scan.start_of_feed (p : Position) (i : Nat) (source : List Char)
    (h : (start p i (source ++ ['\n'])).error = none) : (start p i source).error = none := by
  fun_induction start p i source with
  | case1 p i => rfl
  | case2 p i c cs fault hpiece =>
    rw [List.cons_append, start_fault (Piece.ofSource_feed hpiece)] at h
    cases h
  | case3 p i c cs skipped rest hpiece ih =>
    have hext : Piece.ofSource c (cs ++ ['\n']) = _ :=
      Piece.ofSource_extend ['\n'] rfl (by simp [hpiece])
    rw [hpiece] at hext
    rw [List.cons_append, start_skip hext] at h
    exact ih h
  | case4 p i c cs kind literal lexeme rest hpiece later ih =>
    have hext : Piece.ofSource c (cs ++ ['\n']) = _ :=
      Piece.ofSource_extend ['\n'] rfl (by simp [hpiece])
    rw [hpiece] at hext
    rw [List.cons_append, start_token hext] at h
    exact ih h

/-- The tokens of a text that ends with a line feed, with another source right behind it. -/
theorem tokenizeFrom_append {line : Nat} {text : String} {leading : List Token} {mark : Token}
    (hfeed : text.toList.getLast? = some '\n')
    (h : tokenizeFrom line text = .ok (leading ++ [mark])) (source : String) :
    tokenizeFrom line (text ++ source) =
      (tokenizeFrom (line + SourceMap.lineCount text) source).map fun tokens =>
        leading ++ tokens.map (Token.shift leading.length) := by
  obtain ⟨chars, hchars⟩ := List.getLast?_eq_some_iff.1 hfeed
  obtain ⟨a, rfl⟩ : ∃ a : String, text = a ++ "\n" := by
    refine ⟨String.ofList chars, ?_⟩
    apply String.toList_injective
    simp [hchars]
  have herror : (scanFrom line a).error = none := by
    have hsame : (a ++ "\n").toList = a.toList ++ ['\n'] := by simp
    obtain ⟨hjoined, _⟩ := start_of_tokenizeFrom h
    rw [scanFrom, hsame] at hjoined
    exact Scan.start_of_feed _ _ _ hjoined
  have hscan : tokenizeFrom line a = .ok (scanFrom line a).tokens := by
    rw [tokenizeFrom, Scan.result, herror]
  obtain ⟨inner, end_, _, _, _, hjoin⟩ := tokenizeFrom_join hscan
  have hlines : line + SourceMap.lineCount (a ++ "\n") = line + 1 + a.toList.count '\n' := by
    rw [lineCount_eq, linesOf, if_pos hfeed]
    simp
    omega
  -- the text itself, with nothing behind it, has the tokens up to the line feed
  have hleading : leading = inner ++ [lineFeed ⟨end_.line, end_.column⟩ inner.length] := by
    have hself := hjoin ""
    have hnil : tokenizeFrom (line + 1 + a.toList.count '\n') "" =
        .ok [Token.make .endMark "" (line + 1 + a.toList.count '\n') 1 0 none] := by
      rw [tokenizeFrom, scanFrom, String.toList_empty, Scan.start_nil]
      rfl
    rw [String.append_empty, h, hnil] at hself
    have hsplit := (Except.ok.inj hself).trans (List.append_cons inner _ _)
    exact (List.append_inj' hsplit rfl).1
  rw [hjoin source, hlines, hleading, List.length_append, List.length_singleton]
  simp only [List.append_assoc, List.singleton_append]

/-- The tokens before the end mark stand on the lines of the source. -/
theorem leading_lines {line : Nat} {source : String} {leading : List Token} {mark : Token}
    (h : tokenizeFrom line source = .ok (leading ++ [mark])) :
    ∀ t ∈ leading, t.line < line + SourceMap.lineCount source := by
  obtain ⟨inner, mark', heq, _, _, hinner⟩ := tokenizeFrom_ok h
  obtain ⟨rfl, _⟩ := List.append_inj' heq rfl
  exact fun t ht => (hinner t ht).2.2

theorem scanMoved_zero (first : Nat) (scanned : Except ScanError (List Token)) :
    scanMoved first 0 scanned = scanned := by
  have hline (line : Nat) : moveLine first 0 line = line := ite_id _
  have htoken (t : Token) : t.moved first 0 = t := by rw [Token.moved, hline]
  cases scanned with
  | error e => simp only [scanMoved, hline]
  | ok tokens => rw [scanMoved, List.map_congr_left fun t _ => htoken t, List.map_id']

namespace Session

variable {s : Session}

/-- A text in front of a source: the two are scanned as one text. -/
theorem layFirst_joins {name text : String} (hnone : s.preludeTokens = none)
    (hfeed : text.toList.getLast? = some '\n') {leading : List Token} {s₁ : Session}
    (hlay : s.layFirst name text = (.ok leading, s₁)) (source : String) :
    ((tokenizeFrom s₁.sources.nextLine source).map fun tokens =>
      leading ++ tokens.map (Token.shift leading.length)) =
        tokenizeFrom s.sources.nextLine (text ++ source) := by
  rw [layFirst, hnone] at hlay
  simp only [SourceMap.add] at hlay
  split at hlay
  · cases (Prod.mk.inj hlay).1
  · next tokens hscan =>
    obtain ⟨hlead, rfl⟩ := Prod.mk.inj hlay
    obtain rfl := Except.ok.inj hlead
    obtain ⟨inner, mark, rfl, _⟩ := tokenizeFrom_ok hscan
    rw [List.dropLast_concat]
    exact (tokenizeFrom_append hfeed hscan source).symm

/-- The prelude stands in front of everything: it has not been laid out, and neither has anything
else, or it is laid out from the first line on. -/
inductive Fronted (s : Session) : Prop
  | fresh : s.preludeTokens = none → s.sources.nextLine = 1 → Fronted s
  | laid {leading : List Token} {mark : Token} : s.preludeTokens = some leading →
      tokenizeFrom 1 Prelude.source = .ok (leading ++ [mark]) →
      1 + SourceMap.lineCount Prelude.source ≤ s.sources.nextLine → Fronted s

set_option maxRecDepth 100000 in
theorem prelude_feed : Prelude.source.toList.getLast? = some '\n' := by
  have hlines : Prelude.lines.getLast? = some "\x7d" := by decide
  obtain ⟨before, hbefore⟩ := List.getLast?_eq_some_iff.1 hlines
  rw [Prelude.source, hbefore]
  simp

/-- Laying out a text in front. -/
theorem layFirst_of_none (name : String) {text : String} {line : Nat} {leading : List Token}
    {mark : Token}
    (hnone : s.preludeTokens = none) (hline : s.sources.nextLine = line)
    (hscan : tokenizeFrom line text = .ok (leading ++ [mark])) : ∃ s₁,
    s.layFirst name text = (.ok leading, s₁) ∧ s₁.preludeTokens = some leading ∧
      s₁.sources.nextLine = line + SourceMap.lineCount text := by
  subst hline
  refine ⟨{ s with
    sources := (s.sources.add name text).2
    preludeTokens := some leading }, ?_, rfl, rfl⟩
  rw [layFirst, hnone]
  simp only [SourceMap.add]
  rw [hscan]
  dsimp only
  rw [List.dropLast_concat]

/-- What goes in front of a source while the prelude has still to run. -/
theorem Fronted.leading (h : s.Fronted) (hpending : s.preludePending = true) :
    ∃ leading mark s₁, s.leadingTokens = (.ok leading, s₁) ∧
      tokenizeFrom 1 Prelude.source = .ok (leading ++ [mark]) ∧
      s₁.preludeTokens = some leading ∧
      1 + SourceMap.lineCount Prelude.source ≤ s₁.sources.nextLine ∧
      (s.preludeTokens = none → s₁.sources.nextLine = 1 + SourceMap.lineCount Prelude.source) := by
  cases h with
  | fresh hnone hline =>
    obtain ⟨tokens, hscan⟩ := tokenizeFrom_prelude 1
    obtain ⟨leading, mark, rfl, _⟩ := tokenizeFrom_ok hscan
    obtain ⟨s₁, hlay, hsome, hnext⟩ := layFirst_of_none Prelude.name hnone hline hscan
    refine ⟨leading, mark, s₁, ?_, hscan, hsome, hnext.ge, fun _ => hnext⟩
    rw [leadingTokens, if_pos hpending, layPrelude, hlay]
  | @laid leading mark hsome hscan hline =>
    refine ⟨leading, mark, s, ?_, hscan, hsome, hline, by simp [hsome]⟩
    rw [leadingTokens, if_pos hpending, layPrelude, layFirst, hsome]

/-- A source behind a text that is laid out from the first line on: they are scanned as one text,
and what has been laid out in between pushes the lines of the source down. -/
theorem scanSource_behind {text : String} {leading : List Token} {mark : Token} {s₁ : Session}
    (hfeed : text.toList.getLast? = some '\n')
    (hscan : tokenizeFrom 1 text = .ok (leading ++ [mark]))
    (hlead : s.leadingTokens = (.ok leading, s₁))
    (hline : 1 + SourceMap.lineCount text ≤ s₁.sources.nextLine) (name source : String) : ∃ k,
    s.nextSourceLine = 1 + SourceMap.lineCount text + k ∧
      (s₁.sources.nextLine = 1 + SourceMap.lineCount text → k = 0) ∧
      (s.scanSource name source).1 = scanMoved (1 + SourceMap.lineCount text) k
        (tokenize (text ++ source)) := by
  obtain ⟨k, hk⟩ := Nat.exists_eq_add_of_le hline
  have hnext : s.nextSourceLine = s₁.sources.nextLine := by rw [nextSourceLine, hlead]
  refine ⟨k, hnext.trans hk, fun hn => by omega, ?_⟩
  have hlines := leading_lines hscan
  rw [scanSource_of_leading hlead, tokenize, tokenizeFrom_append hfeed hscan, hk,
    tokenizeFrom_moved k (Nat.le_refl _), scanMoved_behind hlines]

/-- One action. -/
theorem Fronted.perform (h : s.preludePending = true → s.Fronted) (a : Action)
    (hpending : (s.perform a).preludePending = true) : (s.perform a).Fronted := by
  cases a with
  | run fuel name source =>
    obtain ⟨hsources, htokens, hpending'⟩ := run_layout s fuel name source
    rw [Session.perform, hpending', Bool.and_eq_true, (scanSource_machine s name source).2.2]
      at hpending
    obtain ⟨leading, mark, s₁, hlead, hscan, hsome, hline, _⟩ := (h hpending.1).leading hpending.1
    rw [scanSource_of_leading hlead] at hsources htokens
    refine .laid (htokens.trans hsome) hscan ?_
    rw [Session.perform, hsources]
    exact Nat.le_trans hline (Nat.le_add_right _ _)
  | native | takeOutput =>
    cases h hpending with
    | fresh hnone hline => exact .fresh hnone hline
    | laid hsome hscan hline => exact .laid hsome hscan hline

/-- Any number of actions. -/
theorem Fronted.after (h : s.preludePending = true → s.Fronted) (history : List Action)
    (hpending : (s.after history).preludePending = true) : (s.after history).Fronted := by
  induction history generalizing s with
  | nil => exact h hpending
  | cons a history ih => exact ih (fun hp => Fronted.perform h a hp) hpending

theorem fronted_start (prelude : Bool) (input : List UInt8) (limit : Option Nat) (clock : Clock) :
    (start prelude input limit clock).Fronted := .fresh rfl rfl

end Session

/-- Scanning goes source by source.

* A source that can be scanned, a line feed and another source: the tokens of the first up to its
  end mark, the line feed where the end mark stands, and the tokens of the second with their numbers
  moved up, or the error of the second.
* The second source starts as many lines down as the layout gives to the first, if that does not
  end with a line feed.
* A session that puts a text in front of a source, one that ends with a line feed, scans the two as
  one text; so does a session that has still to run the prelude, except that what has been laid out
  in between pushes the lines of the source down. -/
theorem segments_scan_joined {line : Nat} {a : String} {tokens : List Token}
    (h : tokenizeFrom line a = .ok tokens) :
    (∃ inner mark, tokens = inner ++ [mark] ∧ mark.kind = .endMark ∧
      (⟨mark.line, mark.column⟩ : Position) = .behind line a.toList ∧
      ∀ b, tokenizeFrom line (a ++ "\n" ++ b) =
        (tokenizeFrom (line + 1 + a.toList.count '\n') b).map fun later =>
          inner ++ lineFeed ⟨mark.line, mark.column⟩ inner.length ::
            later.map (Token.shift (inner.length + 1))) ∧
    (a.toList.getLast? ≠ some '\n' → ∀ (m : SourceMap) (name : String),
      (m.add name a).2.nextLine = (m.add name a).1 + 1 + a.toList.count '\n') ∧
    (∀ (s s₁ : Session) (name text : String) (leading : List Token), s.preludeTokens = none →
      text.toList.getLast? = some '\n' → s.layFirst name text = (.ok leading, s₁) →
      ∀ source, ((tokenizeFrom s₁.sources.nextLine source).map fun tokens =>
        leading ++ tokens.map (Token.shift leading.length)) =
          tokenizeFrom s.sources.nextLine (text ++ source)) ∧
    ∀ (input : List UInt8) (limit : Option Nat) (clock : Clock) (history : List Action) (s : Session),
      s = (Session.start true input limit clock).after history → s.preludePending = true →
      ∀ name source,
        (s.preludeTokens = none →
          (s.scanSource name source).1 = tokenize (Prelude.source ++ source)) ∧
        ∃ k, s.nextSourceLine = 1 + SourceMap.lineCount Prelude.source + k ∧
          (s.scanSource name source).1 = scanMoved (1 + SourceMap.lineCount Prelude.source) k
            (tokenize (Prelude.source ++ source)) := by
  refine ⟨tokenizeFrom_join h, fun hlast => SourceMap.add_nextLine hlast, ?_, ?_⟩
  · intro s s₁ name text leading hnone hfeed hlay
    exact Session.layFirst_joins hnone hfeed hlay
  · rintro input limit clock history s rfl hpending name source
    have hfronted := Session.Fronted.after
      (fun _ => Session.fronted_start true input limit clock) history hpending
    obtain ⟨leading, mark, s₁, hlead, hscan, _, hline, hfresh⟩ := hfronted.leading hpending
    obtain ⟨k, hk, hzero, hsource⟩ :=
      Session.scanSource_behind Session.prelude_feed hscan hlead hline name source
    refine ⟨fun hnone => ?_, k, hk, hsource⟩
    rw [hsource, hzero (hfresh hnone), scanMoved_zero]

/-- A source that ends with one character of what could be two, and a new session. -/
theorem slash_scan_joined : ∃ inner mark, tokenizeFrom 3 "x /" = .ok (inner ++ [mark]) ∧
    (∀ b, tokenizeFrom 3 ("x /" ++ "\n" ++ b) = (tokenizeFrom 4 b).map fun later =>
      inner ++ lineFeed ⟨3, 4⟩ inner.length :: later.map (Token.shift (inner.length + 1))) ∧
    ((Session.start true [] none (.still 0)).scanSource "main" "x /").1 =
      tokenize (Prelude.source ++ "x /") := by
  obtain ⟨tokens, htokens⟩ : ∃ tokens, tokenizeFrom 3 "x /" = .ok tokens := ⟨_, by cbv⟩
  obtain ⟨⟨inner, mark, rfl, _, hplace, hjoin⟩, _, _, hsession⟩ := segments_scan_joined htokens
  have hcount : "x /".toList.count '\n' = 0 := by decide
  have hbehind : Position.behind 3 "x /".toList = ⟨3, 4⟩ := by decide
  rw [hplace, hbehind, hcount] at hjoin
  exact ⟨inner, mark, htokens, hjoin, (hsession [] none (.still 0) [] _ rfl rfl "main" "x /").1 rfl⟩

end ScopedScript
