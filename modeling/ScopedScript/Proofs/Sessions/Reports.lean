import ScopedScript.Proofs.Scanning.Stops
import ScopedScript.Proofs.Sessions.Origins

/-! # Where errors are reported

A report names the text that an error is in, and the line and the column within it.  Right after the
run that has the error it names the right place (`Session.error_reported_in_place`): that of the
character or token that the error is about, in the text that this was scanned from.  An error that
is found before anything runs is in the source that was run; an error of a running program may be in
the prelude or in an earlier source, if a function from there was running.  The functions of the host
are taken to report their errors at the call.

Later runs leave a report as it is, with one exception (`Session.report_stays_iff`).  A source that
ends with a line feed has its end mark on a line of its own, which the layout does not count; the
next source starts on that line.  A fault at such an end mark is then reported in the next source. -/

namespace ScopedScript

/-! ### Places in texts -/

namespace LaidText

/-- The report of an error behind so many characters of the text. -/
def report (text : LaidText) (offset : Nat) (message : String) : String :=
  text.name ++ ":" ++ toString (1 + (text.source.toList.take offset).count '\n') ++ ":" ++
    toString (1 + sinceFeed (text.source.toList.take offset)) ++ ": " ++ message

/-- The error is about what stands in the text behind so many characters: the broken piece that whole
pieces lead to, or a token.  The end mark is only ever a token that the parser did not expect. -/
def Offends (text : LaidText) (offset : Nat) : Error → Prop
  | .scan e => Piece.Leads text.source.toList (text.source.toList.drop offset) ∧
      Piece.Broken e.fault (text.source.toList.drop offset)
  | .parse e => ∃ span, text.Scanned span ∧ span.start = offset ∧ span.token.Becomes e.token
  | .scope e => ∃ span, text.Scanned span ∧ span.start = offset ∧
      span.token.kind ≠ .endMark ∧ span.token.Becomes e.token
  | .runtime e => ∃ span, text.Scanned span ∧ span.start = offset ∧
      span.token.kind ≠ .endMark ∧ span.token.Becomes e.token

/-- The place is behind so many characters of the text. -/
def Has (text : LaidText) (offset line column : Nat) : Prop :=
  line = text.first + (text.source.toList.take offset).count '\n' ∧
    column = 1 + sinceFeed (text.source.toList.take offset)

variable {text : LaidText}

theorem Has.report {offset : Nat} {e : Error} (h : text.Has offset e.line e.column) {s : Session}
    (hlocate : s.sources.locate e.line = (text.name, e.line - text.first + 1)) :
    s.report e = text.report offset e.message := by
  unfold Session.report LaidText.report
  rw [hlocate, h.1, h.2, Nat.add_sub_cancel_left, Nat.add_comm _ 1]

theorem Scanned.has {span : Span} (h : text.Scanned span) {t : Token} (ht : span.token.Becomes t) :
    text.Has span.start t.line t.column := by
  obtain ⟨spans, _, hcovers, hspan⟩ := h
  have hstands := hcovers.standing span hspan
  rw [ht.place.1, ht.place.2]
  exact ⟨hstands.line, hstands.column⟩

/-- A token stands on a line of its text, unless it is the end mark. -/
theorem Scanned.line_lt {span : Span} (h : text.Scanned span) (hmark : span.token.kind ≠ .endMark)
    {t : Token} (ht : span.token.Becomes t) : t.line < text.stop := by
  obtain ⟨spans, htokens, _, hspan⟩ := h
  obtain ⟨inner, mark, heq, hkind, _, hinner⟩ := tokenizeFrom_ok htokens
  have hmem : span.token ∈ inner ++ [mark] := heq ▸ List.mem_map_of_mem hspan
  rw [ht.place.1]
  rcases List.mem_append.1 hmem with hmem | hmem
  · exact (hinner _ hmem).2.2
  · rw [List.mem_singleton.1 hmem] at hmark
    exact absurd hkind hmark

/-- A token of a text stands on one of its lines. -/
theorem Bears.line {t : Token} (h : text.Bears t) : text.first ≤ t.line ∧ t.line < text.stop := by
  obtain ⟨span, hspan, hmark, hbecomes⟩ := h
  refine ⟨?_, hspan.line_lt hmark hbecomes⟩
  rw [(hspan.has hbecomes).1]
  exact Nat.le_add_right _ _

/-- The end mark stands behind the text. -/
theorem Scanned.start_eq {span : Span} (h : text.Scanned span)
    (hmark : span.token.kind = .endMark) : span.start = text.source.toList.length := by
  obtain ⟨spans, _, hcovers, hspan⟩ := h
  obtain ⟨inner, mark, rfl, _, _, hinner⟩ := hcovers.marked
  rcases List.mem_append.1 hspan with hspan | hspan
  · exact absurd hmark (hinner span hspan)
  · rw [List.mem_singleton.1 hspan]

/-- The place behind all of a text is on a line of the text, unless that ends with a line feed. -/
theorem Has.line_of_end {line column : Nat} (h : text.Has text.source.toList.length line column) :
    line = if text.source.toList.getLast? = some '\n' then text.stop else text.stop - 1 := by
  have hline := h.1
  rw [List.take_length] at hline
  unfold stop
  rw [lineCount_eq, linesOf]
  split <;> omega

end LaidText

theorem Error.place_of_token {e : Error} {t : Token} (h : e.token? = some t) :
    e.line = t.line ∧ e.column = t.column := by
  cases e with
  | scan e => cases h
  | parse e | scope e | runtime e =>
    obtain rfl := Option.some.inj h
    exact ⟨rfl, rfl⟩

/-! ### Errors of a run -/

namespace Session

variable {texts : List LaidText} {s : Session} {fuel : Nat} {name source : String}

/-- The error is a fault at the end mark of a source that ends with a line feed. -/
def AtOpenEnd (source : String) (e : Error) : Prop :=
  ∃ fault, e = .parse fault ∧ fault.token.kind = .endMark ∧
    source.toList.getLast? = some '\n'

/-- What a run that fails says of the place of its error. -/
structure Fails (texts : List LaidText) (own text : LaidText) (offset : Nat) (e : Error) :
    Prop where
  mem : text ∈ texts
  isOwn : e.isStatic = true → text = own
  offends : text.Offends offset e
  place : text.Has offset e.line e.column
  /-- The line is one of the text, unless the error is at the end mark. -/
  inside : e.line < text.stop ∨ text = own ∧ offset = own.source.toList.length ∧
    ∃ fault, e = .parse fault ∧ fault.token.kind = .endMark

theorem fails_of_scan {own : LaidText} (hmem : own ∈ texts) {e : ScanError}
    (h : tokenizeFrom own.first own.source = .error e) :
    ∃ offset, Fails texts own own offset (.scan e) := by
  obtain ⟨before, tail, hsource, hleads, hbroken, hplace⟩ := broken_of_tokenizeFrom h
  have htake : own.source.toList.take before.length = before := by rw [hsource, List.take_left]
  have hdrop : own.source.toList.drop before.length = tail := by rw [hsource, List.drop_left]
  have hline : e.position.line = own.first + before.count '\n' := by
    rw [hplace]
    rfl
  refine ⟨before.length, hmem, fun _ => rfl, ?_, ?_, .inl ?_⟩
  · rw [LaidText.Offends, hdrop]
    exact ⟨hleads, hbroken⟩
  · rw [LaidText.Has, htake]
    refine ⟨hline, ?_⟩
    change e.position.column = _
    rw [hplace]
    rfl
  · change e.position.line < _
    rw [hline, LaidText.stop, lineCount_eq, hsource, linesOf_append before hbroken.ne_nil]
    have := linesOf_pos tail
    omega

theorem fails_of_bears {own text : LaidText} (hmem : text ∈ texts) {e : Error} {t : Token}
    (ht : text.Bears t) (htoken : e.token? = some t) (hown : e.isStatic = true → text = own) :
    ∃ offset, Fails texts own text offset e := by
  obtain ⟨span, hspan, hmark, hbecomes⟩ := ht
  obtain ⟨hline, hcolumn⟩ := Error.place_of_token htoken
  refine ⟨span.start, hmem, hown, ?_, ?_, .inl ?_⟩
  · cases e with
    | scan e => cases htoken
    | parse e =>
      obtain rfl := Option.some.inj htoken
      exact ⟨span, hspan, rfl, hbecomes⟩
    | scope e | runtime e =>
      obtain rfl := Option.some.inj htoken
      exact ⟨span, hspan, rfl, hmark, hbecomes⟩
  · rw [hline, hcolumn]
    exact hspan.has hbecomes
  · rw [hline]
    exact hspan.line_lt hmark hbecomes

theorem fails_of_ends {own : LaidText} (hmem : own ∈ texts) {e : ParseError}
    (hkind : e.token.kind = .endMark) (ht : own.Ends e.token) :
    ∃ offset, Fails texts own own offset (.parse e) := by
  obtain ⟨span, hspan, hmark, hbecomes⟩ := ht
  refine ⟨span.start, hmem, fun _ => rfl, ⟨span, hspan, rfl, hbecomes⟩, hspan.has hbecomes,
    .inr ⟨rfl, hspan.start_eq hmark, e, rfl, hkind⟩⟩

/-- The place of the error that a run fails with.  Only for the error of a running program it matters
where the tokens on the machine come from. -/
theorem Grounded.fails (h : s.Grounded texts) {e : Error} (hroot : e.isStatic = false → s.Rooted texts)
    (hrun : (s.run fuel name source).1 = .failed e) : ∃ text offset,
    Fails (texts ++ s.lays (.run fuel name source)) ⟨name, source, s.nextSourceLine⟩ text offset
      e := by
  have hmem : ⟨name, source, s.nextSourceLine⟩ ∈ texts ++ s.lays (.run fuel name source) := by
    rw [lays]
    simp
  have hloaded := load_loaded s name source
  have hexecuted := hrun
  unfold run at hexecuted
  generalize s.load name source = r at hloaded hexecuted
  cases hloaded with
  | @scan err s₁ hscan =>
    obtain rfl := Outcome.failed.inj hexecuted
    obtain ⟨leading, s₂, hlead, _⟩ := h.leading fuel name source
    have hline : s.nextSourceLine = s₂.sources.nextLine := by rw [nextSourceLine, hlead]
    rw [scanSource_of_leading hlead] at hscan
    refine ⟨_, fails_of_scan hmem ?_⟩
    rw [hline]
    generalize tokenizeFrom s₂.sources.nextLine source = r at hscan
    cases r with
    | error e' => exact (Prod.mk.inj hscan).1
    | ok tokens => cases (Prod.mk.inj hscan).1
  | parse hscan hparse =>
    obtain rfl := Outcome.failed.inj hexecuted
    rcases (h.parsed fuel hscan rfl).1 _ hparse with hbears | ⟨hkind, hends⟩
    · exact ⟨_, fails_of_bears hmem hbears rfl fun _ => rfl⟩
    · exact ⟨_, fails_of_ends hmem hkind hends⟩
  | unfinished hscan hparse _ => cases hexecuted
  | scope hscan hparse hres =>
    obtain rfl := Outcome.failed.inj hexecuted
    have hbears := ((h.parsed fuel hscan rfl).2 _ _ hparse).2 _ _ hres
    exact ⟨_, fails_of_bears hmem hbears rfl fun _ => rfl⟩
  | accepted hscan hparse hres =>
    obtain ⟨err, rfl⟩ : ∃ err, e = .runtime err := by
      dsimp only at hexecuted
      unfold execute at hexecuted
      split at hexecuted <;> cases hexecuted
      exact ⟨_, rfl⟩
    obtain ⟨text, htext, hbears⟩ := (h.run_rooted (hroot rfl) fuel name source).2 err hrun
    exact ⟨text, fails_of_bears htext hbears rfl fun he => by cases he⟩

/-! ### Reports -/

/-- Right after the run the error is reported in its place. -/
theorem Grounded.report (h : s.Grounded texts) {text : LaidText} {offset : Nat} {e : Error}
    (hfails : Fails (texts ++ s.lays (.run fuel name source)) ⟨name, source, s.nextSourceLine⟩ text
      offset e) :
    (s.run fuel name source).2.report e = text.report offset e.message := by
  have hsources := perform_sources h.laid h.sources (.run fuel name source)
  have hlow : text.first ≤ e.line := hfails.place.1 ▸ Nat.le_add_right _ _
  refine hfails.place.report ?_
  rcases hfails.inside with hline | ⟨rfl, _⟩
  · exact hsources.locate hfails.mem hlow hline
  · -- the source that has just been run is the last text
    rw [lays, ← List.append_assoc] at hsources
    exact hsources.locate_of_lt hlow (by simp)

/-- An error on a line of its text keeps its report. -/
theorem Grounded.report_stays (h : s.Grounded texts) {text : LaidText} {offset : Nat} {e : Error}
    (hfails : Fails (texts ++ s.lays (.run fuel name source)) ⟨name, source, s.nextSourceLine⟩ text
      offset e) (hline : e.line < text.stop) (more : List Action) :
    ((s.run fuel name source).2.after more).report e = (s.run fuel name source).2.report e := by
  have hlow : text.first ≤ e.line := hfails.place.1 ▸ Nat.le_add_right _ _
  have hlater := ((h.perform (.run fuel name source)).after more).sources
  rw [h.report hfails]
  exact hfails.place.report (hlater.locate (List.mem_append_left _ hfails.mem) hlow hline)

/-- A prelude that has been laid out is not laid out again. -/
theorem leadingTokens_of_some {tokens : List Token} (h : s.preludeTokens = some tokens) :
    s.leadingTokens.2 = s := by
  unfold leadingTokens
  split
  · unfold layPrelude layFirst
    rw [h]
  · rfl

/-- After a run the next source starts where the layout ends. -/
theorem Grounded.nextSourceLine (h : s.Grounded texts) (fuel : Nat) (name source : String) :
    (s.run fuel name source).2.nextSourceLine =
      LaidText.stop ⟨name, source, s.nextSourceLine⟩ := by
  obtain ⟨leading, s₁, hlead, _, _, _, hsome, _⟩ := leadingTokens_ok h.laid
  obtain ⟨hsources, htokens, hpending⟩ := run_layout s fuel name source
  have hkept := (scanSource_machine s name source).2.2
  rw [scanSource_of_leading hlead] at hsources htokens hpending hkept
  generalize (s.run fuel name source).2 = r at hsources htokens hpending
  have hsame : r.leadingTokens.2 = r := by
    cases hp : r.preludePending with
    | true =>
      -- the prelude has been laid out already
      rw [hpending, Bool.and_eq_true, hkept] at hp
      rw [leadingTokens_of_some (htokens.trans (hsome hp.1))]
    | false => rw [leadingTokens, hp, if_neg Bool.false_ne_true]
  rw [Session.nextSourceLine, Session.nextSourceLine, hsame, hsources, hlead]
  rfl

/-- A fault at an end mark stands behind all of its source. -/
theorem Fails.offset_eq {own text : LaidText} {offset : Nat} {e : ParseError}
    (h : Fails texts own text offset (.parse e)) (hkind : e.token.kind = .endMark) :
    text = own ∧ offset = own.source.toList.length := by
  obtain rfl := h.isOwn rfl
  obtain ⟨span, hspan, rfl, k, ht | ⟨kind, hmem, lexeme, ht⟩⟩ := h.offends
  · rw [ht] at hkind
    exact ⟨rfl, hspan.start_eq hkind⟩
  · have harith : ∀ kind ∈ Grammar.arithmetic, kind ≠ .endMark := by decide
    rw [ht] at hkind
    exact absurd hkind (harith kind hmem)

/-- Such a fault is on the line behind the source if that ends with a line feed. -/
theorem Fails.line_eq {own text : LaidText} {offset : Nat} {e : Error}
    (h : Fails texts own text offset e) (hend : AtOpenEnd own.source e) :
    e.line = own.stop ∧ e.column = 1 := by
  obtain ⟨fault, rfl, hkind, hfeed⟩ := hend
  obtain ⟨rfl, rfl⟩ := h.offset_eq hkind
  refine ⟨by rw [h.place.line_of_end, if_pos hfeed], ?_⟩
  rw [h.place.2, List.take_length]
  obtain ⟨before, hbefore⟩ := List.getLast?_eq_some_iff.1 hfeed
  rw [hbefore, sinceFeed]
  simp

/-- Any other error is on a line of its text. -/
theorem Fails.line_lt {own text : LaidText} {offset : Nat} {e : Error}
    (h : Fails texts own text offset e) (hend : ¬AtOpenEnd own.source e) : e.line < text.stop := by
  rcases h.inside with hline | ⟨rfl, rfl, fault, rfl, hkind⟩
  · exact hline
  · have hfeed : text.source.toList.getLast? ≠ some '\n' := fun hfeed =>
      hend ⟨fault, rfl, hkind, hfeed⟩
    have hpos := linesOf_pos text.source.toList
    rw [h.place.line_of_end, if_neg hfeed, LaidText.stop, lineCount_eq]
    omega

/-- A fault at the end mark of a source that ends with a line feed is reported in the next source
that is run. -/
theorem Grounded.report_moves (h : s.Grounded texts) {text : LaidText} {offset : Nat} {e : Error}
    (hfails : Fails (texts ++ s.lays (.run fuel name source)) ⟨name, source, s.nextSourceLine⟩ text
      offset e) (hend : AtOpenEnd source e) (other : String) :
    ((s.run fuel name source).2.after [.run 0 other ""]).report e =
      other ++ ":" ++ toString 1 ++ ":" ++ toString 1 ++ ": " ++ e.message := by
  obtain ⟨hline, hcolumn⟩ := hfails.line_eq hend
  have hground := h.perform (.run fuel name source)
  generalize texts ++ s.lays (.run fuel name source) = before at hground
  have hsources := (hground.perform (.run 0 other "")).sources
  have hnext := h.nextSourceLine fuel name source
  rw [lays, ← List.append_assoc] at hsources
  rw [← hnext] at hline
  have hlocate : ((s.run fuel name source).2.after [.run 0 other ""]).sources.locate e.line =
      (other, e.line - (s.run fuel name source).2.nextSourceLine + 1) := by
    refine hsources.locate_of_lt hline.ge ?_
    simp
  unfold Session.report
  rw [hlocate, hcolumn, hline, Nat.sub_self]

theorem append_mark_ne (name rest rest' : String) :
    name ++ ("!" ++ rest) ≠ name ++ (":" ++ rest') := by
  intro heq
  have hchars := congrArg String.toList heq
  simp at hchars

/-! ### Histories -/

/-- Every error of a run is reported in its place, if the functions of the host report errors at
their calls.  The report taken right after the run names a text, and the line and column of the place
in that text which the error is about.  For an error of the scanner, the parser or the analysis this
is the source that was run; for an error of a running program it is the text that the token in
question was scanned from, which is one of those laid out so far. -/
theorem error_reported_in_place (prelude : Bool) (input : List UInt8) (limit : Option Nat)
    (clock : Clock) (history : List Action)
    (hhosts : ∀ a ∈ history, ∀ f ∈ a.hosts, f.ReportsAtSite) {s : Session}
    (hs : s = (start prelude input limit clock).after history) {fuel : Nat} {name source : String}
    {e : Error} (hrun : (s.run fuel name source).1 = .failed e) :
    ∃ text offset,
      text ∈ (start prelude input limit clock).texts (history ++ [.run fuel name source]) ∧
      (e.isStatic = true → text = ⟨name, source, s.nextSourceLine⟩) ∧
      text.Offends offset e ∧
      (s.run fuel name source).2.report e = text.report offset e.message := by
  have hstart := grounded_start prelude input limit clock
  have hground := hstart.after history
  have hroot := (rooted_start prelude input limit clock).after hstart hhosts
  rw [← hs, List.nil_append] at hground hroot
  obtain ⟨text, offset, hfails⟩ := hground.fails (fun _ => hroot) hrun
  refine ⟨text, offset, ?_, hfails.isOwn, hfails.offends, hground.report hfails⟩
  rw [texts_append, ← hs, Session.texts, Session.texts, List.append_nil]
  exact hfails.mem

/-- A source that cannot be scanned by itself cannot be run. -/
theorem run_of_scan_error {s : Session} (h : s.Laid) (fuel : Nat) (name : String) {source : String}
    {e₀ : ScanError} (he₀ : tokenizeFrom 0 source = .error e₀) :
    ∃ e : ScanError, (s.run fuel name source).1 = .failed (.scan e) ∧ e.fault = e₀.fault := by
  obtain ⟨leading, s₁, hlead, -⟩ := leadingTokens_ok h
  have hscan : tokenizeFrom (0 + s₁.sources.nextLine) source =
      .error (e₀.down s₁.sources.nextLine) := by
    rw [tokenizeFrom_down, he₀]
    rfl
  rw [Nat.zero_add] at hscan
  have hsource : s.scanSource name source = _ := scanSource_of_leading hlead
  rw [hscan] at hsource
  refine ⟨e₀.down s₁.sources.nextLine, ?_, rfl⟩
  rw [run, load_of_scan_error hsource]

/-- A line feed is a piece of its own, so what is broken behind it is the second character. -/
theorem broken_behind_feed {offset : Nat} {fault : ScanFault}
    (hleads : Piece.Leads ['\n', '@'] (['\n', '@'].drop offset))
    (hbroken : Piece.Broken fault (['\n', '@'].drop offset)) : offset = 1 := by
  have hpiece : Piece.ofSource '\n' ['@'] = .token .newline none ['\n'] ['@'] := rfl
  have hfeed : Piece.Leads ['\n', '@'] ['@'] := .token hpiece (.here _)
  have hmark : Piece.Broken (.unexpectedCharacter '@') ['@'] := Piece.ofSource_eq_fault_iff.1 rfl
  have hrest := hfeed.broken_unique hmark hleads hbroken
  match offset with
  | 0 => simp at hrest
  | 1 => rfl
  | offset + 2 => simp at hrest

/-- The statements of `function f()`, with a body on the next line that reads a variable. -/
def makesF : Program :=
  [.functionDecl (.mk (.make .name "f" 1 10 1 none) []
    [.expression (.name 0 (.make .name "x" 2 1 6 none)) (.make .name "x" 2 1 6 none)] none)]

/-- The statements of `f()`. -/
def callsF : Program :=
  [.expression (.call (.name 1 (.make .name "f" 3 1 0 none)) (.make .rightParen ")" 3 3 2 none) [])
    (.make .name "f" 3 1 0 none)]

set_option maxRecDepth 100000 in
theorem makesF_spelled : ∃ tokens, tokenizeFrom 1 "function f()\x7b\nx\x7d" = .ok tokens ∧
    parseFrom 0 tokens = .ok (makesF, 1) :=
  ⟨_, by cbv, by cbv⟩

set_option maxRecDepth 100000 in
theorem callsF_spelled : ∃ tokens, tokenizeFrom 3 "f()" = .ok tokens ∧
    parseFrom 1 tokens = .ok (callsF, 2) :=
  ⟨_, by cbv, by cbv⟩

set_option maxRecDepth 100000 in
/-- The function reads a variable that there is not. -/
theorem callsF_fails {s : Session} (h : s.machine = ((hosted false).execute 9 makesF).2.machine) :
    (s.execute 9 callsF).1 =
      .failed (.runtime ⟨.undefinedVariable "x", .make .name "x" 2 1 6 none⟩) := by
  unfold Session.execute
  rw [h]
  -- what a task does is chosen by its type, so the choice is opened by hand
  cbv
  simp only [Evaluation.step]
  cbv

/-- Running a source that is accepted, without anything in front of it. -/
theorem run_of_ready (hready : s.preludePending = false) (fuel : Nat) (name : String)
    {tokens : List Token} {program : Program} {nextId : NodeId} {distances : Distances}
    (htokens : tokenizeFrom s.sources.nextLine source = .ok tokens)
    (hparse : parseFrom s.nextId tokens = .ok (program, nextId))
    (hres : resolve s.machine.distances program = (.ok (), distances)) :
    s.run fuel name source = execute { s with
        machine := { s.machine with distances := distances }
        sources := (s.sources.add name source).2
        preludePending := false
        nextId := nextId } fuel program := by
  rw [run, load_of_accepted (scanSource_of_ready hready name htokens) hparse hres]
  rfl

/-- A function of one source that fails when it is called from another one. -/
theorem callsF_run : ∃ s, s = (start false [] none (.still 0)).after
      (hostStart ++ [.run 9 "one" "function f()\x7b\nx\x7d"]) ∧
    (s.run 9 "two" "f()").1 =
      .failed (.runtime ⟨.undefinedVariable "x", .make .name "x" 2 1 6 none⟩) ∧
    (s.run 9 "two" "f()").2.report (.runtime ⟨.undefinedVariable "x", .make .name "x" 2 1 6 none⟩) =
      "one:2:1: Undefined variable 'x'." := by
  obtain ⟨tokens, htokens, hparse⟩ := makesF_spelled
  obtain ⟨tokens', htokens', hparse'⟩ := callsF_spelled
  obtain ⟨s, hs⟩ : ∃ s, s = ((hosted false).run 9 "one" "function f()\x7b\nx\x7d").2 := ⟨_, rfl⟩
  have hdistances : resolve (hosted false).machine.distances makesF = (.ok (), {}) := rfl
  have hone := hs
  rw [run_of_ready rfl 9 "one" htokens hparse hdistances] at hone
  have hready : s.preludePending = false := by rw [hone]; rfl
  have hscan : tokenizeFrom s.sources.nextLine "f()" = .ok tokens' := by rw [hone]; exact htokens'
  have hread : parseFrom s.nextId tokens' = .ok (callsF, 2) := by rw [hone]; exact hparse'
  have hfound : resolve s.machine.distances callsF = (.ok (), {}) := by rw [hone]; rfl
  have htwo := run_of_ready hready 9 "two" hscan hread hfound
  refine ⟨s, ?_, ?_, ?_⟩
  · rw [after_append, hs]
    rfl
  · rw [htwo]
    exact callsF_fails (by rw [hone]; rfl)
  · unfold Session.report
    rw [htwo, (execute_layout _ 9 callsF).1, hone]
    decide

/-- Two errors in the second of two sources, with functions of the host registered.  With the
prelude still to run, it is a character on the second line of that source; without a prelude, it is a
variable that a function of the first source reads, on the second line there. -/
theorem second_line_reported :
    (∃ s e, s = (start true [] none (.still 0)).after (hostStart ++ [.run 0 "one" "@"]) ∧
      (s.run 0 "two" "\n@").1 = .failed e ∧
      (s.run 0 "two" "\n@").2.report e = "two:2:1: unexpected character '@'") ∧
    ∃ s e, s = (start false [] none (.still 0)).after
        (hostStart ++ [.run 9 "one" "function f()\x7b\nx\x7d"]) ∧
      (s.run 9 "two" "f()").1 = .failed (.runtime e) ∧
      (∃ text offset, text ∈ (start false [] none (.still 0)).texts (hostStart ++
          [.run 9 "one" "function f()\x7b\nx\x7d"] ++ [.run 9 "two" "f()"]) ∧
        text.Offends offset (.runtime e) ∧
        (s.run 9 "two" "f()").2.report (.runtime e) = text.report offset (Error.runtime e).message) ∧
      (s.run 9 "two" "f()").2.report (.runtime e) = "one:2:1: Undefined variable 'x'." := by
  have hhosts (last : Action) (hlast : last.hosts = []) :
      ∀ a ∈ hostStart ++ [last], ∀ f ∈ a.hosts, f.ReportsAtSite := by
    have hshout := forall_hosts_hostStart (P := HostFunction.ReportsAtSite)
      HostFunction.plain_reportsAtSite
    refine List.forall_mem_append.2 ⟨hshout, ?_⟩
    simp [hlast]
  refine ⟨?_, ?_⟩
  · obtain ⟨s, hs⟩ : ∃ s, s = (start true [] none (.still 0)).after
        (hostStart ++ [.run 0 "one" "@"]) := ⟨_, rfl⟩
    have hlaid : s.Laid := hs ▸ (laid_start true [] none (.still 0)).after _
    have hscan : tokenizeFrom 0 "\n@" = .error ⟨.unexpectedCharacter '@', ⟨1, 1⟩⟩ := by cbv
    obtain ⟨e, hrun, hfault⟩ := run_of_scan_error hlaid 0 "two" hscan
    obtain ⟨text, offset, _, hown, ⟨hleads, hbroken⟩, hreport⟩ :=
      error_reported_in_place true [] none (.still 0) _ (hhosts _ rfl) hs hrun
    refine ⟨s, _, hs, hrun, ?_⟩
    rw [hreport, Error.message, hfault]
    obtain rfl := hown rfl
    have hchars : "\n@".toList = ['\n', '@'] := by decide
    rw [hchars] at hleads hbroken
    have hcount : 1 + (['\n', '@'].take 1).count '\n' = 2 := by decide
    have hsince : 1 + sinceFeed (['\n', '@'].take 1) = 1 := by decide
    rw [broken_behind_feed hleads hbroken, LaidText.report, hchars, hcount, hsince]
    dsimp only
    decide
  · obtain ⟨s, hs, hrun, hshown⟩ := callsF_run
    obtain ⟨text, offset, hmem, -, hoffends, hreport⟩ :=
      error_reported_in_place false [] none (.still 0) _ (hhosts _ rfl) hs hrun
    exact ⟨s, _, hs, hrun, ⟨text, offset, hmem, hoffends, hreport⟩, hshown⟩

/-- The report of an error stays what it was right after the run, whatever is done later, unless the
error is a fault at the end mark of a source that ends with a line feed.  For the error of a running
program that is so if the functions of the host report errors at their calls. -/
theorem report_stays_iff (prelude : Bool) (input : List UInt8) (limit : Option Nat) (clock : Clock)
    (history : List Action) {s : Session} (hs : s = (start prelude input limit clock).after history)
    {fuel : Nat} {name source : String} {e : Error}
    (hrun : (s.run fuel name source).1 = .failed e)
    (hhosts : e.isStatic = false → ∀ a ∈ history, ∀ f ∈ a.hosts, f.ReportsAtSite) :
    (∀ more : List Action,
      ((s.run fuel name source).2.after more).report e = (s.run fuel name source).2.report e) ↔
    ¬AtOpenEnd source e := by
  have hstart := grounded_start prelude input limit clock
  have hground := hstart.after history
  rw [← hs, List.nil_append] at hground
  have hroot (he : e.isStatic = false) :
      s.Rooted ((start prelude input limit clock).texts history) := by
    have hroot := (rooted_start prelude input limit clock).after hstart (hhosts he)
    rwa [← hs, List.nil_append] at hroot
  obtain ⟨text, offset, hfails⟩ := hground.fails hroot hrun
  refine ⟨fun hstays hend => ?_, fun hend => hground.report_stays hfails (hfails.line_lt hend)⟩
  have hown : text = ⟨name, source, s.nextSourceLine⟩ := by
    obtain ⟨fault, rfl, _⟩ := hend
    exact hfails.isOwn rfl
  have hsame := hstays [.run 0 (name ++ "!") ""]
  rw [hground.report_moves hfails hend, hground.report hfails, LaidText.report, hown] at hsame
  simp only [String.append_assoc] at hsame
  exact append_mark_ne _ _ _ hsame

/-- A parenthesis that is never closed, and a line feed: the end mark is on the second line of the
first source until another source is run. -/
theorem open_paren_report_moves : ∃ e : Error,
    ((start false [] none (.still 0)).run 0 "first" "(\n").1 = .failed e ∧ AtOpenEnd "(\n" e ∧
    ¬∀ more : List Action,
      (((start false [] none (.still 0)).run 0 "first" "(\n").2.after more).report e =
        ((start false [] none (.still 0)).run 0 "first" "(\n").2.report e := by
  have htokens : tokenizeFrom 1 "(\n" = .ok [.make .leftParen "(" 1 1 0 none,
      .make .newline "\n" 1 2 1 none, .make .endMark "" 2 1 2 none] := by cbv
  have hparse : parseFrom 0 [.make .leftParen "(" 1 1 0 none, .make .newline "\n" 1 2 1 none,
      .make .endMark "" 2 1 2 none] = .error (.rejected ⟨.expected .expression,
        .make .endMark "" 2 1 2 none⟩) := by cbv
  have hrun : ((start false [] none (.still 0)).run 0 "first" "(\n").1 = .failed (.parse
      ⟨.expected .expression, .make .endMark "" 2 1 2 none⟩) := by
    rw [run, load_of_rejected (scanSource_of_ready rfl "first" htokens) hparse]
  have hend : AtOpenEnd "(\n" (.parse ⟨.expected .expression, .make .endMark "" 2 1 2 none⟩) :=
    ⟨_, rfl, rfl, by decide⟩
  refine ⟨_, hrun, hend, fun hstays => ?_⟩
  exact (report_stays_iff false [] none (.still 0) [] rfl hrun fun he => by cases he).1 hstays hend

end Session

end ScopedScript
