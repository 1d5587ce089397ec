import ScopedScript.Proofs.Scanning
import ScopedScript.Proofs.Sessions.Histories

/-! # Layouts with a source more

Two sessions run the same sources, except that the second one has had a source more.  From that
source on, all lines of the second session are further down, by the number of lines of that source;
earlier lines are where they were.  `moveLine` is that change, and tokens and errors move with their
lines.

* `SourceMap.Moved` relates the layouts.  A line and the line that it has moved to are located in the
  same source, at the same line of it (`SourceMap.Moved.locate`).
* `Session.Shifted` relates the sessions as far as their layouts go.  The prelude is laid out
  when the first source is run, whether or not that one can be run; so it is possible that the
  second session has laid it out already, in front of the source that it has more.
* Scanning the same source in both sessions gives the same tokens, moved, or the same error, moved
  (`Session.Shifted.scanSource`). -/

namespace ScopedScript

/-! ### Lines -/

section

variable (first k : Nat)

/-- Where a line is if `k` lines have been put in front of the line `first`. -/
def moveLine (line : Nat) : Nat := if line < first then line else line + k

/-- The token on the line it has moved to. -/
def Token.moved (t : Token) : Token := { t with line := moveLine first k t.line }

/-- The error on the line it has moved to. -/
def Error.moved : Error → Error
  | .scan e => .scan { e with position := { e.position with
      line := moveLine first k e.position.line } }
  | .parse e => .parse { e with token := e.token.moved first k }
  | .scope e => .scope { e with token := e.token.moved first k }
  | .runtime e => .runtime { e with token := e.token.moved first k }

end

section

variable {first k : Nat}

theorem moveLine_of_lt {line : Nat} (h : line < first) : moveLine first k line = line := if_pos h

theorem moveLine_of_le {line : Nat} (h : first ≤ line) : moveLine first k line = line + k :=
  if_neg (Nat.not_lt.2 h)

theorem Token.moved_of_lt {t : Token} (h : t.line < first) : t.moved first k = t := by
  rw [Token.moved, moveLine_of_lt h]

theorem Token.moved_of_le {t : Token} (h : first ≤ t.line) : t.moved first k = t.down k := by
  rw [Token.moved, moveLine_of_le h]
  rfl

theorem Error.moved_line (e : Error) : (e.moved first k).line = moveLine first k e.line := by
  cases e <;> rfl

theorem Error.moved_column (e : Error) : (e.moved first k).column = e.column := by
  cases e <;> rfl

theorem Error.moved_message (e : Error) : (e.moved first k).message = e.message := by
  cases e <;> rfl

end

/-! ### Layouts -/

/-- The source `k` lines further down. -/
def Segment.down (k : Nat) (s : Segment) : Segment := { s with firstLine := s.firstLine + k }

/-- The second layout has `extra` lines more, in front of the line `first` of the first one.  What
has been laid out since then starts on that line. -/
structure SourceMap.Moved (first k : Nat) (m m' : SourceMap) : Prop where
  nextLine : m'.nextLine = m.nextLine + k
  reached : first ≤ m.nextLine
  segments : ∃ later earlier extra, m.segments = later ++ earlier ∧
    m'.segments = later.map (Segment.down k) ++ extra :: earlier ∧ extra.firstLine = first ∧
    (∀ s ∈ later, first ≤ s.firstLine) ∧
    (later = [] → m.nextLine = first) ∧ (later ≠ [] → ∃ s ∈ later, s.firstLine = first)

namespace SourceMap.Moved

variable {first k : Nat} {m m' : SourceMap}

/-- Another source in both layouts. -/
theorem add (h : Moved first k m m') (name source : String) :
    (m'.add name source).1 = (m.add name source).1 + k ∧
      Moved first k (m.add name source).2 (m'.add name source).2 := by
  obtain ⟨hnext, hfirst, later, earlier, extra, hs, hs', hextra, hlater, hnil, hcons⟩ := h
  refine ⟨hnext, ?_, ?_, ⟨name, m.nextLine⟩ :: later, earlier, extra, ?_, ?_, hextra, ?_, by simp, ?_⟩
  · simp only [SourceMap.add]
    omega
  · simp only [SourceMap.add]
    omega
  · simp only [SourceMap.add, hs, List.cons_append]
  · simp only [SourceMap.add, hs', hnext, List.map_cons, List.cons_append]
    rfl
  · exact List.forall_mem_cons.2 ⟨hfirst, hlater⟩
  · intro _
    by_cases hl : later = []
    · exact ⟨_, List.mem_cons_self, hnil hl⟩
    · obtain ⟨s, hs, hfirst⟩ := hcons hl
      exact ⟨s, List.mem_cons_of_mem _ hs, hfirst⟩

theorem find_down {segments : List Segment} {line : Nat} :
    (segments.map (Segment.down k)).find? (·.firstLine ≤ line + k) =
      (segments.find? (·.firstLine ≤ line)).map (Segment.down k) := by
  induction segments with
  | nil => rfl
  | cons s segments ih =>
    simp only [List.map_cons, List.find?_cons, Segment.down, Nat.add_le_add_iff_right]
    cases decide (s.firstLine ≤ line) with
    | true => rfl
    | false => exact ih

/-- A line is located where the line it has moved to is located. -/
theorem locate (h : Moved first k m m') (hlater : m.nextLine ≠ first) (line : Nat) :
    m'.locate (moveLine first k line) = m.locate line := by
  obtain ⟨hnext, hfirst, later, earlier, extra, hs, hs', hextra, hle, hnil, hcons⟩ := h
  unfold SourceMap.locate
  rw [hs, hs']
  by_cases hline : line < first
  · -- a line from before is in none of the later sources
    have hnone : later.find? (·.firstLine ≤ line) = none := by
      refine List.find?_eq_none.2 fun s hmem => ?_
      have := hle s hmem
      simp only [decide_eq_true_eq]
      omega
    have hnone' : (later.map (Segment.down k)).find? (·.firstLine ≤ line) = none := by
      refine List.find?_eq_none.2 (List.forall_mem_map.2 fun s hmem => ?_)
      have := hle s hmem
      change ¬decide (s.firstLine + k ≤ line) = true
      rw [decide_eq_true_eq]
      omega
    have hextra' : ¬extra.firstLine ≤ line := by omega
    rw [moveLine_of_lt hline, List.find?_append, List.find?_append, hnone, hnone', List.find?_cons]
    simp [hextra']
  · obtain ⟨s, hmem, hsfirst⟩ := hcons fun hl => hlater (hnil hl)
    obtain ⟨s, hfind⟩ : ∃ s, later.find? (·.firstLine ≤ line) = some s := by
      cases hfind : later.find? (·.firstLine ≤ line) with
      | some s => exact ⟨s, rfl⟩
      | none =>
        have := List.find?_eq_none.1 hfind s hmem
        simp only [decide_eq_true_eq] at this
        omega
    rw [moveLine_of_le (by omega), List.find?_append, List.find?_append, find_down, hfind]
    simp only [Option.map_some, Option.some_or, Segment.down]
    congr 1
    omega

end SourceMap.Moved

/-! ### Sessions -/

/-- What scanning comes to, on the lines it has moved to. -/
def scanMoved (first k : Nat) : Except ScanError (List Token) → Except ScanError (List Token)
  | .error e => .error { e with position := { e.position with
      line := moveLine first k e.position.line } }
  | .ok tokens => .ok (tokens.map (Token.moved first k))

/-- A source that starts on the line `first` or later is scanned the same further down. -/
theorem tokenizeFrom_moved {first line : Nat} (k : Nat) (h : first ≤ line) (source : String) :
    tokenizeFrom (line + k) source = scanMoved first k (tokenizeFrom line source) := by
  rw [tokenizeFrom_down]
  cases hscan : tokenizeFrom line source with
  | error e =>
    have hle := tokenizeFrom_error hscan
    simp only [scanMoved, moveLine_of_le (Nat.le_trans h hle)]
    rfl
  | ok tokens =>
    obtain ⟨inner, mark, rfl, _, hmark, hinner⟩ := tokenizeFrom_ok hscan
    change Except.ok ((inner ++ [mark]).map (Token.down k)) = .ok _
    congr 1
    refine List.map_congr_left fun t ht => ?_
    rw [Token.moved_of_le]
    rcases List.mem_append.1 ht with ht | ht
    · exact Nat.le_trans h (hinner t ht).2.1
    · obtain rfl := List.mem_singleton.1 ht
      exact Nat.le_trans h hmark

namespace Session

/-- Sessions that have both laid out the prelude, if it is still to be run. -/
structure Level (first k : Nat) (s s' : Session) : Prop where
  sources : SourceMap.Moved first k s.sources s'.sources
  pending : s'.preludePending = s.preludePending
  tokens : s'.preludeTokens = s.preludeTokens
  laid : s.preludePending = true → ∃ ts, s.preludeTokens = some ts ∧ ∀ t ∈ ts, t.line < first

/-- Sessions of which the second has had a source more. -/
inductive Shifted (first k : Nat) (s s' : Session) : Prop
  | level : Level first k s s' → Shifted first k s s'
  /-- Only the second session has laid out the prelude. -/
  | ahead {s₁ : Session} {leading : List Token} : s.preludePending = true →
      s.layPrelude = (.ok leading, s₁) → Level first k s₁ s' → Shifted first k s s'

section

variable {first k : Nat} {s s' : Session} {name source : String}

/-- A source behind leading tokens. -/
theorem scanSource_of_leading {leading : List Token} {s₁ : Session}
    (h : s.leadingTokens = (.ok leading, s₁)) :
    s.scanSource name source =
      ((tokenizeFrom s₁.sources.nextLine source).map fun tokens =>
        leading ++ tokens.map (Token.shift leading.length),
        { s₁ with sources := (s₁.sources.add name source).2 }) := by
  unfold scanSource
  rw [h]
  rfl

/-- What goes in front of a source stays where it is when the lines behind it move. -/
theorem scanMoved_behind {leading : List Token} (h : ∀ t ∈ leading, t.line < first)
    (scanned : Except ScanError (List Token)) :
    scanMoved first k (scanned.map fun tokens =>
        leading ++ tokens.map (Token.shift leading.length)) =
      (scanMoved first k scanned).map fun tokens =>
        leading ++ tokens.map (Token.shift leading.length) := by
  cases scanned with
  | error e => rfl
  | ok tokens =>
    have hsame : leading.map (Token.moved first k) = leading :=
      (List.map_congr_left fun t ht => Token.moved_of_lt (h t ht)).trans (List.map_id _)
    change Except.ok ((leading ++ _).map _) = Except.ok (leading ++ (tokens.map _).map _)
    rw [List.map_append, hsame, List.map_map, List.map_map]
    rfl

theorem layFirst_again {leading : List Token} {s₁ : Session} {name source : String}
    (h : s.layFirst name source = (.ok leading, s₁)) :
    s₁.layFirst name source = (.ok leading, s₁) := by
  unfold layFirst at h
  split at h
  · next tokens htokens =>
    obtain ⟨hlead, rfl⟩ := Prod.mk.inj h
    obtain rfl := Except.ok.inj hlead
    rw [layFirst, htokens]
  · dsimp only at h
    split at h
    · cases (Prod.mk.inj h).1
    · obtain ⟨hlead, rfl⟩ := Prod.mk.inj h
      obtain rfl := Except.ok.inj hlead
      rfl

/-- Laying out the prelude first makes no difference. -/
theorem scanSource_of_laid {leading : List Token} {s₁ : Session} (hpending : s.preludePending = true)
    (h : s.layPrelude = (.ok leading, s₁)) :
    s.scanSource name source = s₁.scanSource name source := by
  have hpending₁ : s₁.preludePending = true := by
    have := (layFirst_machine s Prelude.name Prelude.source).2.2
    rw [show s.layFirst Prelude.name Prelude.source = _ from h] at this
    exact this.trans hpending
  have h₀ : s.leadingTokens = (.ok leading, s₁) := by rw [leadingTokens, if_pos hpending, h]
  have h₁ : s₁.leadingTokens = (.ok leading, s₁) := by
    rw [leadingTokens, if_pos hpending₁]
    exact layFirst_again h
  rw [scanSource_of_leading h₀, scanSource_of_leading h₁]

theorem Level.leading (h : Level first k s s') :
    ∃ leading, s.leadingTokens = (.ok leading, s) ∧ s'.leadingTokens = (.ok leading, s') ∧
      ∀ t ∈ leading, t.line < first := by
  cases hpending : s.preludePending with
  | false =>
    refine ⟨[], ?_, ?_, by simp⟩
    · rw [leadingTokens, hpending]
      rfl
    · rw [leadingTokens, h.pending, hpending]
      rfl
  | true =>
    obtain ⟨ts, hts, hlines⟩ := h.laid hpending
    refine ⟨ts, ?_, ?_, hlines⟩
    · rw [leadingTokens, if_pos hpending, layPrelude, layFirst, hts]
    · rw [leadingTokens, if_pos (h.pending.trans hpending), layPrelude, layFirst, h.tokens, hts]

/-- The same source in both sessions. -/
theorem Level.scanSource (h : Level first k s s') (name source : String) :
    (s'.scanSource name source).1 = scanMoved first k (s.scanSource name source).1 ∧
      Level first k (s.scanSource name source).2 (s'.scanSource name source).2 ∧
      (s.scanSource name source).2.sources.nextLine ≠ first := by
  obtain ⟨leading, hlead, hlead', hlines⟩ := h.leading
  obtain ⟨_, hmoved⟩ := h.sources.add name source
  rw [scanSource_of_leading hlead, scanSource_of_leading hlead']
  refine ⟨?_, ⟨hmoved, h.pending, h.tokens, h.laid⟩, ?_⟩
  · rw [h.sources.nextLine, tokenizeFrom_moved k h.sources.reached, scanMoved_behind hlines]
  · have hreached := h.sources.reached
    have hlines := linesOf_pos source.toList
    simp only [SourceMap.add, lineCount_eq]
    omega

theorem Shifted.scanSource (h : Shifted first k s s') (name source : String) :
    (s'.scanSource name source).1 = scanMoved first k (s.scanSource name source).1 ∧
      Level first k (s.scanSource name source).2 (s'.scanSource name source).2 ∧
      (s.scanSource name source).2.sources.nextLine ≠ first := by
  cases h with
  | level h => exact h.scanSource name source
  | ahead hpending hlay h =>
    rw [scanSource_of_laid hpending hlay]
    exact h.scanSource name source

end

end Session

end ScopedScript
