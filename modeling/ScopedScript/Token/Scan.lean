import ScopedScript.Number
import ScopedScript.Text.Quoted
import ScopedScript.Token

/-! # Scanning

Scanning cuts a source, from left to right, into *pieces*: a token, or a stretch that is skipped
(a blank, a comment).  `Piece.ofSource` reads the piece at the front of the remaining characters
and returns it with the characters after it, so that the piece and the rest make up the input
again (`Piece.ofSource_splits`); the scanner `scanFrom` repeats this until nothing remains, or
until a piece cannot be completed.

Operators and punctuation come from one table with the longer symbols first, so the longest
symbol that fits is taken. -/

namespace ScopedScript

/-- A place in a source: line and column, both counted from `1`. -/
structure Position where
  line : Nat
  column : Nat
  deriving DecidableEq, Repr

namespace Position

/-- The place after a character. -/
def next (p : Position) (c : Char) : Position :=
  if c = '\n' then ⟨p.line + 1, 1⟩ else ⟨p.line, p.column + 1⟩

/-- The place after a row of characters. -/
def after (p : Position) (cs : List Char) : Position := cs.foldl next p

@[simp] theorem after_nil (p : Position) : p.after [] = p := rfl

@[simp] theorem after_cons (p : Position) (c : Char) (cs : List Char) :
    p.after (c :: cs) = (p.next c).after cs := rfl

theorem after_append (p : Position) (cs ds : List Char) :
    p.after (cs ++ ds) = (p.after cs).after ds := List.foldl_append

end Position

/-- Why a source cannot be cut into tokens. -/
inductive ScanFault where
  | unterminatedComment
  | unterminatedString
  | unexpectedCharacter (c : Char)
  deriving DecidableEq, Repr

/-- The message of a fault, without its place. -/
def ScanFault.message : ScanFault → String
  | .unterminatedComment => "unterminated block comment"
  | .unterminatedString => "unterminated string"
  | .unexpectedCharacter c => "unexpected character " ++ Text.quoteChar c

/-- A fault at the place where the piece that has it starts. -/
structure ScanError where
  fault : ScanFault
  position : Position
  deriving DecidableEq, Repr

/-! ### Pieces -/

/-- The piece at the front of a source, with what remains after it. -/
inductive Piece where
  | token (kind : Token.Kind) (literal : Option Token.Literal) (lexeme rest : List Char)
  | skip (skipped rest : List Char)
  | fault (fault : ScanFault)

namespace Piece

/-- Symbols and their kinds, the longer ones first. -/
def symbols : List (List Char × Token.Kind) :=
  [(['\x7b', '\x7d'], .emptyObject), (['!', '='], .notEqual), (['<', '='], .lessEqual),
   (['>', '='], .greaterEqual), (['=', '='], .equal), (['=', '>'], .arrow),
   (['+', '+'], .increment), (['+', '='], .plusAssign), (['-', '-'], .decrement),
   (['-', '='], .minusAssign), (['*', '='], .timesAssign), (['/', '='], .divideAssign),
   (['&', '&'], .and), (['|', '|'], .or),
   (['('], .leftParen), ([')'], .rightParen), (['['], .leftBracket), ([']'], .rightBracket),
   (['\x7b'], .leftBrace), (['\x7d'], .rightBrace), ([','], .comma), (['.'], .dot),
   ([';'], .semicolon), ([':'], .colon), (['?'], .question), (['!'], .not), (['<'], .less),
   (['>'], .greater), (['='], .assign), (['+'], .plus), (['-'], .minus), (['*'], .times),
   (['/'], .divide), (['&'], .ampersand), (['|'], .pipe)]

/-- The characters up to and including the end of a block comment, and those after it. -/
def closeComment : List Char → Option (List Char × List Char)
  | '*' :: '/' :: rest => some (['*', '/'], rest)
  | c :: rest => (closeComment rest).map fun r => (c :: r.1, r.2)
  | [] => none

/-- A line comment reaches to the next line feed, which it leaves alone. -/
def lineComment (source : List Char) : Piece :=
  .skip (source.takeWhile (· != '\n')) (source.dropWhile (· != '\n'))

/-- A block comment, given the characters after its opening. -/
def blockComment (body : List Char) : Piece :=
  match closeComment body with
  | some (inside, rest) => .skip ('/' :: '*' :: inside) rest
  | none => .fault .unterminatedComment

/-- A string, given the characters after its opening quote.  It may span lines, and nothing in it
is an escape. -/
def string (body : List Char) : Piece :=
  let inside := body.takeWhile (· != '"')
  match body.dropWhile (· != '"') with
  | _ :: rest =>
    .token .string (some (.str (String.ofList inside))) ('"' :: (inside ++ ['"'])) rest
  | [] => .fault .unterminatedString

/-- A number: digits, and a point with more digits if a digit follows the point. -/
def number (source : List Char) : Piece :=
  let whole := source.takeWhile Text.isDigit
  let integer := Piece.token .number (some (.num (Number.ofDigits whole []))) whole
    (source.dropWhile Text.isDigit)
  match source.dropWhile Text.isDigit with
  | '.' :: rest =>
    let fraction := rest.takeWhile Text.isDigit
    if fraction.isEmpty then integer
    else .token .float (some (.num (Number.ofDigits whole fraction))) (whole ++ '.' :: fraction)
      (rest.dropWhile Text.isDigit)
  | _ => integer

/-- The value of a reserved word, for the two that have one. -/
def wordLiteral : Token.Kind → Option Token.Literal
  | .trueLit => some (.bool true)
  | .falseLit => some (.bool false)
  | _ => none

/-- A name or a reserved word. -/
def word (source : List Char) : Piece :=
  let letters := source.takeWhile Text.isNamePart
  let kind := Token.Kind.ofWord (String.ofList letters)
  .token kind (wordLiteral kind) letters (source.dropWhile Text.isNamePart)

/-- A symbol, or the fault that `c` starts nothing. -/
def symbol (c : Char) (source : List Char) : Piece :=
  match symbols.find? fun s => s.1.isPrefixOf source with
  | some (lexeme, kind) => .token kind none lexeme (source.drop lexeme.length)
  | none => .fault (.unexpectedCharacter c)

/-- The piece at the front of `c :: cs`. -/
def ofSource (c : Char) (cs : List Char) : Piece :=
  if c = '\n' then .token .newline none [c] cs
  else if c = ' ' ∨ c = '\t' ∨ c = '\r' then .skip [c] cs
  else if c = '"' then string cs
  else if Text.isDigit c then number (c :: cs)
  else if Text.isNameStart c then word (c :: cs)
  else if c = '/' ∧ cs.head? = some '/' then lineComment (c :: cs)
  else if c = '/' ∧ cs.head? = some '*' then blockComment cs.tail
  else symbol c (c :: cs)

/-- The piece takes at least one character, and with the rest it is all of `source`. -/
def Splits (source : List Char) : Piece → Prop
  | .token _ _ lexeme rest => lexeme ≠ [] ∧ lexeme ++ rest = source
  | .skip skipped rest => skipped ≠ [] ∧ skipped ++ rest = source
  | .fault _ => True

theorem closeComment_append {cs inside rest : List Char}
    (h : closeComment cs = some (inside, rest)) : inside ++ rest = cs := by
  fun_induction closeComment cs generalizing inside rest with
  | case1 r =>
    simp only [Option.some.injEq, Prod.mk.injEq] at h
    obtain ⟨rfl, rfl⟩ := h
    rfl
  | case2 c r _ ih =>
    obtain ⟨⟨inner, after⟩, hr, he⟩ := Option.map_eq_some_iff.1 h
    obtain ⟨rfl, rfl⟩ := Prod.mk.inj he
    simp [ih hr]
  | case3 => simp at h

theorem takeWhile_ne_nil {p : Char → Bool} {c : Char} {cs : List Char} (h : p c = true) :
    (c :: cs).takeWhile p ≠ [] := by
  simp [h]

theorem string_splits (body : List Char) : Splits ('"' :: body) (string body) := by
  unfold string
  have happ := List.takeWhile_append_dropWhile (p := (· != '"')) (l := body)
  split
  · next q rest heq =>
    have hq : q = '"' := by
      have := List.head?_dropWhile_not (· != '"') body
      simpa [heq] using this
    simp only [Splits, ne_eq, reduceCtorEq, not_false_eq_true, true_and]
    rw [heq, hq] at happ
    simpa using happ
  · trivial

theorem number_splits {c : Char} {cs : List Char} (h : Text.isDigit c = true) :
    Splits (c :: cs) (number (c :: cs)) := by
  have happ := List.takeWhile_append_dropWhile (p := Text.isDigit) (l := c :: cs)
  have hne : (c :: cs).takeWhile Text.isDigit ≠ [] := takeWhile_ne_nil h
  simp only [number]
  split
  · next rest heq =>
    have hrest := List.takeWhile_append_dropWhile (p := Text.isDigit) (l := rest)
    split
    · exact ⟨hne, happ⟩
    · refine ⟨by simp, ?_⟩
      rw [heq] at happ
      simp only [List.append_assoc, List.cons_append, hrest, happ]
  · exact ⟨hne, happ⟩

theorem symbols_ne_nil : ∀ s ∈ symbols, s.1 ≠ [] := by decide

theorem symbol_splits (c : Char) (source : List Char) : Splits source (symbol c source) := by
  unfold symbol
  split
  · next lexeme kind heq =>
    have hmem := List.mem_of_find?_eq_some heq
    have hpre := List.find?_some heq
    refine ⟨symbols_ne_nil _ hmem, ?_⟩
    obtain ⟨rest, hrest⟩ := List.isPrefixOf_iff_prefix.1 hpre
    simp [← hrest]
  · trivial

/-- A piece and what remains after it make up the source. -/
theorem ofSource_splits (c : Char) (cs : List Char) : Splits (c :: cs) (ofSource c cs) := by
  unfold ofSource
  split
  · exact ⟨by simp, rfl⟩
  · split
    · exact ⟨by simp, rfl⟩
    · split
      · next _ _ h => subst h; exact string_splits cs
      · split
        · next h => exact number_splits h
        · split
          · next h =>
            exact ⟨takeWhile_ne_nil (Text.isNamePart_of_isNameStart h),
              List.takeWhile_append_dropWhile⟩
          · split
            · next h =>
              exact ⟨takeWhile_ne_nil (by simp [h.1]), List.takeWhile_append_dropWhile⟩
            · split
              · next h =>
                obtain ⟨rfl, hstar⟩ := h
                obtain ⟨tail, rfl⟩ : ∃ tail, cs = '*' :: tail := by
                  cases cs with
                  | nil => simp at hstar
                  | cons d ds => exact ⟨ds, by simpa using hstar⟩
                simp only [blockComment, List.tail_cons]
                split
                · next heq => exact ⟨by simp, by simp [closeComment_append heq]⟩
                · trivial
              · exact symbol_splits c (c :: cs)

end Piece

/-! ### The scanner -/

/-- A scanned source: its tokens, and the fault that ended it early.  Without a fault the end mark
is the last token; with one there is no end mark. -/
structure Scan where
  tokens : List Token
  error : Option ScanError

namespace Scan

/-- A source that starts at `p`, its first token numbered `index`. -/
def start (p : Position) (index : Nat) (source : List Char) : Scan :=
  match source with
  | [] => ⟨[Token.make .endMark "" p.line p.column index none], none⟩
  | c :: cs =>
    match h : Piece.ofSource c cs with
    | .fault fault => ⟨[], some ⟨fault, p⟩⟩
    | .skip skipped rest => start (p.after skipped) index rest
    | .token kind literal lexeme rest =>
      let later := start (p.after lexeme) (index + 1) rest
      ⟨Token.make kind (String.ofList lexeme) p.line p.column index literal :: later.tokens,
        later.error⟩
termination_by source.length
decreasing_by
  all_goals
    have hsplit := Piece.ofSource_splits c cs
    rw [h] at hsplit
    obtain ⟨hne, happ⟩ := hsplit
    have hlen := congrArg List.length happ
    have := List.length_pos_iff.2 hne
    simp only [List.length_append, List.length_cons] at hlen ⊢
    omega

/-- The tokens, or the fault. -/
def result (s : Scan) : Except ScanError (List Token) :=
  match s.error with
  | some e => .error e
  | none => .ok s.tokens

end Scan

/-- Scans a source whose first line is numbered `line`. -/
def scanFrom (line : Nat) (source : String) : Scan := Scan.start ⟨line, 1⟩ 0 source.toList

/-- Scans a source by itself. -/
def scan (source : String) : Scan := scanFrom 1 source

/-- The tokens of a source whose first line is numbered `line`, or the fault it has. -/
def tokenizeFrom (line : Nat) (source : String) : Except ScanError (List Token) :=
  (scanFrom line source).result

/-- The tokens of a source by itself, or the fault it has. -/
def tokenize (source : String) : Except ScanError (List Token) := tokenizeFrom 1 source

end ScopedScript
