/-! # Tokens

A token is a piece of source text with its kind, its place and, for numbers, strings and the two
truth values, the value it denotes.  Tokens are numbered in the order of the source.  Two kinds
have no text of their own to show: a line feed, which ends statements, and the end mark that
closes every scanned source. -/

namespace ScopedScript

/-- What a piece of source text is. -/
inductive Token.Kind where
  -- words of the language
  | kwLet | kwConst | kwVar | kwIf | kwElse | kwWhile | kwFor | kwFunction | kwReturn | kwClass
  | kwThis | kwPrint | kwTry | kwCatch | kwFinally | kwExtends | kwPublic | kwPrivate
  | kwProtected | kwEnum | kwInterface | kwType | kwNamespace | kwImport | kwExport | kwAs
  | kwBreak | kwContinue
  -- names of the built-in types, which only annotations use
  | typeString | typeNumber | typeBoolean | typeVoid | typeAny | typeNever
  -- literals; a pair of adjacent braces is one token, and `list` is the kind of a bracketed list
  | number | float | string | trueLit | falseLit | nullLit | undefinedLit | emptyObject | list
  | name
  -- punctuation
  | leftParen | rightParen | leftBrace | rightBrace | leftBracket | rightBracket
  | comma | dot | semicolon | colon | question
  -- operators
  | assign | equal | not | notEqual | less | lessEqual | greater | greaterEqual
  | plus | increment | plusAssign | minus | decrement | minusAssign
  | times | timesAssign | divide | divideAssign
  | ampersand | and | pipe | or | arrow
  -- the line feed, the end mark, and anything else
  | newline | endMark | unknown
  deriving DecidableEq, Repr, Inhabited

namespace Token.Kind

/-- The kinds that may stand where a statement ends. -/
def isTerminator : Kind → Bool
  | .semicolon | .newline | .endMark | .rightBrace => true
  | _ => false

/-- The reserved words. -/
def reserved : List (String × Kind) :=
  [("let", .kwLet), ("const", .kwConst), ("var", .kwVar), ("if", .kwIf), ("else", .kwElse),
   ("while", .kwWhile), ("for", .kwFor), ("function", .kwFunction), ("return", .kwReturn),
   ("class", .kwClass), ("this", .kwThis), ("print", .kwPrint), ("try", .kwTry),
   ("catch", .kwCatch), ("finally", .kwFinally), ("extends", .kwExtends),
   ("public", .kwPublic), ("private", .kwPrivate), ("protected", .kwProtected),
   ("enum", .kwEnum), ("interface", .kwInterface), ("type", .kwType),
   ("namespace", .kwNamespace), ("import", .kwImport), ("export", .kwExport), ("as", .kwAs),
   ("break", .kwBreak), ("continue", .kwContinue),
   ("string", .typeString), ("number", .typeNumber), ("boolean", .typeBoolean),
   ("void", .typeVoid), ("any", .typeAny), ("never", .typeNever),
   ("true", .trueLit), ("false", .falseLit), ("null", .nullLit), ("undefined", .undefinedLit)]

/-- The kind of a word: reserved, or a name. -/
def ofWord (word : String) : Kind := (reserved.lookup word).getD .name

end Token.Kind

/-- The value that a literal token denotes. -/
inductive Token.Literal where
  | num (value : Float)
  | str (value : String)
  | bool (value : Bool)
  deriving Repr

/-- A piece of source text with its place. -/
structure Token where
  kind : Token.Kind
  lexeme : String
  line : Nat
  column : Nat
  /-- The number of characters of the source text, which the lexeme of an operator derived from
  it need not have. -/
  length : Nat
  /-- The position in the row of tokens. -/
  index : Nat
  literal : Option Token.Literal
  deriving Repr

namespace Token

instance : Inhabited Token := ⟨⟨.endMark, "", 1, 1, 0, 0, none⟩⟩

/-- A token whose length is that of its lexeme. -/
def make (kind : Kind) (lexeme : String) (line column index : Nat) (literal : Option Literal) :
    Token :=
  ⟨kind, lexeme, line, column, lexeme.length, index, literal⟩

/-- The operator `lexeme`, placed where the token `at_` stands. -/
def derived (kind : Kind) (lexeme : String) (at_ : Token) : Token :=
  ⟨kind, lexeme, at_.line, at_.column, at_.length, at_.index, none⟩

/-- How a token is named to a reader. -/
def describe (t : Token) : String :=
  match t.kind with
  | .endMark => "end of file"
  | .newline => "newline"
  | _ => "'" ++ t.lexeme ++ "'"

/-- The token with its index moved up by `offset`. -/
def shift (offset : Nat) (t : Token) : Token := { t with index := t.index + offset }

end Token

end ScopedScript
