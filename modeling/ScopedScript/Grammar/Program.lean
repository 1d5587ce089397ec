import ScopedScript.Grammar.Annotation

/-! # Expressions, statements and programs

The productions for expressions and statements, which contain each other through function bodies.

* **Levels.** Binary operators bind by the levels of `binaryLevels`, loosest first, and group to
  the left.  Unary operators bind tighter, calls and property reads tighter still; assignment is
  loosest and groups to the right.
* **Ends of statements.** A statement ends at a semicolon or line feed, which it takes, or before
  a closing brace or the end mark.
* **Derived forms.** `x op= v` and `x++` are read as the assignment they stand for, and a `for`
  loop as a block with a `while` loop.

The first argument of a production bounds how deep productions may call each other.
`parseProgram` chooses it from the number of tokens, large enough for every row with an end
mark. -/

namespace ScopedScript

namespace Grammar

/-! ### Looking ahead -/

/-- Do these tokens start with the key and colon of an object literal, after any line feeds? -/
def startsEntry (tokens : List Token) : Bool :=
  match tokens.dropWhile (·.kind == .newline) with
  | key :: colon :: _ => key.kind == .name && colon.kind == .colon
  | _ => false

/-- Is a closing brace the first of these tokens, line feeds apart? -/
def closesAtOnce (tokens : List Token) : Bool :=
  match tokens.dropWhile (·.kind == .newline) with
  | t :: _ => t.kind == .rightBrace
  | [] => false

/-- Does `=` follow the bracket that closes the `depth` open ones?  The search ends at the end of
the line. -/
def assignsAfterBracket : Nat → List Token → Bool
  | _, [] => false
  | depth, t :: rest =>
    match t.kind with
    | .leftBracket => assignsAfterBracket (depth + 1) rest
    | .rightBracket =>
      if depth ≤ 1 then
        match rest with
        | next :: _ => next.kind == .assign
        | [] => false
      else assignsAfterBracket (depth - 1) rest
    | .newline | .semicolon | .endMark => false
    | _ => assignsAfterBracket depth rest

/-- Does `name[…] =` start at the cursor? -/
def Cursor.atIndexAssignment (c : Cursor) : Bool :=
  c.check .name && c.checkNext .leftBracket && assignsAfterBracket 0 c.rest.tail

/-- Is an object literal, rather than a block, opened by the brace in view? -/
def Cursor.atObject (c : Cursor) : Bool :=
  startsEntry c.rest.tail || closesAtOnce c.rest.tail

/-! ### Small productions -/

/-- The end of a statement. -/
def statementEnd : Parse Unit := do
  if (← acceptAny [.semicolon, .newline]).isSome then return
  let c ← get
  if c.atEnd || c.check .rightBrace then return
  failExpecting .statementEnd

/-- Braces with nothing between them, just taken, in the place of a statement. -/
def emptyObjectStatement : Parse Stmt := do
  statementEnd
  return .object []

/-- The binary operators by level, loosest first. -/
def binaryLevels : List (List Token.Kind) :=
  [[.or], [.and], [.notEqual, .equal], [.greater, .greaterEqual, .less, .lessEqual],
   [.plus, .minus], [.divide, .times]]

/-- The words that introduce a variable. -/
def declarationKinds : List Token.Kind := [.kwLet, .kwConst, .kwVar]

/-- The meaning of a word that introduces a variable. -/
def declarationKind : Token.Kind → DeclarationKind
  | .kwConst => .const
  | .kwVar => .var
  | _ => .let_

/-- The literal `undefined`. -/
def undefinedLiteral : Expr := .literal .undefinedLit .undefined

/-- The assignment `target = value`. -/
def assignment (target : Expr) (equals : Token) (value : Expr) : Parse Expr := do
  match target with
  | .name _ name => return .assign (← freshId) name value
  | .get object name => return .set object name value
  | _ => failAt equals .invalidTarget

/-- The operator that a compound assignment applies. -/
def compoundOperator (operator : Token) : Token :=
  match operator.kind with
  | .plusAssign | .increment => .derived .plus "+" operator
  | .minusAssign | .decrement => .derived .minus "-" operator
  | .timesAssign => .derived .times "*" operator
  | _ => .derived .divide "/" operator

/-- The assignment `target = target op value`.  The object of a property is evaluated twice, once
to read and once to write. -/
def compoundAssignment (target : Expr) (operator : Token) (value : Expr) : Parse Expr := do
  match target with
  | .name id name =>
    return .assign (← freshId) name (.binary (.name id name) (compoundOperator operator) value)
  | .get object name =>
    return .set object name (.binary (.get object name) (compoundOperator operator) value)
  | _ => failAt operator .invalidTarget

/-- The value of a number token. -/
def numberLiteral (token : Token) : Parse Expr := do
  match token.literal with
  | some (.num value) => return .literal token.kind (.num value)
  | _ => failAt token .malformedNumber

/-- The value of a string token. -/
def stringLiteral (token : Token) : Expr :=
  match token.literal with
  | some (.str value) => .literal .string (.str value)
  | _ => .literal .string (.str "")

/-- Adds a property to those read so far.  A repeated key keeps its first place and takes the
later value. -/
def addEntry : List Entry → Token → Expr → List Entry
  | [], key, value => [.mk key value]
  | .mk k v :: entries, key, value =>
    if k.lexeme = key.lexeme then .mk k value :: entries
    else .mk k v :: addEntry entries key value

/-- A `for` loop as a block: the initialiser, then a loop whose body ends with the increment. -/
def forLoop (keyword : Token) (init : Option Stmt) (condition : Expr) (increment : Option Expr)
    (body : Stmt) : Stmt :=
  let whole :=
    match increment with
    | some e => .block [body, .expression e keyword]
    | none => body
  .block (init.toList ++ [.loop condition whole keyword])

/-! ### Expressions and statements -/

mutual

/-- An expression, assignments included. -/
def expression : Nat → Parse Expr
  | 0 => throw .outOfFuel
  | fuel + 1 => do
    let target ← binary fuel binaryLevels
    if let some equals ← acceptAny [.assign] then
      let value ← expression fuel
      assignment target equals value
    else if let some operator ←
        acceptAny [.plusAssign, .minusAssign, .timesAssign, .divideAssign] then
      let value ← expression fuel
      compoundAssignment target operator value
    else if let some operator ← acceptAny [.increment, .decrement] then
      compoundAssignment target operator (.literal .number (.num 1.0))
    else return target

/-- A row of operands with operators of the given levels between them. -/
def binary : Nat → List (List Token.Kind) → Parse Expr
  | 0, _ => throw .outOfFuel
  | fuel + 1, [] => unary fuel
  | fuel + 1, operators :: tighter => do
    let left ← binary fuel tighter
    binaryRest fuel operators tighter left

/-- The operators of one level, with their right operands, after the operand `left`. -/
def binaryRest : Nat → List Token.Kind → List (List Token.Kind) → Expr → Parse Expr
  | 0, _, _, _ => throw .outOfFuel
  | fuel + 1, operators, tighter, left => do
    if let some operator ← acceptAny operators then
      let right ← binary fuel tighter
      binaryRest fuel operators tighter (.binary left operator right)
    else return left

/-- An operand with any number of unary operators before it. -/
def unary : Nat → Parse Expr
  | 0 => throw .outOfFuel
  | fuel + 1 => do
    if let some operator ← acceptAny [.not, .minus] then
      return .unary operator (← unary fuel)
    else
      let head ← primary fuel
      postfixRest fuel head

/-- The calls and property reads after an operand. -/
def postfixRest : Nat → Expr → Parse Expr
  | 0, _ => throw .outOfFuel
  | fuel + 1, head => do
    if ← accept .leftParen then
      skipNewlines
      let args ← if (← get).check .rightParen then pure [] else argumentRow fuel 0
      let paren ← expect .rightParen .argumentsClose
      postfixRest fuel (.call head paren args)
    else if ← accept .dot then
      let name ← expect .name .propertyName
      postfixRest fuel (.get head name)
    else return head

/-- Arguments between commas; `count` of them have been read before. -/
def argumentRow : Nat → Nat → Parse (List Expr)
  | 0, _ => throw .outOfFuel
  | fuel + 1, count => do
    skipNewlines
    if maxArguments ≤ count then failAt (← peek) .tooManyArguments
    let first ← expression fuel
    skipNewlines
    if ← accept .comma then return first :: (← argumentRow fuel (count + 1))
    else return [first]

/-- A literal, a name, a function, or something in brackets. -/
def primary : Nat → Parse Expr
  | 0 => throw .outOfFuel
  | fuel + 1 => do
    let c ← get
    match c.peek.kind with
    | .number | .float => numberLiteral (← advance)
    | .string => return stringLiteral (← advance)
    | .trueLit =>
      let _ ← advance
      return .literal .trueLit (.bool true)
    | .falseLit =>
      let _ ← advance
      return .literal .falseLit (.bool false)
    | .nullLit =>
      let _ ← advance
      return .literal .nullLit .null
    | .undefinedLit =>
      let _ ← advance
      return undefinedLiteral
    | .emptyObject =>
      let _ ← advance
      return .literal .emptyObject .emptyObject
    | .kwFunction =>
      let token ← advance
      let _ ← expect .leftParen .anonymousParen
      return .function token (← functionRest fuel token)
    | .kwThis =>
      let keyword ← advance
      return .this (← freshId) keyword
    | .name | .kwPrint =>
      let name ← advance
      let id ← freshId
      if ← accept .leftBracket then
        let index ← expression fuel
        let _ ← expect .rightBracket .indexClose
        return .index id name index
      else return .name id name
    | .leftParen =>
      let _ ← advance
      skipNewlines
      let inner ← expression fuel
      skipNewlines
      let _ ← expect .rightParen .groupClose
      return .grouping inner
    | .leftBracket =>
      let _ ← advance
      skipNewlines
      let elements ← elementRow fuel
      let _ ← expect .rightBracket .listClose
      return .literal .list (.list elements)
    | .leftBrace =>
      if c.atObject then
        let brace ← advance
        skipNewlines
        let entries ← entryRow fuel []
        let _ ← expect .rightBrace .objectClose
        return .object brace entries
      else failExpecting .expression
    | _ => failExpecting .expression

/-- The elements of a list; a comma may follow the last one. -/
def elementRow : Nat → Parse (List Expr)
  | 0 => throw .outOfFuel
  | fuel + 1 => do
    let c ← get
    if c.check .rightBracket || c.atEnd then return []
    else
      let first ← expression fuel
      skipNewlines
      if ← accept .comma then
        skipNewlines
        return first :: (← elementRow fuel)
      else return [first]

/-- The properties of an object after those read so far; a comma may follow the last one. -/
def entryRow : Nat → List Entry → Parse (List Entry)
  | 0, _ => throw .outOfFuel
  | fuel + 1, entries => do
    let c ← get
    if c.check .rightBrace || c.atEnd then return entries
    else
      let key ← expect .name .entryName
      let _ ← expect .colon .entryColon
      skipNewlines
      let value ← expression fuel
      skipNewlines
      if ← accept .comma then
        skipNewlines
        entryRow fuel (addEntry entries key value)
      else return addEntry entries key value

/-- A function after the parenthesis that opens its parameters. -/
def functionRest : Nat → Token → Parse FunctionDecl
  | 0, _ => throw .outOfFuel
  | fuel + 1, name => do
    let params ← parameters fuel
    let result ← annotated fuel
    let body ← block fuel
    return .mk name params body result

/-- Statements in braces. -/
def block : Nat → Parse (List Stmt)
  | 0 => throw .outOfFuel
  | fuel + 1 => do
    skipNewlines
    if ← accept .emptyObject then return []
    else
      let _ ← expect .leftBrace .blockOpen
      skipNewlines
      let statements ← blockRow fuel
      let _ ← expect .rightBrace .blockClose
      return statements

/-- Statements up to a closing brace. -/
def blockRow : Nat → Parse (List Stmt)
  | 0 => throw .outOfFuel
  | fuel + 1 => do
    let c ← get
    if c.check .rightBrace || c.atEnd then return []
    else
      let first ← statement fuel
      skipNewlines
      return first :: (← blockRow fuel)

/-- A statement. -/
def statement : Nat → Parse Stmt
  | 0 => throw .outOfFuel
  | fuel + 1 => do
    skipNewlines
    let c ← get
    match c.peek.kind with
    | .kwClass =>
      let _ ← advance
      classDeclaration fuel
    | .kwFor => forStatement fuel (← advance)
    | .kwWhile => whileStatement fuel (← advance)
    | .kwIf => ifStatement fuel (← advance)
    | .kwLet | .kwConst | .kwVar => variableDeclaration fuel (← advance)
    | .kwFunction =>
      if c.checkNext .name then
        let _ ← advance
        let name ← expect .name .functionName
        let _ ← expect .leftParen .functionParen
        return .functionDecl (← functionRest fuel name)
      else expressionStatement fuel
    | .kwReturn => returnStatement fuel (← advance)
    | .leftBrace =>
      if c.checkNext .rightBrace then
        let _ ← advance
        let _ ← advance
        emptyObjectStatement
      else if startsEntry c.rest.tail then expressionStatement fuel
      else return .block (← block fuel)
    | .emptyObject =>
      let _ ← advance
      emptyObjectStatement
    | .endMark => return .empty
    | _ => if c.atIndexAssignment then indexAssignment fuel else expressionStatement fuel

/-- An expression in the place of a statement. -/
def expressionStatement : Nat → Parse Stmt
  | 0 => throw .outOfFuel
  | fuel + 1 => do
    let token ← peek
    let e ← expression fuel
    statementEnd
    return .expression e token

/-- A class after the word `class`. -/
def classDeclaration : Nat → Parse Stmt
  | 0 => throw .outOfFuel
  | fuel + 1 => do
    let name ← expect .name .className
    skipNewlines
    if ← accept .emptyObject then return .classDecl (.mk name [] [])
    else
      let _ ← expect .leftBrace .classOpen
      skipNewlines
      let (methods, fields) ← memberRow fuel
      let _ ← expect .rightBrace .classClose
      return .classDecl (.mk name methods fields)

/-- The methods and fields of a class, up to a closing brace. -/
def memberRow : Nat → Parse (List FunctionDecl × List FieldDecl)
  | 0 => throw .outOfFuel
  | fuel + 1 => do
    let c ← get
    if c.check .rightBrace || c.atEnd then return ([], [])
    else
      let name ← expect .name .memberName
      if ← accept .leftParen then
        let method ← functionRest fuel name
        skipNewlines
        let (methods, fields) ← memberRow fuel
        return (method :: methods, fields)
      else
        let ty ← annotated fuel
        let _ ← expect .assign .fieldAssign
        let init ← expression fuel
        statementEnd
        skipNewlines
        let (methods, fields) ← memberRow fuel
        return (methods, .mk name ty init :: fields)

/-- A conditional after the word `if`.  The word `else` may stand on a later line; anything else
found there belongs to the statements around the conditional. -/
def ifStatement : Nat → Token → Parse Stmt
  | 0, _ => throw .outOfFuel
  | fuel + 1, keyword => do
    let _ ← expect .leftParen .ifParen
    let condition ← expression fuel
    let _ ← expect .rightParen .ifClose
    let thenBranch ← block fuel
    let before ← get
    skipNewlines
    if ← accept .kwElse then
      if let some inner ← acceptAny [.kwIf] then
        let elseBranch ← ifStatement fuel inner
        return .cond keyword condition (.block thenBranch) (some elseBranch)
      else
        let elseBranch ← block fuel
        return .cond keyword condition (.block thenBranch) (some (.block elseBranch))
    else
      set before
      return .cond keyword condition (.block thenBranch) none

/-- A loop after the word `while`. -/
def whileStatement : Nat → Token → Parse Stmt
  | 0, _ => throw .outOfFuel
  | fuel + 1, keyword => do
    let _ ← expect .leftParen .whileParen
    let condition ← expression fuel
    let _ ← expect .rightParen .whileClose
    let body ← statement fuel
    return .loop condition body keyword

/-- A loop after the word `for`. -/
def forStatement : Nat → Token → Parse Stmt
  | 0, _ => throw .outOfFuel
  | fuel + 1, keyword => do
    let _ ← expect .leftParen .forParen
    let init ← forInit fuel
    let condition ←
      if (← get).check .semicolon then pure (Expr.literal .trueLit (.bool true))
      else expression fuel
    let _ ← expect .semicolon .loopSemicolon
    let increment ←
      if (← get).check .rightParen then pure none
      else some <$> expression fuel
    let _ ← expect .rightParen .forClose
    let body ← statement fuel
    return forLoop keyword init condition increment body

/-- The first clause of a `for` loop. -/
def forInit : Nat → Parse (Option Stmt)
  | 0 => throw .outOfFuel
  | fuel + 1 => do
    if ← accept .semicolon then return none
    else if let some keyword ← acceptAny declarationKinds then
      return some (← variableDeclaration fuel keyword)
    else return some (← expressionStatement fuel)

/-- A variable after the word that introduces it. -/
def variableDeclaration : Nat → Token → Parse Stmt
  | 0, _ => throw .outOfFuel
  | fuel + 1, keyword => do
    let name ← expect .name .variableName
    let ty ← annotated fuel
    if (← peek).kind.isTerminator then
      statementEnd
      return .variable name (declarationKind keyword.kind) ty none
    else
      let equals ← expect .assign .variableAssign
      let c ← get
      if c.check .newline || c.atEnd then failExpecting .initializer
      let value ← expression fuel
      statementEnd
      return .variable name (declarationKind keyword.kind) ty (some (.expression value equals))

/-- A result after the word `return`; without an expression it is `undefined`. -/
def returnStatement : Nat → Token → Parse Stmt
  | 0, _ => throw .outOfFuel
  | fuel + 1, keyword => do
    let value ← if (← peek).kind.isTerminator then pure undefinedLiteral else expression fuel
    statementEnd
    return .returns keyword (.expression value keyword)

/-- The assignment `name[index] = value`. -/
def indexAssignment : Nat → Parse Stmt
  | 0 => throw .outOfFuel
  | fuel + 1 => do
    let name ← advance
    let id ← freshId
    let _ ← expect .leftBracket .indexOpen
    let index ← expression fuel
    let _ ← expect .rightBracket .indexClose
    let _ ← expect .assign .indexAssign
    let value ← expression fuel
    statementEnd
    return .indexAssign id name index value

end

/-! ### Programs -/

/-- A statement of a program, with the line feeds after it. -/
def topStatement (fuel : Nat) : Parse Stmt := do
  let first ← statement fuel
  skipNewlines
  return first

/-- Statements up to the end mark.  Each takes at least one token. -/
def programRow (fuel : Nat) (c : Cursor) : Except Failure (List Stmt × Cursor) := do
  if c.atEnd then return ([], c)
  else
    let (first, c') ← topStatement fuel c
    if _ : c'.rest.length < c.rest.length then
      let (more, c'') ← programRow fuel c'
      return (first :: more, c'')
    else throw .outOfFuel
termination_by c.rest.length

/-- How deep the productions may call each other on a row of so many tokens. -/
def depthBound (tokens : Nat) : Nat := 32 * (tokens + 1)

end Grammar

/-- The program that a row of tokens spells, and the first number it leaves unused.  Variable nodes
are numbered from `firstId`. -/
def parseFrom (firstId : NodeId) : List Token → Except Grammar.Failure (Program × NodeId)
  | [] => .ok ([], firstId)
  | first :: rest => do
    let fuel := Grammar.depthBound (rest.length + 1)
    let (program, c) ← (do Grammar.skipNewlines; Grammar.programRow fuel : Grammar.Parse Program)
      |>.run ⟨first, first :: rest, firstId⟩
    return (program, c.nextId)

/-- The program that a row of tokens spells. -/
def parse (tokens : List Token) : Except Grammar.Failure Program :=
  (parseFrom 0 tokens).map Prod.fst

end ScopedScript
