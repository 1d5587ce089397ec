import ScopedScript.Grammar.Cursor

/-! # Annotations and parameters

The productions for type annotations and for parameter lists, which contain each other.  From the
loosest to the tightest a type is a union, an intersection, an array, or a primary type.  The first
argument of a production bounds how deep productions may call each other. -/

namespace ScopedScript.Grammar

/-- The kinds that are a type by themselves. -/
def namedTypeKinds : List Token.Kind :=
  [.typeString, .typeNumber, .typeBoolean, .typeVoid, .typeAny, .typeNever, .nullLit,
   .undefinedLit, .string, .number, .float, .trueLit, .falseLit]

/-- The brackets `[]` after an array's element type. -/
def arrayRest : Nat → Ty → Parse Ty
  | 0, _ => throw .outOfFuel
  | fuel + 1, ty => do
    let c ← get
    if c.check .leftBracket && c.checkNext .rightBracket then
      let _ ← advance
      let _ ← advance
      arrayRest fuel (.array ty)
    else return ty

mutual

/-- An annotation, if a colon announces one. -/
def annotated : Nat → Parse (Option Ty)
  | 0 => throw .outOfFuel
  | fuel + 1 => do
    if ← accept .colon then return some (← unionType fuel) else return none

/-- A type: intersections between bars. -/
def unionType : Nat → Parse Ty
  | 0 => throw .outOfFuel
  | fuel + 1 => do
    let first ← intersectionType fuel
    let more ← unionRest fuel
    return if more.isEmpty then first else .union (first :: more)

/-- The members of a union after the first. -/
def unionRest : Nat → Parse (List Ty)
  | 0 => throw .outOfFuel
  | fuel + 1 => do
    if ← accept .pipe then
      let member ← intersectionType fuel
      return member :: (← unionRest fuel)
    else return []

/-- Arrays between ampersands. -/
def intersectionType : Nat → Parse Ty
  | 0 => throw .outOfFuel
  | fuel + 1 => do
    let first ← arrayType fuel
    let more ← intersectionRest fuel
    return if more.isEmpty then first else .intersection (first :: more)

/-- The members of an intersection after the first. -/
def intersectionRest : Nat → Parse (List Ty)
  | 0 => throw .outOfFuel
  | fuel + 1 => do
    if ← accept .ampersand then
      let member ← arrayType fuel
      return member :: (← intersectionRest fuel)
    else return []

/-- A primary type with any number of `[]`. -/
def arrayType : Nat → Parse Ty
  | 0 => throw .outOfFuel
  | fuel + 1 => do
    let element ← primaryType fuel
    arrayRest fuel element

/-- A named, generic, function, tuple or object type. -/
def primaryType : Nat → Parse Ty
  | 0 => throw .outOfFuel
  | fuel + 1 => do
    if let some token ← acceptAny namedTypeKinds then
      return .named token.lexeme token.kind
    else if let some token ← acceptAny [.name] then
      if ← accept .less then
        let args ← typeArguments fuel
        let _ ← expect .greater .typeArgumentsClose
        return .generic token.lexeme args
      else return .named token.lexeme .name
    else if ← accept .leftParen then
      let params ← parameters fuel
      let _ ← expect .arrow .arrow
      let result ← unionType fuel
      return .function params result
    else if ← accept .leftBracket then
      let elements ← tupleElements fuel
      let _ ← expect .rightBracket .tupleClose
      return .tuple elements
    else if ← accept .emptyObject then
      return .object []
    else if ← accept .leftBrace then
      skipNewlines
      let entries ← typeEntries fuel
      let _ ← expect .rightBrace .objectTypeClose
      return .object entries
    else failExpecting .type

/-- The arguments of a generic type, at least one. -/
def typeArguments : Nat → Parse (List Ty)
  | 0 => throw .outOfFuel
  | fuel + 1 => do
    let first ← unionType fuel
    if ← accept .comma then return first :: (← typeArguments fuel) else return [first]

/-- The elements of a tuple type; a comma may follow the last one. -/
def tupleElements : Nat → Parse (List Ty)
  | 0 => throw .outOfFuel
  | fuel + 1 => do
    let c ← get
    if c.check .rightBracket || c.atEnd then return []
    else
      let first ← unionType fuel
      if ← accept .comma then return first :: (← tupleElements fuel) else return [first]

/-- The properties of an object type, each with an optional comma or semicolon after it. -/
def typeEntries : Nat → Parse (List TyEntry)
  | 0 => throw .outOfFuel
  | fuel + 1 => do
    let c ← get
    if c.check .rightBrace || c.atEnd then return []
    else
      let name ← expect .name .typeEntryName
      let _ ← expect .colon .typeEntryColon
      let ty ← unionType fuel
      let _ ← acceptAny [.comma, .semicolon]
      skipNewlines
      return .mk name.lexeme ty :: (← typeEntries fuel)

/-- A parameter list after its opening parenthesis, up to and including the closing one. -/
def parameters : Nat → Parse (List Parameter)
  | 0 => throw .outOfFuel
  | fuel + 1 => do
    skipNewlines
    let params ← if (← get).check .rightParen then pure [] else parameterRow fuel 0
    let _ ← expect .rightParen .parametersClose
    return params

/-- Parameters between commas; `count` of them have been read before. -/
def parameterRow : Nat → Nat → Parse (List Parameter)
  | 0, _ => throw .outOfFuel
  | fuel + 1, count => do
    skipNewlines
    if maxArguments ≤ count then failAt (← peek) .tooManyParameters
    let left ← expect .name .parameterName
    let ty ← annotated fuel
    let last := (← get).last
    let parameter := Parameter.mk left.lexeme ty left (ty.map fun _ => last)
    skipNewlines
    if ← accept .comma then return parameter :: (← parameterRow fuel (count + 1))
    else return [parameter]

end

end ScopedScript.Grammar
