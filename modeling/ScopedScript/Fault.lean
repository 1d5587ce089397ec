import ScopedScript.Tree

/-! # Faults at run time

The causes for which a running program stops, each with what its message tells. -/

namespace ScopedScript

/-- Why a running program stops. -/
inductive RuntimeFault where
  | undefinedVariable (name : String)
  | alreadyDeclared (name : String)
  | parameterDeclared (name : String)
  | notCallable (type : String)
  | wrongArity (expected given : Nat)
  | stackOverflow
  | conditionType (keyword type : String)
  | numberOperands (operator left right : String)
  | booleanOperand (operator type : String)
  | negation (type : String)
  | complement (type : String)
  | addition (left right : String)
  | divisionByZero
  | unknownOperator (operator : String)
  | noInstanceProperty (name : String)
  | noObjectProperty (name : String)
  | noProperties (type : String)
  | noWrapper (name type wrapper : String)
  | noFields (type : String)
  | notIndexable (name type : String)
  | notAssignable (name type : String)
  | indexNotWhole (shown : String)
  | indexOutOfBounds (shown name : String) (length : Nat)
  | mapNeedsList (type : String)
  | lenNeedsSequence (type : String)
  | pushNeedsList (type : String)
  | sinkFull
  | invalidInput
  /-- The clock stands before the time that it counts from. -/
  | clockBehind
  /-- What a function of the host reports. -/
  | host (message : String)
  deriving DecidableEq, Repr

/-- The message of a fault. -/
def RuntimeFault.message : RuntimeFault → String
  | .undefinedVariable name => "Undefined variable '" ++ name ++ "'."
  | .alreadyDeclared name => "'" ++ name ++ "' is already declared in this scope."
  | .parameterDeclared name => "Parameter '" ++ name ++ "' is already declared."
  | .notCallable type => "Can only call functions and classes, got " ++ type ++ "."
  | .wrongArity expected given =>
    "Expected " ++ toString expected ++ " arguments but got " ++ toString given ++ "."
  | .stackOverflow => "Stack overflow."
  | .conditionType keyword type =>
    "Condition of '" ++ keyword ++ "' must be a boolean, got " ++ type ++ "."
  | .numberOperands operator left right =>
    "Operands of '" ++ operator ++ "' must be numbers, got " ++ left ++ " and " ++ right ++ "."
  | .booleanOperand operator type =>
    "Operands of '" ++ operator ++ "' must be booleans, got " ++ type ++ "."
  | .negation type => "Operand of '-' must be a number, got " ++ type ++ "."
  | .complement type => "Operand of '!' must be a boolean, got " ++ type ++ "."
  | .addition left right =>
    "Can't add " ++ left ++ " and " ++ right ++ ", operands must be numbers or strings."
  | .divisionByZero => "Division by zero."
  | .unknownOperator operator => "Invalid binary operator '" ++ operator ++ "'."
  | .noInstanceProperty name => "Undefined property '" ++ name ++ "'."
  | .noObjectProperty name => "Object has no property '" ++ name ++ "'."
  | .noProperties type =>
    "Only instances, objects, lists and strings have properties, got " ++ type ++ "."
  | .noWrapper name type wrapper =>
    "Can't read '" ++ name ++ "' of a " ++ type ++ ", no '" ++ wrapper ++ "' class is defined."
  | .noFields type => "Only instances and objects have fields, got " ++ type ++ "."
  | .notIndexable name type => "Only lists can be indexed, '" ++ name ++ "' is a " ++ type ++ "."
  | .notAssignable name type =>
    "Only list elements can be assigned, '" ++ name ++ "' is a " ++ type ++ "."
  | .indexNotWhole shown => "List index must be an integer, got " ++ shown ++ "."
  | .indexOutOfBounds shown name length =>
    "Index " ++ shown ++ " is out of bounds for '" ++ name ++ "' with length " ++
      toString length ++ "."
  | .mapNeedsList type => "map expects a list as its first argument, got " ++ type ++ "."
  | .lenNeedsSequence type => "len expects a list or a string, got " ++ type ++ "."
  | .pushNeedsList type => "push expects a list as its first argument, got " ++ type ++ "."
  | .sinkFull => "I/O error: sink full."
  | .invalidInput => "I/O error: stream did not contain valid UTF-8."
  | .clockBehind => "second time provided was later than self."
  | .host message => message

/-- A fault at the token that has it. -/
structure RuntimeError where
  fault : RuntimeFault
  token : Token

end ScopedScript
