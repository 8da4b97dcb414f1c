import ChessEval.Text.Lines
import ChessEval.Text.Blank
import ChessEval.Text.Quoted

/-!
# Issues

Everything that can be wrong with a program, with the name, the family, the wording and the advice
that belong to it. Six issues are warnings; all others keep the program from being compiled.
-/

namespace ChessEval

/-- What is wrong. Types and headers stand in it as messages spell them. -/
inductive Issue where
  | unrecognisedToken (token : String)
  | unexpectedToken (token : String)
  | unexpectedTokenDetailed (token message : String)
  | malformedNumber (token : String)
  | variableRedeclared (name : String)
  | globalRedeclared (global : String)
  | functionRedeclared (function header : String)
  | returnTypeConflict (function previous received : String)
  | ruleRedeclared (rule : String)
  | repeatedRuleOption (option : String)
  | unknownRuleOption (option : String)
  | unknownConfigOption (option : String)
  | configOptionType (option expected : String)
  | globalTypeMismatch (global declared received : String)
  | assignmentTypeMismatch (expected received : String)
  | returnTypeMismatch (definition expected received : String)
  | conditionNotBool (statement received : String)
  | guardNotBool (rule received : String)
  | scoreNotNum (received : String)
  | operatorType (message : String)
  | indexNotNum (received : String)
  | listElementMismatch (expected received : String)
  | voidListElement
  | forallSourceNotArray (received : String)
  | noMatchingHeader (function call candidates : String)
  | referenceArgument (function : String) (position : Nat)
  | variableNotDeclared (name : String)
  | functionNotDeclared (function : String)
  | ambiguousCall (call candidates : String)
  | scoreInFunction
  | noScoreInRule (rule : String)
  | unreachableAfterReturn
  | unreachableAfterIfElse
  | missingReturn
  | voidWithoutReference (function : String)
  | unusedVariable (name : String)
  | unusedGlobal (global : String)
  | unresolvedForallSource (name : String)
  | unresolvedEmptyArray
  | inferenceConflict (expected received : String)
  | unresolvedType (type : String)
  | missingCallResolution (function : String)
  | noActiveScope
  | malformedPredefined (line : Nat) (text : String)
deriving DecidableEq, Repr

inductive Family where
  | grammar
  | definition
  | type
  | scope
  | ambiguousCall
  | controlFlow
  | unusedBinding
  | inference
  | internal
deriving DecidableEq, Repr

def Family.name : Family → String
  | .grammar => "Syntax"
  | .definition => "Definition"
  | .type => "Type"
  | .scope => "Scope"
  | .ambiguousCall => "AmbiguousCall"
  | .controlFlow => "ControlFlow"
  | .unusedBinding => "UnusedBinding"
  | .inference => "Inference"
  | .internal => "Internal"

namespace Issue

/-- Whether the program can still be compiled. -/
def isWarning : Issue → Bool
  | .unreachableAfterReturn | .unreachableAfterIfElse | .missingReturn | .voidWithoutReference _
  | .unusedVariable _ | .unusedGlobal _ => true
  | _ => false

def family : Issue → Family
  | .unrecognisedToken _ | .unexpectedToken _ | .unexpectedTokenDetailed .. | .malformedNumber _ =>
    .grammar
  | .variableRedeclared _ | .globalRedeclared _ | .functionRedeclared .. | .returnTypeConflict ..
  | .ruleRedeclared _ | .repeatedRuleOption _ | .unknownRuleOption _ | .unknownConfigOption _ =>
    .definition
  | .configOptionType .. | .globalTypeMismatch .. | .assignmentTypeMismatch ..
  | .returnTypeMismatch .. | .conditionNotBool .. | .guardNotBool .. | .scoreNotNum _
  | .operatorType _ | .indexNotNum _ | .listElementMismatch .. | .voidListElement
  | .forallSourceNotArray _ | .noMatchingHeader .. | .referenceArgument .. => .type
  | .variableNotDeclared _ | .functionNotDeclared _ => .scope
  | .ambiguousCall .. => .ambiguousCall
  | .scoreInFunction | .noScoreInRule _ | .unreachableAfterReturn | .unreachableAfterIfElse
  | .missingReturn | .voidWithoutReference _ => .controlFlow
  | .unusedVariable _ | .unusedGlobal _ => .unusedBinding
  | .unresolvedForallSource _ | .unresolvedEmptyArray => .inference
  | .inferenceConflict .. | .unresolvedType _ | .missingCallResolution _ | .noActiveScope
  | .malformedPredefined .. => .internal

def name : Issue → String
  | .unrecognisedToken _ => "UnrecognisedToken"
  | .unexpectedToken _ => "UnexpectedToken"
  | .unexpectedTokenDetailed .. => "UnexpectedTokenDetailed"
  | .malformedNumber _ => "NumberParseError"
  | .variableRedeclared _ => "VariableAlreadyDeclared"
  | .globalRedeclared _ => "GlobalAlreadyDeclared"
  | .functionRedeclared .. => "FunctionAlreadyDeclared"
  | .returnTypeConflict .. => "ReturnTypeConflict"
  | .ruleRedeclared _ => "RuleAlreadyDeclared"
  | .repeatedRuleOption _ => "RepeatedRuleOption"
  | .unknownRuleOption _ => "UnknownRuleOption"
  | .unknownConfigOption _ => "UnknownConfigOption"
  | .configOptionType .. => "ConfigOptionTypeError"
  | .globalTypeMismatch .. => "GlobalTypeMismatch"
  | .assignmentTypeMismatch .. => "AssignmentTypeMismatch"
  | .returnTypeMismatch .. => "ReturnTypeMismatch"
  | .conditionNotBool .. => "ConditionNotBool"
  | .guardNotBool .. => "GuardNotBool"
  | .scoreNotNum _ => "ScoreNotNum"
  | .operatorType _ => "OperatorTypeError"
  | .indexNotNum _ => "IndexNotNum"
  | .listElementMismatch .. => "ListElementMismatch"
  | .voidListElement => "VoidListElement"
  | .forallSourceNotArray _ => "ForallSourceNotArray"
  | .noMatchingHeader .. => "NoMatchingHeader"
  | .referenceArgument .. => "ReferenceArgument"
  | .variableNotDeclared _ => "VariableNotDeclared"
  | .functionNotDeclared _ => "FunctionNotDeclared"
  | .ambiguousCall .. => "AmbiguousCall"
  | .scoreInFunction => "ScoreInFunction"
  | .noScoreInRule _ => "NoScoreInRule"
  | .unreachableAfterReturn => "UnreachableAfterReturn"
  | .unreachableAfterIfElse => "UnreachableAfterIfElse"
  | .missingReturn => "MissingReturn"
  | .voidWithoutReference _ => "VoidWithoutReference"
  | .unusedVariable _ => "UnusedVariable"
  | .unusedGlobal _ => "UnusedGlobal"
  | .unresolvedForallSource _ => "UnresolvedForallSource"
  | .unresolvedEmptyArray => "UnresolvedEmptyArray"
  | .inferenceConflict .. => "InferenceConflict"
  | .unresolvedType _ => "UnresolvedType"
  | .missingCallResolution _ => "MissingCallResolution"
  | .noActiveScope => "NoActiveScope"
  | .malformedPredefined .. => "MalformedBuiltin"

def message : Issue → String
  | .unrecognisedToken t => "unrecognised token: " ++ Text.quoted t
  | .unexpectedToken t => "unexpected token: " ++ Text.quoted t
  | .unexpectedTokenDetailed t m => "unexpected token (" ++ m ++ "): " ++ Text.quoted t
  | .malformedNumber t => "error parsing number: " ++ Text.quoted t
  | .variableRedeclared v => "Variable '" ++ v ++ "' already defined"
  | .globalRedeclared g => "Global '" ++ g ++ "' already defined"
  | .functionRedeclared f h => "Function '" ++ f ++ "' already defined with header " ++ h
  | .returnTypeConflict f p r =>
    "Function '" ++ f ++ "' returns " ++ p ++ " in a previous header but " ++ r ++ " here"
  | .ruleRedeclared r => "Rule '" ++ r ++ "' already defined"
  | .repeatedRuleOption o => "Option " ++ o ++ " repeated in the header of the rule"
  | .unknownRuleOption o => "Unknown rule option '" ++ o ++ "'"
  | .unknownConfigOption o => "Undefined config option: '" ++ o ++ "'"
  | .configOptionType o e => "Value of option '" ++ o ++ "' is not of the expected type " ++ e
  | .globalTypeMismatch g d r =>
    "Global " ++ g ++ " is declared as " ++ d ++ " but its expression is of type " ++ r
  | .assignmentTypeMismatch e r => "Assignment type " ++ r ++ " is not of expected type " ++ e
  | .returnTypeMismatch d e r =>
    "Return of " ++ d ++ " is declared as " ++ e ++
      " but expression in return statement is of type " ++ r
  | .conditionNotBool s r => "Expected BOOL in " ++ s ++ " condition but found " ++ r ++ " instead"
  | .guardNotBool n r => "Guard of rule '" ++ n ++ "' is " ++ r ++ " instead of BOOL"
  | .scoreNotNum r => "Expected NUM in score but found " ++ r ++ " instead"
  | .operatorType m => m
  | .indexNotNum r => "The position of the array must be a NUM, but it's " ++ r ++ " instead"
  | .listElementMismatch e r => "Elements of the list aren't of the same type: " ++ e ++ " and " ++ r
  | .voidListElement => "VOID cannot be inside an array"
  | .forallSourceNotArray r => "Cannot iterate over " ++ r ++ ", an array was expected"
  | .noMatchingHeader f c l =>
    "No header of '" ++ f ++ "' matches the call " ++ c ++ "; declared headers: " ++ l
  | .referenceArgument f p =>
    "Argument " ++ toString p ++ " of '" ++ f ++ "' is passed by reference and must be a variable"
  | .variableNotDeclared v => "Variable '" ++ v ++ "' not defined"
  | .functionNotDeclared f => "Function '" ++ f ++ "' not defined"
  | .ambiguousCall c l => "Call " ++ c ++ " is ambiguous; matching headers: " ++ l
  | .scoreInFunction => "score statement in a function"
  | .noScoreInRule r => "No score statement in rule '" ++ r ++ "'"
  | .unreachableAfterReturn => "Unreachable instructions after return statement"
  | .unreachableAfterIfElse => "Unreachable instructions after if/else statement"
  | .missingReturn => "Return statement not reached through every possible branch"
  | .voidWithoutReference f => "void function '" ++ f ++ "' without parameters by reference"
  | .unusedVariable v => "Variable '" ++ v ++ "' defined but never used"
  | .unusedGlobal g => "Global '" ++ g ++ "' defined but never used"
  | .unresolvedForallSource v =>
    "Cannot infer the type of loop variable '" ++ v ++
      "': the iterated array has no known element type"
  | .unresolvedEmptyArray => "Cannot infer the element type of an empty array"
  | .inferenceConflict e r => "internal error: inferred types " ++ e ++ " and " ++ r ++ " disagree"
  | .unresolvedType t => "internal error: type " ++ t ++ " reached code generation"
  | .missingCallResolution f => "internal error: call to '" ++ f ++ "' was never resolved"
  | .noActiveScope => "internal error: no scope is open"
  | .malformedPredefined l t =>
    "malformed predefined function on line " ++ toString l ++ ": " ++ Text.quoted t

/-- What the author of the program can do about an issue. -/
def tip? : Issue → Option String
  | .unexpectedToken t => some ("Unexpected token: `" ++ t ++ "`, did you miss a semicolon?")
  | .unexpectedTokenDetailed t m => some ("Unexpected token: `" ++ t ++ "`, " ++ m)
  | .malformedNumber t => some ("Invalid number: `" ++ t ++ "`")
  | .voidWithoutReference _ => some "Mark a parameter with `&` so the function can change it"
  | .ambiguousCall .. | .unresolvedEmptyArray =>
    some "Store the empty array in a typed variable before using it"
  | .unresolvedForallSource _ => some "Iterate over a typed variable instead of a bare `[]`"
  | .noScoreInRule _ => some "Add a `score <expression>;` statement"
  | .referenceArgument .. => some "Pass a variable, not an expression"
  | _ => none

end Issue

structure Fault where
  issue : Issue
  line : Nat
  file : String
deriving DecidableEq, Repr

namespace Fault

/-- The first line of a shown fault: its name, and the advice if there is any. -/
def title (fault : Fault) : String :=
  match fault.issue.tip? with
  | none => "Error: " ++ fault.issue.name ++ "\n"
  | some tip => "Error: " ++ fault.issue.name ++ " (" ++ tip ++ ")\n"

def margin (number : String) : String :=
  String.ofList (List.replicate (number.length + 1) ' ') ++ "|\n"

/-- A fault shown together with the line of the source it points at, or with its message if the
source has no such line. -/
def shown (fault : Fault) (source file : String) : String :=
  let number := toString fault.line
  let detail :=
    match Text.line? source fault.line with
    | some text => margin number ++ number ++ " | " ++ Text.trimmed text ++ "\n"
    | none => fault.issue.message ++ "\n"
  fault.title ++ "-> " ++ file ++ "\n" ++ detail

end Fault

end ChessEval
