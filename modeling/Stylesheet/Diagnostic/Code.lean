/-!
The catalogue of faults: what can be wrong with a stylesheet, by the stage that notices it.
-/

namespace Stylesheet

/-- The family a fault belongs to. -/
inductive FaultKind where
  | lex
  | parse
  | nesting
  | undefined
  | argument
  | unitConversion
  | includeLoop
  | evaluation
  | extend
  | importing
deriving Repr, DecidableEq

/-- The name of a family in reports. -/
def FaultKind.name : FaultKind → String
  | lex => "Lex"
  | parse => "Parse"
  | nesting => "Nesting"
  | undefined => "Undefined"
  | argument => "Argument"
  | unitConversion => "UnitConversion"
  | includeLoop => "IncludeLoop"
  | evaluation => "Evaluation"
  | extend => "Extend"
  | importing => "Import"

/-- A fault with a code of its own. -/
inductive Fault where
  | unterminatedString
  | unexpectedCharacter
  | unterminatedInterpolation
  | unterminatedComment
  | unexpectedToken
  | incompleteInput
  | inconsistentIndentation
  | mixedIndentation
  | invalidSelector
  | invalidDeclaration
  | misplacedElse
  | illegalNesting
  | misplacedCharset
  | misplacedDefinition
  | propertyOutsideRule
  | returnOutsideFunction
  | extendOutsideRule
  | misplacedImport
  | invalidFunctionBody
  | invalidPropertyBody
  | undefinedVariable
  | undefinedMixin
  | invalidArguments
  | incompatibleUnits
  | includeLoop
  | limitExceeded
  | invalidOperation
  | missingReturn
  | invalidParentSelector
  | invalidExtendTarget
  | extendTargetNotFound
  | importNotFound
  | importLoop
  | unreadableCacheEntry
  | unreadableImport
deriving Repr, DecidableEq

namespace Fault

/-- Every fault, in the order of the codes. -/
def all : List Fault := [
  unterminatedString, unexpectedCharacter, unterminatedInterpolation, unterminatedComment,
  unexpectedToken, incompleteInput, inconsistentIndentation, mixedIndentation, invalidSelector,
  invalidDeclaration, misplacedElse, illegalNesting, misplacedCharset, misplacedDefinition,
  propertyOutsideRule, returnOutsideFunction, extendOutsideRule, misplacedImport,
  invalidFunctionBody, invalidPropertyBody, undefinedVariable, undefinedMixin, invalidArguments,
  incompatibleUnits, includeLoop, limitExceeded, invalidOperation, missingReturn,
  invalidParentSelector, invalidExtendTarget, extendTargetNotFound, importNotFound, importLoop,
  unreadableCacheEntry, unreadableImport]

/-- The code shown in front of a message. -/
def code : Fault → String
  | unterminatedString => "E001"
  | unexpectedCharacter => "E002"
  | unterminatedInterpolation => "E003"
  | unterminatedComment => "E004"
  | unexpectedToken => "E100"
  | incompleteInput => "E101"
  | inconsistentIndentation => "E102"
  | mixedIndentation => "E103"
  | invalidSelector => "E104"
  | invalidDeclaration => "E105"
  | misplacedElse => "E106"
  | illegalNesting => "E200"
  | misplacedCharset => "E201"
  | misplacedDefinition => "E202"
  | propertyOutsideRule => "E203"
  | returnOutsideFunction => "E204"
  | extendOutsideRule => "E205"
  | misplacedImport => "E206"
  | invalidFunctionBody => "E207"
  | invalidPropertyBody => "E208"
  | undefinedVariable => "E300"
  | undefinedMixin => "E301"
  | invalidArguments => "E302"
  | incompatibleUnits => "E303"
  | includeLoop => "E304"
  | limitExceeded => "E305"
  | invalidOperation => "E306"
  | missingReturn => "E307"
  | invalidParentSelector => "E308"
  | invalidExtendTarget => "E400"
  | extendTargetNotFound => "E401"
  | importNotFound => "E500"
  | importLoop => "E501"
  | unreadableCacheEntry => "E502"
  | unreadableImport => "E503"

/-- A short description. -/
def description : Fault → String
  | unterminatedString => "unterminated string literal"
  | unexpectedCharacter => "unexpected character"
  | unterminatedInterpolation => "unterminated interpolation"
  | unterminatedComment => "unterminated comment"
  | unexpectedToken => "unexpected token"
  | incompleteInput => "incomplete input"
  | inconsistentIndentation => "inconsistent indentation"
  | mixedIndentation => "mixed tabs and spaces"
  | invalidSelector => "invalid selector"
  | invalidDeclaration => "invalid property declaration"
  | misplacedElse => "misplaced @else"
  | illegalNesting => "illegal nesting"
  | misplacedCharset => "misplaced @charset"
  | misplacedDefinition => "misplaced definition"
  | propertyOutsideRule => "property outside of a rule"
  | returnOutsideFunction => "@return outside of a function"
  | extendOutsideRule => "@extend outside of a rule"
  | misplacedImport => "misplaced @import"
  | invalidFunctionBody => "invalid function body"
  | invalidPropertyBody => "non-property nested in a property"
  | undefinedVariable => "undefined variable"
  | undefinedMixin => "undefined mixin"
  | invalidArguments => "invalid arguments"
  | incompatibleUnits => "incompatible units"
  | includeLoop => "@include loop"
  | limitExceeded => "limit exceeded"
  | invalidOperation => "invalid operation"
  | missingReturn => "missing @return"
  | invalidParentSelector => "invalid parent selector"
  | invalidExtendTarget => "invalid @extend target"
  | extendTargetNotFound => "@extend target not found"
  | importNotFound => "file to import not found"
  | importLoop => "import loop"
  | unreadableCacheEntry => "unreadable cache entry"
  | unreadableImport => "unreadable import"

/-- The family of a fault. -/
def kind : Fault → FaultKind
  | unterminatedString | unexpectedCharacter | unterminatedInterpolation | unterminatedComment =>
    .lex
  | unexpectedToken | incompleteInput | inconsistentIndentation | mixedIndentation
  | invalidSelector | invalidDeclaration | misplacedElse => .parse
  | illegalNesting | misplacedCharset | misplacedDefinition | propertyOutsideRule
  | returnOutsideFunction | extendOutsideRule | misplacedImport | invalidFunctionBody
  | invalidPropertyBody => .nesting
  | undefinedVariable | undefinedMixin => .undefined
  | invalidArguments => .argument
  | incompatibleUnits => .unitConversion
  | includeLoop => .includeLoop
  | limitExceeded | invalidOperation | missingReturn | invalidParentSelector => .evaluation
  | invalidExtendTarget | extendTargetNotFound => .extend
  | importNotFound | importLoop | unreadableCacheEntry | unreadableImport => .importing

/-- The fault of a code. -/
def ofCode? (code : String) : Option Fault :=
  all.find? (·.code == code)

end Fault

end Stylesheet
