import GameScript.Syntax.Scan

/-!
# Syntax errors

Why a text is no source file or no expression.
-/

namespace GameScript

/-- The cause of a syntax error. -/
inductive SyntaxFault where
  | scan (f : ScanFault)
  | unexpected (got want : TokenKind)
  /-- A token where a thing of the given description is wanted. -/
  | wanted (got : TokenKind) (want : Text)
  | afterExpression (got : TokenKind)
  | inClassBody (got : TokenKind)
  | markerNotAllowed (name : Text)
  | markerNeedsString (name : Text)
  | markerNeedsStrings
  | unknownMarker (name : Text)
  | memberAfterMarker
  | markerOnlyForVariables (name : Text)
  | repeated (keyword : Text)
  | classNameInside
  | accessorExpected
  | secondSetter
  | secondGetter
  | assignExpected (accessor : Text)
  | signalDefault
  | mandatoryAfterOptional
  | alreadyDeclared (kind name : Text)
  | breakOutside
  | continueOutside
  | cannotAssign (what : Text)
  | bindWithAlternatives
  | restOutside
  | restNotLast (container : Text)
  | elseExpected
  | superTarget
  | preloadPath
  | dictKeyName
  | dictKeyMark (mark : Text)
  /-- A region without warnings where there is no file to record it in. -/
  | noFile
  /-- A name declared where there is no block to record it in. -/
  | noBlock
  /-- A parser that has not come to its end in the room it was given. -/
  | outOfRoom
deriving DecidableEq

namespace SyntaxFault

private def quoted (t : Text) : Text := "\"" ++ t ++ "\""

def message : SyntaxFault → Text
  | scan f => f.message
  | unexpected got want => "got " ++ got.label ++ ", want " ++ want.label
  | wanted got want => "got " ++ got.label ++ ", want " ++ want
  | afterExpression got => "got " ++ got.label ++ " after expression, want EOF"
  | inClassBody got => "unexpected " ++ got.label ++ " in class body"
  | markerNotAllowed name => "Annotation " ++ quoted ("@" ++ name) ++ " is not allowed in this level."
  | markerNeedsString name => "Annotation " ++ quoted ("@" ++ name) ++ " requires a string argument."
  | markerNeedsStrings => "Annotation \"@warning_ignore\" requires string arguments."
  | unknownMarker name => "Unrecognized annotation: " ++ quoted ("@" ++ name) ++ "."
  | memberAfterMarker => "Expected class member after annotation."
  | markerOnlyForVariables name =>
    "Annotation " ++ quoted ("@" ++ name) ++ " can only be applied to variables."
  | repeated keyword => quoted keyword ++ " can only be used once."
  | classNameInside => "\"class_name\" is only valid for the main class namespace."
  | accessorExpected => "Expected \"get\" or \"set\" for property declaration."
  | secondSetter => "Properties can only have one setter."
  | secondGetter => "Properties can only have one getter."
  | assignExpected accessor => "Expected \"=\" after " ++ quoted accessor ++ "."
  | signalDefault => "Signal parameters cannot have a default value."
  | mandatoryAfterOptional => "Cannot have mandatory parameters after optional parameters."
  | alreadyDeclared kind name =>
    "There is already a " ++ kind ++ " named " ++ quoted name ++ " declared in this scope."
  | breakOutside => "Cannot use \"break\" outside of a loop."
  | continueOutside => "Cannot use \"continue\" outside of a loop or pattern matching block."
  | cannotAssign what => "cannot assign to " ++ what
  | bindWithAlternatives => "Cannot use a variable bind with multiple patterns."
  | restOutside => "The \"..\" pattern can only be used in array or dictionary patterns."
  | restNotLast container => "The \"..\" pattern must be the last element in the pattern " ++ container ++ "."
  | elseExpected => "Expected \"else\" after ternary operator condition."
  | superTarget => "Expected \"(\" or \".\" after \"super\"."
  | preloadPath => "Preloaded path must be a constant string."
  | dictKeyName => "Expected identifier as dictionary key."
  | dictKeyMark mark => "Expected " ++ quoted mark ++ " after dictionary key."
  | noFile | noBlock => "internal error: runtime error: invalid memory address or nil pointer dereference"
  | outOfRoom => "internal error: out of room"

end SyntaxFault

/-- A syntax error and its place. -/
structure SyntaxError where
  pos : Pos
  fault : SyntaxFault
deriving DecidableEq

def SyntaxError.message (e : SyntaxError) : Text := e.fault.message

end GameScript
