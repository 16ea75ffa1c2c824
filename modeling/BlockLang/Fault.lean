import BlockLang.Text.Quoted
import BlockLang.Span

/-!
All that can be wrong with a project, and the words for it.
-/

namespace BlockLang

inductive Storage where
  | scalar
  | list
  deriving DecidableEq, Repr

def Storage.word : Storage → String
  | scalar => "variable"
  | list => "list"

inductive Callee where
  | procedure
  | statement
  | reporter
  deriving DecidableEq, Repr

def Callee.word : Callee → String
  | procedure => "function"
  | statement => "statement"
  | reporter => "reporter"

-- The two kinds of macro: those that stand for a value, and those that stand for statements.
inductive MacroKind where
  | expression
  | block
  deriving DecidableEq, Repr

def MacroKind.word : MacroKind → String
  | expression => "macro"
  | block => "block macro"

inductive Fault where
  | other (message : String)
  -- Characters.
  | unexpectedCharacter (c : Char)
  | argumentWithoutName
  | unterminatedString
  | unterminatedComment
  -- Tokens.
  | expected (what : String)
  | unterminatedBlock
  | unexpectedKeyword (keyword : String)
  | unknownListMethod (method : String)
  -- Literals.
  | malformedString
  | malformedNumber (text : String)
  | notLiteral
  -- Files.
  | unreadableSource (reason : String)
  | malformedInclude
  | circularInclude (pattern : String)
  | unreadableInclude (pattern reason : String)
  | unmatchedInclude
  | missingInclude (pattern : String)
  | invalidGlob (reason : String)
  | missingDirectory (path : String)
  | missingStage (path : String)
  | unreadableDirectory (path reason : String)
  | reservedSpriteName
  -- Prototypes.
  | malformedPrototype (table : String) (line : Nat) (row : String)
  -- Declarations.
  | noCostumes
  | redeclared (storage : Storage) (name : String)
  | alreadyVariable (name : String)
  | redeclaredFunction
  | redeclaredMacro
  | repeatedParameter (name : String)
  | missingCostume (pattern : String)
  | unmatchedCostumes (pattern : String)
  | missingData
  | unreadableData (reason : String)
  | unreadableImage (reason : String)
  | undecodableImage
  | imageFormat
  -- Macros.
  | undefinedMacro (name : String)
  | recursiveMacro (name : String)
  | undefinedMacroParameter (name : String)
  | macroTooFewArguments (kind : MacroKind)
  | macroTooManyArguments (kind : MacroKind)
  -- Statements and expressions.
  | unknownFunction (name : String)
  | unexpandedMacro (name : String)
  | macroParameterOutside (name : String)
  | localOutside
  | argumentOutside
  | undefinedArgument
  | undefinedStatement (name : String)
  | undefinedReporter (name : String)
  | undefinedIdentifier (name : String)
  | notVariable
  | notList
  | tooFewArguments (callee : Callee) (name : String)
  | tooManyArguments (callee : Callee) (name : String)
  | missingOperator (reporter : String)
  | foreverNotLast
  deriving DecidableEq, Repr

def Fault.message : Fault → String
  | other message => message
  | unexpectedCharacter c => s!"Unexpected character {Text.quoted c}"
  | argumentWithoutName => "Expected argument name after '$'"
  | unterminatedString => "Unterminated string literal"
  | unterminatedComment => "Unterminated comment"
  | expected what => s!"Expected {what}."
  | unterminatedBlock => "Unterminated block. Expected '\x7d'."
  | unexpectedKeyword keyword => s!"Unexpected '{keyword}' at start of statement."
  | unknownListMethod method => s!"Unknown list method '{method}'."
  | malformedString => "Malformed string literal"
  | malformedNumber text => s!"Malformed number `{text}`"
  | notLiteral => "Expected a literal"
  | unreadableSource reason => s!"Could not read source file: {reason}"
  | malformedInclude => "Malformed include directive"
  | circularInclude pattern => s!"Circular include of `{pattern}`"
  | unreadableInclude pattern reason => s!"Could not read `{pattern}`: {reason}"
  | unmatchedInclude => "Glob does not match any files"
  | missingInclude pattern => s!"Included file `{pattern}` not found"
  | invalidGlob reason => s!"Invalid glob: {reason}"
  | missingDirectory path => s!"Project directory `{path}` does not exist"
  | missingStage path => s!"No stage.gs found in `{path}`"
  | unreadableDirectory path reason => s!"Could not list `{path}`: {reason}"
  | reservedSpriteName => "`Stage` cannot be used as a sprite name"
  | malformedPrototype table line row =>
    s!"Malformed prototype in {table} table, line {line}: {row}"
  | noCostumes => "No costumes defined"
  | redeclared storage name => s!"Redeclaration of {storage.word} `{name}`"
  | alreadyVariable name => s!"`{name}` is already declared as a variable"
  | redeclaredFunction => "Redeclaration of function"
  | redeclaredMacro => "Redeclaration of macro"
  | repeatedParameter name => s!"Argument `{name}` was repeated"
  | missingCostume pattern => s!"Costume file not found {pattern}"
  | unmatchedCostumes pattern => s!"Glob does not match any files {pattern}"
  | missingData => "Data file not found."
  | unreadableData reason => s!"Could not read data file: {reason}"
  | unreadableImage reason => s!"Could not read image file: {reason}"
  | undecodableImage => "Could not decode image:"
  | imageFormat => "Invalid imagelist format"
  | undefinedMacro name => s!"Undefined macro `{name}`"
  | recursiveMacro name => s!"Recursive macro `{name}`"
  | undefinedMacroParameter name => s!"Undefined macro argument `{name}!`"
  | macroTooFewArguments kind => s!"Missing arguments for {kind.word}"
  | macroTooManyArguments kind => s!"Too many arguments for {kind.word}"
  | unknownFunction name => s!"Unknown function `{name}`"
  | unexpandedMacro name => s!"Macro `{name}` was not expanded"
  | macroParameterOutside name => s!"Macro argument `{name}!` used outside of a macro"
  | localOutside => "local variables cannot be used outside of functions"
  | argumentOutside => "Argument reporter used outside function declaration"
  | undefinedArgument => "Undefined function argument"
  | undefinedStatement name => s!"Undefined statement or function `{name}`"
  | undefinedReporter name => s!"Undefined reporter `{name}`"
  | undefinedIdentifier name => s!"Undefined variable or list `{name}`"
  | notVariable => "Identifier is not a variable"
  | notList => "Identifier is not a list"
  | tooFewArguments callee name => s!"Missing arguments for {callee.word} `{name}`"
  | tooManyArguments callee name => s!"Too many arguments for {callee.word} `{name}`"
  | missingOperator reporter => s!"Reporter table has no `{reporter}` entry"
  | foreverNotLast => "forever cannot be preceded by any statements"

-- A fault at a place in source text that no file has been found for yet.
structure SyntaxError where
  fault : Fault
  span : Span
  deriving DecidableEq, Repr

def SyntaxError.describe (e : SyntaxError) : String :=
  s!"{e.fault.message} (line {e.span.line}, column {e.span.column})"

end BlockLang
