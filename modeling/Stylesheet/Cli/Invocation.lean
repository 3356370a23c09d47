import Stylesheet.Style

/-!
The arguments of the command line. Options have a long name and some a short one; the value of an
option follows it as an argument of its own, behind an equals sign, or directly behind a short
name. Behind two dashes nothing is an option.
-/

namespace Stylesheet.Cli

/-- Why arguments are not carried out. Asking for help or the version is one of the reasons. -/
inductive UsageError where
  | unknownArgument
  | missingValue
  | invalidValue
  | unexpectedValue
  /-- An option is given twice that can be given once. -/
  | repeated
  | missingInput
  | helpRequested
  | versionRequested
deriving Repr, DecidableEq

/-- The name of a reason in reports. -/
def UsageError.name : UsageError → String
  | unknownArgument => "UnknownArgument"
  | missingValue => "InvalidValue"
  | invalidValue => "ValueValidation"
  | unexpectedValue => "TooManyValues"
  | repeated => "ArgumentConflict"
  | missingInput => "MissingRequiredArgument"
  | helpRequested => "DisplayHelp"
  | versionRequested => "DisplayVersion"

/-- What an argument is about. -/
inductive Parameter where
  /-- The stylesheet to compile, which has no name in front of it. -/
  | input
  | output
  | style
  | dialect
  | loadPath
  | lineComments
  | noCache
  | cacheLocation
  | convertTo
  | config
  | logLevel
  | help
  | version
deriving Repr, DecidableEq

namespace Parameter

def ofLongName? : String → Option Parameter
  | "output" => some output
  | "style" => some style
  | "syntax" => some dialect
  | "load-path" => some loadPath
  | "line-comments" => some lineComments
  | "no-cache" => some noCache
  | "cache-location" => some cacheLocation
  | "to" => some convertTo
  | "config" => some config
  | "log-level" => some logLevel
  | "help" => some help
  | "version" => some version
  | _ => none

def ofShortName? : Char → Option Parameter
  | 'o' => some output
  | 'I' => some loadPath
  | 'c' => some config
  | 'h' => some help
  | 'V' => some version
  | _ => none

/-- Whether a value belongs to the parameter. -/
def takesValue : Parameter → Bool
  | lineComments | noCache | help | version => false
  | _ => true

/-- Whether a value can be used. -/
def accepts (parameter : Parameter) (value : String) : Bool :=
  match parameter with
  | style => (Style.ofName? value).isSome
  | dialect | convertTo => (Dialect.ofName? value).isSome
  | _ => true

end Parameter

/-- What has been read of the arguments. -/
structure Reading where
  /-- The parameters with their values, in order. -/
  given : List (Parameter × String)
  /-- The last parameter, which has not been checked, with its value if that has been read. -/
  pending : Option (Parameter × Option String)
  /-- Whether two dashes have been read. -/
  escaped : Bool

namespace Reading

def initial : Reading := ⟨[], none, false⟩

/-- Take a parameter with its value. -/
private def accept (reading : Reading) (parameter : Parameter) (value : String) :
    Except UsageError Reading :=
  if parameter != .loadPath && reading.given.any (·.1 == parameter) then .error .repeated
  else if parameter.accepts value then
    .ok { reading with given := reading.given ++ [(parameter, value)] }
  else .error .invalidValue

/-- Check the last parameter. -/
def settle (reading : Reading) : Except UsageError Reading :=
  match reading.pending with
  | none => .ok reading
  | some (_, none) => .error .missingValue
  | some (parameter, some value) => { reading with pending := none }.accept parameter value

/-- An option whose value, if it takes one, stands in the same argument or is to follow. -/
private def takeOption (reading : Reading) (parameter : Parameter) (value : Option String) :
    Except UsageError Reading :=
  if parameter.takesValue then do
    let reading ← reading.settle
    match value with
    | some value => reading.accept parameter value
    | none => return { reading with pending := some (parameter, none) }
  else if value.isSome then .error .unexpectedValue
  else do
    let reading ← reading.settle
    match parameter with
    | .help => .error .helpRequested
    | .version => .error .versionRequested
    | _ => reading.accept parameter ""

/-- An option by its long name. -/
private def takeLong (reading : Reading) (text : List Char) : Except UsageError Reading :=
  let name := text.takeWhile (· != '=')
  let value := match text.drop name.length with
    | [] => none
    | _ :: value => some (String.ofList value)
  match Parameter.ofLongName? (String.ofList name) with
  | some parameter => reading.takeOption parameter value
  | none => .error .unknownArgument

/-- Options by their short names; the rest behind one that takes a value is the value. -/
private def takeShort (reading : Reading) : List Char → Except UsageError Reading
  | [] => .ok reading
  | c :: rest =>
    match Parameter.ofShortName? c with
    | none => .error .unknownArgument
    | some parameter =>
      if parameter.takesValue then
        let value := match rest with
          | [] => none
          | '=' :: value => some (String.ofList value)
          | value => some (String.ofList value)
        reading.takeOption parameter value
      else do
        takeShort (← reading.takeOption parameter none) rest

/-- An argument that is no option: the value of the option before it, or the input. -/
private def takePlain (reading : Reading) (argument : String) : Except UsageError Reading :=
  match reading.pending, reading.escaped with
  | some (parameter, none), false =>
    .ok { reading with pending := some (parameter, some argument) }
  | pending, _ =>
    if reading.given.any (·.1 == .input) || pending.any (·.1 == .input) then
      .error .unknownArgument
    else do
      let reading ← reading.settle
      return { reading with pending := some (.input, some argument) }

/-- Read one more argument. -/
def take (reading : Reading) (argument : String) : Except UsageError Reading :=
  if reading.escaped then reading.takePlain argument
  else
    match argument.toList with
    | ['-', '-'] => .ok { reading with escaped := true }
    | '-' :: '-' :: text => reading.takeLong text
    | ['-'] => reading.takePlain argument
    | '-' :: text => reading.takeShort text
    | _ => reading.takePlain argument

/-- The value of a parameter. -/
def value? (reading : Reading) (parameter : Parameter) : Option String :=
  List.lookup parameter reading.given

def has (reading : Reading) (parameter : Parameter) : Bool :=
  (reading.value? parameter).isSome

end Reading

/-- What the command line asks for. -/
structure Invocation where
  input : String
  output : Option String
  style : Option Style
  dialect : Option Dialect
  loadPaths : List String
  lineComments : Bool
  noCache : Bool
  cacheLocation : Option String
  /-- Write the stylesheet in this dialect, instead of what it compiles to. -/
  convertTo : Option Dialect
  config : Option String
  logLevel : String
deriving Repr, DecidableEq

/-- Read the arguments. -/
def Invocation.read (arguments : List String) : Except UsageError Invocation := do
  let reading ← arguments.foldlM Reading.take .initial
  let reading ← reading.settle
  match reading.value? .input with
  | none => .error .missingInput
  | some input =>
    return {
      input
      output := reading.value? .output
      style := (reading.value? .style).bind Style.ofName?
      dialect := (reading.value? .dialect).bind Dialect.ofName?
      loadPaths := (reading.given.filter (·.1 == .loadPath)).map (·.2)
      lineComments := reading.has .lineComments
      noCache := reading.has .noCache
      cacheLocation := reading.value? .cacheLocation
      convertTo := (reading.value? .convertTo).bind Dialect.ofName?
      config := reading.value? .config
      logLevel := (reading.value? .logLevel).getD "warn" }

end Stylesheet.Cli
