import TemplateReader.Data.Notation
import TemplateReader.Template.Document

/-!
# Command-line arguments

There are two commands: one reads templates, the other evaluates a data
literal. Arguments are taken from left to right, and the first that asks for
help or breaks a rule decides. Every option may be given once, except the one
for verbosity. After two hyphens every argument is an operand.
-/

namespace TemplateReader

/-- What is asked of the command that reads templates. -/
structure TokenizeRequest where
  /-- The template or directory to read. -/
  path : Option String
  /-- Whether the template comes from standard input, whatever the path. -/
  fromInput : Bool
  /-- How the result is written. -/
  layout : Value.Layout
  /-- Whether only the summary is written. -/
  summary : Bool
  /-- How deep elements may be nested. -/
  limit : Nat
deriving DecidableEq, Repr

/-- What is asked of the command that evaluates a literal. -/
structure EvaluateRequest where
  /-- The literal. -/
  literal : String
  /-- The file of the table that names are looked up in. -/
  references : Option String
  /-- How the value is written. -/
  layout : Value.Layout
deriving DecidableEq, Repr

/-- What a command line amounts to. -/
inductive Invocation where
  /-- Templates are to be read. -/
  | tokenize (request : TokenizeRequest)
  /-- A literal is to be evaluated. -/
  | evaluate (request : EvaluateRequest)
  /-- Help is asked for. -/
  | help
  /-- The arguments make no sense. -/
  | misuse
deriving DecidableEq, Repr

/-- The options and operands that a command takes. -/
structure OptionTable where
  /-- The options without a value. -/
  switches : List String
  /-- The options with a value. -/
  valued : List String
  /-- Whether an option may have a value. -/
  acceptsValue : String → Bool
  /-- Whether the one operand may be this. -/
  acceptsOperand : String → Bool

/-- The arguments of a command, sorted. -/
structure GivenOptions where
  /-- The options without a value that were given. -/
  switches : List String
  /-- The options with a value that were given. -/
  values : List (String × String)
  /-- The operand, if one was given. -/
  operand : Option String
deriving DecidableEq, Repr

/-- What comes of reading arguments. -/
inductive ArgumentReading (α : Type) where
  /-- They make sense. -/
  | ok (result : α)
  /-- Help is asked for. -/
  | help
  /-- They make no sense. -/
  | misuse
deriving DecidableEq, Repr

/-- The kinds of arguments by how they begin. -/
inductive ArgumentShape where
  /-- Two hyphens alone. -/
  | separator
  /-- Two hyphens and a name, possibly with an equals sign and a value. -/
  | long (name : String) (value : Option String)
  /-- A hyphen and letters. -/
  | short (letters : List Char)
  /-- Anything else, a hyphen alone included. -/
  | operand
deriving DecidableEq, Repr

/-- The shape of an argument. -/
def argumentShape (argument : String) : ArgumentShape :=
  match argument.toList with
  | ['-', '-'] => .separator
  | '-' :: '-' :: text =>
    let value :=
      match text.dropWhile (· != '=') with
      | _ :: value => some (String.ofList value)
      | [] => none
    .long (String.ofList (text.takeWhile (· != '='))) value
  | ['-'] => .operand
  | '-' :: letters => .short letters
  | _ => .operand

/-- Reads letters behind one hyphen: `v` raises the verbosity, `h` asks for help. -/
def readLetters : List Char → ArgumentReading Unit
  | [] => .ok ()
  | 'v' :: letters => readLetters letters
  | 'h' :: _ => .help
  | _ => .misuse

/-- Reads a long option that every command takes, and tells other options by nothing. -/
def readCommon? (name : String) (value : Option String) : Option (ArgumentReading Unit) :=
  if name = "help" then some (if value.isSome then .misuse else .help)
  else if name = "verbose" then some (if value.isSome then .misuse else .ok ())
  else none

namespace GivenOptions

/-- Nothing given. -/
def none : GivenOptions := ⟨[], [], .none⟩

/-- Adds an operand, if the table accepts it and there is none yet. -/
def addOperand? (table : OptionTable) (given : GivenOptions) (operand : String) :
    Option GivenOptions :=
  if given.operand.isNone && table.acceptsOperand operand then
    some { given with operand := some operand }
  else .none

/-- Adds an option without a value, unless it was given before. -/
def addSwitch? (table : OptionTable) (given : GivenOptions) (name : String) :
    Option GivenOptions :=
  if table.switches.contains name && !given.switches.contains name then
    some { given with switches := name :: given.switches }
  else .none

/-- Adds an option with its value, unless it was given before. -/
def addValue? (table : OptionTable) (given : GivenOptions) (name value : String) :
    Option GivenOptions :=
  if table.valued.contains name && given.values.all (fun v => v.1 != name) &&
      table.acceptsValue value then
    some { given with values := (name, value) :: given.values }
  else .none

/-- The value of an option. -/
def value? (given : GivenOptions) (name : String) : Option String :=
  (given.values.find? fun v => v.1 = name).map Prod.snd

/-- The layout that the options ask for. -/
def layout (given : GivenOptions) : Value.Layout :=
  if given.switches.contains "pretty" then .indented else .compact

end GivenOptions

/-- Takes all arguments as operands. -/
def readOperands (table : OptionTable) (given : GivenOptions) :
    List String → ArgumentReading GivenOptions
  | [] => .ok given
  | argument :: arguments =>
    match given.addOperand? table argument with
    | some given => readOperands table given arguments
    | none => .misuse

/-- Reads the arguments of a command. -/
def readOptions (table : OptionTable) (given : GivenOptions) :
    List String → ArgumentReading GivenOptions
  | [] => .ok given
  | argument :: arguments =>
    match argumentShape argument with
    | .separator => readOperands table given arguments
    | .operand =>
      match given.addOperand? table argument with
      | some given => readOptions table given arguments
      | none => .misuse
    | .short letters =>
      match readLetters letters with
      | .ok () => readOptions table given arguments
      | .help => .help
      | .misuse => .misuse
    | .long name value =>
      match readCommon? name value with
      | some (.ok ()) => readOptions table given arguments
      | some .help => .help
      | some .misuse => .misuse
      | none =>
        match value with
        | some value =>
          match given.addValue? table name value with
          | some given => readOptions table given arguments
          | none => .misuse
        | none =>
          if table.valued.contains name then
            match arguments with
            | [] => .misuse
            | value :: arguments =>
              if argumentShape value = .operand then
                match given.addValue? table name value with
                | some given => readOptions table given arguments
                | none => .misuse
              else .misuse
          else
            match given.addSwitch? table name with
            | some given => readOptions table given arguments
            | none => .misuse

/-- Reads a nesting limit: digits, possibly behind a plus sign, of a number within 64 bits. -/
def readLimit? (text : String) : Option Nat :=
  let digits :=
    match text.toList with
    | '+' :: digits => digits
    | digits => digits
  if !digits.isEmpty && digits.all Char.isDigit && natOfDigits digits < Nat.pow 2 64 then
    some (natOfDigits digits)
  else none

/-- What the command that reads templates takes. -/
def tokenizeTable : OptionTable where
  switches := ["stdin", "pretty", "summary"]
  valued := ["max-depth"]
  acceptsValue := fun value => (readLimit? value).isSome
  acceptsOperand := fun path => !path.isEmpty

/-- What the command that evaluates a literal takes. -/
def evaluateTable : OptionTable where
  switches := ["pretty"]
  valued := ["refs"]
  acceptsValue := fun path => !path.isEmpty
  acceptsOperand := fun _ => true

/-- The request to read templates, which needs a path or standard input. -/
def tokenizeInvocation (given : GivenOptions) : Invocation :=
  let fromInput := given.switches.contains "stdin"
  if fromInput || given.operand.isSome then
    .tokenize
      { path := given.operand
        fromInput
        layout := given.layout
        summary := given.switches.contains "summary"
        limit := ((given.value? "max-depth").bind readLimit?).getD Document.defaultLimit }
  else .misuse

/-- The request to evaluate a literal, which must be given. -/
def evaluateInvocation (given : GivenOptions) : Invocation :=
  match given.operand with
  | some literal => .evaluate ⟨literal, given.value? "refs", given.layout⟩
  | none => .misuse

/-- Reads the arguments of a command and makes a request of them. -/
def commandInvocation (table : OptionTable) (invocation : GivenOptions → Invocation)
    (arguments : List String) : Invocation :=
  match readOptions table .none arguments with
  | .ok given => invocation given
  | .help => .help
  | .misuse => .misuse

/-- Reads a whole command line. -/
def readCommandLine : List String → Invocation
  | [] => .misuse
  | argument :: arguments =>
    match argumentShape argument with
    | .separator => .misuse
    | .short letters =>
      match readLetters letters with
      | .ok () => readCommandLine arguments
      | .help => .help
      | .misuse => .misuse
    | .long name value =>
      match readCommon? name value with
      | some (.ok ()) => readCommandLine arguments
      | some .help => .help
      | _ => .misuse
    | .operand =>
      if argument = "tokenize" then commandInvocation tokenizeTable tokenizeInvocation arguments
      else if argument = "data" then commandInvocation evaluateTable evaluateInvocation arguments
      else if argument = "help" then
        match arguments with
        | [] => .help
        | [command] => if ["tokenize", "data", "help"].contains command then .help else .misuse
        | _ => .misuse
      else .misuse

end TemplateReader
