import ByteAsm.Text.Digit
import ByteAsm.Text.Quoted

/-! The arguments of the command line and what they ask for. -/
namespace ByteAsm.CommandLine

open Text

inductive UsageError
  /-- The option for the output has no argument. -/
  | expectedArgument
  /-- An argument on the option for help. -/
  | ignoredArgument (text : List Char)
  /-- The beginning of more than one option. -/
  | ambiguous (arg : String)
  | unrecognized (args : List String)
  deriving DecidableEq, Repr

def UsageError.message : UsageError → String
  | expectedArgument => "argument -o/--output: expected one argument"
  | ignoredArgument text => s!"argument -h/--help: ignored explicit argument {quoted text}"
  | ambiguous arg => s!"ambiguous option: {arg} could match --help, --output"
  | unrecognized args => "unrecognized arguments: " ++ " ".intercalate args

/-- What the arguments ask for. -/
inductive Request
  | help
  | assemble (inputs : List String) (output : String)
  | refuse (e : UsageError)
  deriving DecidableEq, Repr

inductive Token
  | value (arg : String)
  /-- The sign `--`, behind which no argument is an option. -/
  | divider
  | help
  /-- An argument attached to the option for help. -/
  | helpWith (text : List Char)
  /-- The option for help with the one for the output in the same argument. -/
  | helpAndOutput
  | output (attached : Option String)
  | unknown (arg : String)
  deriving DecidableEq, Repr

/-- A negative number, which is a value although it starts with a dash. It may have a line end
behind it. -/
def isNumber (text : List Char) : Bool :=
  match text.takeWhile isDigit, text.dropWhile isDigit with
  | _, '.' :: rest => rest.takeWhile isDigit ≠ [] && atEnd (rest.dropWhile isDigit)
  | digits, rest => digits ≠ [] && atEnd rest
where
  atEnd (rest : List Char) : Bool := rest = [] || rest = ['\n']

/-- The letters behind `-h` are options of their own. -/
def helpCluster : List Char → Token
  | [] => .help
  | 'h' :: rest => helpCluster rest
  | ['o'] => .helpAndOutput
  | 'o' :: _ => .help
  | text => .helpWith text

def shortToken (arg : String) : List Char → Token
  | ['h'] => .help
  | ['h', '='] => .helpWith []
  | 'h' :: '=' :: text => helpCluster text
  | 'h' :: text => helpCluster text
  | ['o'] => .output none
  | 'o' :: '=' :: text => .output (some (String.ofList text))
  | 'o' :: text => .output (some (String.ofList text))
  | body => if isNumber body || ' ' ∈ body then .value arg else .unknown arg

/-- An argument that starts with two dashes: the beginning of a long option, and perhaps an
equals sign and an argument. -/
def longToken (arg : String) (body : List Char) : Except UsageError Token :=
  let word := body.takeWhile (· ≠ '=')
  let attached := (body.dropWhile (· ≠ '=')).tail?
  match word.isPrefixOf ['h', 'e', 'l', 'p'], word.isPrefixOf ['o', 'u', 't', 'p', 'u', 't'] with
  | true, true => .error (.ambiguous arg)
  | true, false =>
    match attached with
    | none => .ok .help
    | some text => .ok (.helpWith text)
  | false, true => .ok (.output (attached.map String.ofList))
  | false, false => .ok (if ' ' ∈ body then .value arg else .unknown arg)

def token (arg : String) : Except UsageError Token :=
  match arg.toList with
  | '-' :: '-' :: body => longToken arg body
  | '-' :: c :: body => .ok (shortToken arg (c :: body))
  | _ => .ok (.value arg)

/-- The arguments one by one. All of them are values behind the first divider. -/
def tokens : List String → Except UsageError (List Token)
  | [] => .ok []
  | "--" :: args => .ok (.divider :: args.map .value)
  | arg :: args =>
    match token arg with
    | .error e => .error e
    | .ok t =>
      match tokens args with
      | .error e => .error e
      | .ok ts => .ok (t :: ts)

/-- Where the first stretch of values is. The inputs are taken from it alone. -/
inductive Stretch
  | ahead
  | here
  | past
  deriving DecidableEq, Repr

def Stretch.atValue : Stretch → Stretch
  | ahead | here => here
  | past => past

def Stretch.atOption : Stretch → Stretch
  | ahead => ahead
  | here | past => past

structure Gathered where
  inputs : List String := []
  output : String := "out.bin"
  extras : List String := []
  deriving DecidableEq, Repr

def Gathered.addValue (g : Gathered) (arg : String) : Stretch → Gathered
  | .past => { g with extras := g.extras ++ [arg] }
  | _ => { g with inputs := g.inputs ++ [arg] }

/-- A divider among the inputs is dropped. -/
def Gathered.request (g : Gathered) : Request :=
  if g.extras = [] then .assemble (g.inputs.erase "--") g.output
  else .refuse (.unrecognized g.extras)

/-- Go through the arguments. The request for help and a bad option end the reading at once. -/
def Request.gather (stretch : Stretch) (g : Gathered) : List Token → Request
  | [] => g.request
  | .value arg :: rest => gather stretch.atValue (g.addValue arg stretch) rest
  | .divider :: rest => gather stretch.atValue (g.addValue "--" stretch) rest
  | .unknown arg :: rest => gather stretch.atOption { g with extras := g.extras ++ [arg] } rest
  | .output (some text) :: rest => gather stretch.atOption { g with output := text } rest
  | .output none :: .value arg :: rest => gather stretch.atOption { g with output := arg } rest
  | .output none :: _ => .refuse .expectedArgument
  | .helpAndOutput :: .value _ :: _ => .help
  | .helpAndOutput :: _ => .refuse .expectedArgument
  | .helpWith text :: _ => .refuse (.ignoredArgument text)
  | .help :: _ => .help

def Request.ofArguments (args : List String) : Request :=
  match tokens args with
  | .error e => .refuse e
  | .ok ts => gather .ahead {} ts

end ByteAsm.CommandLine
