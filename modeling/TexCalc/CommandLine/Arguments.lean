import TexCalc.Options
import TexCalc.Json.Options

/-!
# Arguments of the command line

Arguments are read from left to right.  A switch may be given once; some switches take a
value, attached with `=`, attached to the letter of a short switch, or as the next
argument, which then must not look like a switch itself.  Short switches without a value
can be written together.  After `--` every argument is an expression.  The first mistake,
or the first request for help or the version, ends the reading.
-/

namespace TexCalc.CommandLine

/-- What a run of the program is asked to do. -/
structure Request where
  expressions : List String := []
  /-- The file to read expressions from when none is given. -/
  input? : Option String := none
  output? : Option String := none
  lenient : Bool := false
  sign? : Option Sign := none
  logBase? : Option LogBase := none
  json : Bool := false
  verbose : Bool := false
  deriving DecidableEq, Repr

namespace Request

/-- The options that the request asks for. -/
def options (request : Request) : Options where
  strict := !request.lenient
  plusMinus := request.sign?.getD .plus
  logBase := request.logBase?.getD .common

end Request

/-- What the arguments amount to. -/
inductive Invocation where
  | run (request : Request)
  | help
  | version
  | misuse (message : String)
  deriving DecidableEq, Repr

/-- The switches of the program. -/
inductive Switch where
  | input
  | output
  | lenient
  | sign
  | logBase
  | json
  | verbose
  | help
  | version
  deriving DecidableEq, Repr

namespace Switch

def all : List Switch :=
  [input, output, lenient, sign, logBase, json, verbose, help, version]

def longName : Switch → String
  | input => "input"
  | output => "output"
  | lenient => "lenient"
  | sign => "pm"
  | logBase => "log-base"
  | json => "json"
  | verbose => "verbose"
  | help => "help"
  | version => "version"

def letter? : Switch → Option Char
  | input => some 'i'
  | output => some 'o'
  | verbose => some 'v'
  | help => some 'h'
  | version => some 'V'
  | lenient | sign | logBase | json => none

def takesValue : Switch → Bool
  | input | output | sign | logBase => true
  | lenient | json | verbose | help | version => false

def ofLongName? (name : String) : Option Switch :=
  all.find? (·.longName == name)

def ofLetter? (letter : Char) : Option Switch :=
  all.find? (·.letter? == some letter)

/-- How a switch is referred to in a message. -/
def display (switch : Switch) : String :=
  "--" ++ switch.longName

end Switch

/-- The request with a switch set that takes no value, unless it is set already. -/
def Request.set? (request : Request) : Switch → Option Request
  | .lenient => if request.lenient then none else some { request with lenient := true }
  | .json => if request.json then none else some { request with json := true }
  | .verbose => if request.verbose then none else some { request with verbose := true }
  | _ => none

/-- The request with a switch set to a value, unless it is set already or cannot have
that value. -/
def Request.assign? (request : Request) (switch : Switch) (value : String) :
    Option Request :=
  match switch with
  | .input =>
      if request.input?.isSome then none else some { request with input? := some value }
  | .output =>
      if request.output?.isSome then none else some { request with output? := some value }
  | .sign =>
      if request.sign?.isSome then none
      else (Sign.ofName? value).map fun sign => { request with sign? := some sign }
  | .logBase =>
      if request.logBase?.isSome then none
      else (LogBase.ofName? value).map fun base => { request with logBase? := some base }
  | _ => none

/-- The forms of an argument. -/
inductive Form where
  /-- `--`, after which there are no switches any more. -/
  | terminator
  /-- A long switch, with the value attached to it. -/
  | long (name : String) (value? : Option String)
  /-- The letters after a single dash, and what may be attached to them. -/
  | short (letters : Text)
  | expression
  deriving DecidableEq, Repr

namespace Form

/-- The form of an argument.  A lone dash is an expression. -/
def ofArgument (argument : String) : Form :=
  match argument.toList with
  | ['-', '-'] => terminator
  | '-' :: '-' :: text =>
      let name : Text := text.takeWhile (· != '=')
      match text.dropWhile (· != '=') with
      | [] => long (String.ofList name) none
      | _ :: value => long (String.ofList name) (some (String.ofList value))
  | '-' :: c :: text => short (c :: text)
  | _ => expression

/-- Whether an argument cannot be the value of the switch before it. -/
def isValue (argument : String) : Bool :=
  ofArgument argument = expression

end Form

/-- How reading goes on after an argument. -/
inductive Step where
  | proceed (request : Request)
  /-- The switch takes the next argument as its value. -/
  | await (request : Request) (switch : Switch)
  | stop (invocation : Invocation)
  deriving DecidableEq, Repr

namespace Step

/-- Set a switch to a value. -/
def assign (request : Request) (switch : Switch) (value : String) : Step :=
  match request.assign? switch value with
  | some request => proceed request
  | none => stop (.misuse ("invalid or repeated value for '" ++ switch.display ++ "'"))

/-- Set a switch that takes no value. -/
def set (request : Request) (switch : Switch) : Step :=
  match switch with
  | .help => stop .help
  | .version => stop .version
  | switch =>
      match request.set? switch with
      | some request => proceed request
      | none =>
          stop (.misuse ("the argument '" ++ switch.display ++ "' cannot be used twice"))

/-- Read a long switch. -/
def ofLong (request : Request) (name : String) (value? : Option String) : Step :=
  match Switch.ofLongName? name with
  | none => stop (.misuse ("unexpected argument '--" ++ name ++ "'"))
  | some switch =>
      match switch.takesValue, value? with
      | true, some value => assign request switch value
      | true, none => await request switch
      | false, some _ =>
          stop (.misuse ("unexpected value for '" ++ switch.display ++ "'"))
      | false, none => set request switch

/-- Read the letters after a single dash.  What follows the letter of a switch with a
value is its value, with or without a `=` in front. -/
def ofShort (request : Request) : (letters : Text) → Step
  | [] => proceed request
  | letter :: rest =>
      match Switch.ofLetter? letter with
      | none => stop (.misuse ("unexpected argument '-" ++ String.singleton letter ++ "'"))
      | some switch =>
          if switch.takesValue then
            match rest with
            | [] => await request switch
            | '=' :: value => assign request switch (String.ofList value)
            | value => assign request switch (String.ofList value)
          else
            match set request switch with
            | proceed request => ofShort request rest
            | other => other

/-- Read one argument. -/
def ofArgument (request : Request) (argument : String) : Step :=
  match Form.ofArgument argument with
  | .long name value? => ofLong request name value?
  | .short letters => ofShort request letters
  | .terminator | .expression =>
      proceed { request with expressions := request.expressions ++ [argument] }

end Step

namespace Invocation

/-- What the remaining arguments make of a request, when `switch?` waits for its
value. -/
def ofRemaining (request : Request) (switch? : Option Switch) : List String → Invocation
  | [] =>
      match switch? with
      | some switch => misuse ("a value is required for '" ++ switch.display ++ "'")
      | none => run request
  | argument :: rest =>
      let step : Step :=
        match switch? with
        | some switch =>
            if Form.isValue argument then Step.assign request switch argument
            else .stop (misuse ("a value is required for '" ++ switch.display ++ "'"))
        | none => Step.ofArgument request argument
      if switch?.isNone && Form.ofArgument argument == .terminator then
        run { request with expressions := request.expressions ++ rest }
      else
        match step with
        | .proceed request => ofRemaining request none rest
        | .await request switch => ofRemaining request (some switch) rest
        | .stop invocation => invocation

/-- What the arguments of the program amount to. -/
def ofArguments (arguments : List String) : Invocation :=
  ofRemaining {} none arguments

end Invocation

end TexCalc.CommandLine
