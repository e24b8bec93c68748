import Handoff.Sim.Run

namespace Handoff

inductive CommandOption
  | config
  | frames
  | dumpOrder
deriving DecidableEq, Repr

inductive UsageError
  | unexpected (argument : String)
  | missing (option : CommandOption)
  | repeated (option : CommandOption)
  | refused (option : CommandOption) (value : String)
deriving DecidableEq, Repr

inductive Command
  | help
  | run (request : RunRequest)
deriving DecidableEq, Repr

namespace CommandOption

def all : List CommandOption := [config, frames, dumpOrder]

def name : CommandOption → String
  | config => "config"
  | frames => "frames"
  | dumpOrder => "dump-order"

def ofName? (s : String) : Option CommandOption := all.find? (·.name == s)

end CommandOption

def UsageError.message : UsageError → String
  | unexpected argument => "unexpected argument " ++ argument
  | missing option => "a value is required for --" ++ option.name
  | repeated option => "--" ++ option.name ++ " is given twice"
  | refused option value => "invalid value for --" ++ option.name ++ ": " ++ value

/-- An argument by its dashes. A lone dash is no option. -/
inductive ArgumentShape
  | long (name : String) (value : Option String)
  | short (letter : Char) (rest : List Char)
  | endOfOptions
  | plain
deriving DecidableEq, Repr

def ArgumentShape.of (argument : String) : ArgumentShape :=
  match argument.toList with
  | ['-', '-'] => endOfOptions
  | '-' :: '-' :: cs =>
    match cs.dropWhile (· != '=') with
    | _ :: value => long (String.ofList (cs.takeWhile (· != '='))) (some (String.ofList value))
    | [] => long (String.ofList cs) none
  | '-' :: c :: rest => short c rest
  | _ => plain

/-- What is attached to a short option, with or without an equals sign. -/
def attachedValue : List Char → Option String
  | [] => none
  | '=' :: value => some (String.ofList value)
  | value => some (String.ofList value)

structure CommandDraft where
  config : Option String
  frames : Option UInt32
  dumpOrder : Option ByteOrder
deriving DecidableEq, Repr

namespace CommandDraft

def empty : CommandDraft := ⟨none, none, none⟩

def request (d : CommandDraft) : RunRequest := ⟨d.config, d.frames, d.dumpOrder.getD .little⟩

def isGiven (d : CommandDraft) : CommandOption → Bool
  | .config => d.config.isSome
  | .frames => d.frames.isSome
  | .dumpOrder => d.dumpOrder.isSome

def path? (value : String) : Option String := if value.isEmpty then none else some value

/-- Decimal digits, with or without a sign, of a number of 32 bits. -/
def frameCount? (value : String) : Option UInt32 :=
  let (negative, digits) := signed value.toList
  if digits.isEmpty ∨ ¬digits.all isDigit then none
  else
    let n := numeral 10 digits
    if n < UInt32.size ∧ (negative → n = 0) then some (UInt32.ofNat n) else none

def order? (value : String) : Option ByteOrder :=
  match value with
  | "little" => some .little
  | "big" => some .big
  | _ => none

def put? (d : CommandDraft) (value : String) : CommandOption → Option CommandDraft
  | .config => (path? value).map fun path => { d with config := some path }
  | .frames => (frameCount? value).map fun n => { d with frames := some n }
  | .dumpOrder => (order? value).map fun o => { d with dumpOrder := some o }

/-- An option is given once at the most. -/
def put (d : CommandDraft) (option : CommandOption) (value : String) :
    Except UsageError CommandDraft :=
  if d.isGiven option then .error (.repeated option)
  else (d.put? value option).elim (.error (.refused option value)) .ok

end CommandDraft

inductive ArgumentUse
  | option (option : CommandOption) (value : Option String)
  | help
  | endOfOptions
  | unexpected
deriving DecidableEq, Repr

def ArgumentUse.of (argument : String) : ArgumentUse :=
  match ArgumentShape.of argument with
  | .long "help" none => help
  | .long name value =>
    match CommandOption.ofName? name with
    | some o => option o value
    | none => unexpected
  | .short 'h' _ => help
  | .short 'c' rest => option .config (attachedValue rest)
  | .short _ _ => unexpected
  | .endOfOptions => endOfOptions
  | .plain => unexpected

namespace Command

/-- Reads the arguments in turn; the first mistake or the first call for help decides. A value that
is not attached is the next argument, which must not look like an option. -/
def parseFrom (d : CommandDraft) : List String → Except UsageError Command
  | [] => .ok (.run d.request)
  | argument :: rest =>
    match ArgumentUse.of argument with
    | .help => .ok .help
    | .unexpected => .error (.unexpected argument)
    | .endOfOptions =>
      match rest with
      | [] => .ok (.run d.request)
      | extra :: _ => .error (.unexpected extra)
    | .option o (some value) => do parseFrom (← d.put o value) rest
    | .option o none =>
      match rest with
      | [] => .error (.missing o)
      | value :: rest =>
        if ArgumentShape.of value = .plain then do parseFrom (← d.put o value) rest
        else .error (.missing o)

def parse (arguments : List String) : Except UsageError Command := parseFrom .empty arguments

def helpText : String :=
  "Run the controller/renderer pair against simulated non-coherent caches\n\n" ++
  "Usage: tandem-sim [OPTIONS]\n\n" ++
  "Options:\n" ++
  "  -c, --config <PATH>            Configuration file (defaults to the embedded viewer.toml)\n" ++
  "      --frames <N>               Stop after this many frames " ++
  "instead of the configured count\n" ++
  "      --dump-order <DUMP_ORDER>  Byte order of the control block dump printed at exit " ++
  "[default: little] [possible values: little, big]\n" ++
  "  -h, --help                     Print help\n"

def execute (files : Config.Files) : Command → Transcript
  | help => ⟨0, helpText, []⟩
  | run request => request.execute files

end Command

def execute (files : Config.Files) (arguments : List String) : Transcript :=
  match Command.parse arguments with
  | .ok command => command.execute files
  | .error _ => ⟨2, "", []⟩

end Handoff
