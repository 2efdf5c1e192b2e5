import EventCamera.Event
import EventCamera.Settings

/-! # The command line

The arguments name the recording to replay, the table to write, and options. They are read from
left to right, and the first fault ends the reading; so does a question for the version or for
help. -/

namespace EventCamera

/-- The devices whose recordings can be replayed. -/
inductive CameraModel where
  | dvs128
  | dvxplorer
  deriving DecidableEq, Repr

/-- A replay that was asked for. -/
structure Command where
  input : String
  /-- Where the table of polarity events goes. -/
  output : String
  model : CameraModel := .dvxplorer
  special? : Option String := none
  imu6? : Option String := none
  settings : Settings := {}
  /-- The pixel array, if it is not the usual one. -/
  array? : Option Geometry := none
  quiet : Bool := false
  verbose : Bool := false

/-- What the arguments ask for. -/
inductive Request where
  | replay (command : Command)
  | version
  | help

/-- Options that take a value. -/
inductive Parameter where
  | device
  | special
  | imu
  | maxEvents
  | maxInterval
  | queueCapacity
  | chunkSize
  | width
  | height
  deriving DecidableEq, Repr

/-- Options without a value. -/
inductive Switch where
  | quiet
  | verbose
  | version
  | help
  deriving DecidableEq, Repr

namespace Parameter

/-- The name of a parameter, behind two dashes. -/
def name : Parameter → String
  | device => "device"
  | special => "special"
  | imu => "imu"
  | maxEvents => "max-events"
  | maxInterval => "max-interval"
  | queueCapacity => "queue-capacity"
  | chunkSize => "chunk-size"
  | width => "width"
  | height => "height"

/-- The letter of a parameter, behind one dash. -/
def letter? : Parameter → Option Char
  | device => some 'd'
  | special => some 's'
  | _ => none

def all : List Parameter :=
  [device, special, imu, maxEvents, maxInterval, queueCapacity, chunkSize, width, height]

end Parameter

namespace Switch

/-- The name of a switch, behind two dashes. -/
def name : Switch → String
  | quiet => "quiet"
  | verbose => "verbose"
  | version => "version"
  | help => "help"

/-- The letter of a switch, behind one dash. -/
def letter : Switch → Char
  | quiet => 'q'
  | verbose => 'v'
  | version => 'V'
  | help => 'h'

def all : List Switch := [quiet, verbose, version, help]

end Switch

/-- What is wrong with the arguments. -/
inductive UsageError where
  | unexpected (argument : String)
  | valueMissing (parameter : Parameter)
  | valueInvalid (parameter : Parameter) (value : String)
  | valueUnexpected (switch : Switch)
  | repeated (name : String)
  | argumentMissing (name : String)
  /-- One of two parameters was given that belong together. -/
  | incomplete (given needed : Parameter)
  deriving DecidableEq, Repr

def UsageError.message : UsageError → String
  | .unexpected argument => s!"unexpected argument '{argument}' found"
  | .valueMissing p => s!"a value is required for '--{p.name}' but none was supplied"
  | .valueInvalid p value => s!"invalid value '{value}' for '--{p.name}'"
  | .valueUnexpected s => s!"unexpected value for '--{s.name}' found"
  | .repeated name => s!"the argument '{name}' cannot be used multiple times"
  | .argumentMissing name => s!"the required argument '<{name}>' was not provided"
  | .incomplete given needed => s!"'--{given.name}' requires '--{needed.name}'"

namespace CommandLine

/-! ## Values -/

/-- The number that decimal digits stand for. There must be one digit at least. -/
def digits? (cs : List Char) : Option Nat :=
  if cs ≠ [] ∧ cs.all Char.isDigit then
    some (cs.foldl (fun n c => 10 * n + (c.toNat - '0'.toNat)) 0)
  else
    none

/-- A count of up to 64 bits. A plus sign may stand before it. -/
def count? (text : String) : Option Nat :=
  let number? := match text.toList with
    | '+' :: cs => digits? cs
    | cs => digits? cs
  number?.filter (· < 0x10000000000000000)

/-- A number between two bounds. A sign may stand before it. -/
def integer? (least greatest : Int) (text : String) : Option Int :=
  let number? : Option Int := match text.toList with
    | '+' :: cs => (digits? cs).map Int.ofNat
    | '-' :: cs => (digits? cs).map fun n => -(n : Int)
    | cs => (digits? cs).map Int.ofNat
  number?.filter fun i => least ≤ i ∧ i ≤ greatest

def pixels? (text : String) : Option UInt16 :=
  (integer? 0 0xffff text).map fun i => .ofNat i.toNat

/-- A path, which must not be empty. -/
def path? (text : String) : Option String :=
  if text.isEmpty then none else some text

def model? (text : String) : Option CameraModel :=
  if text = "dvs128" then some .dvs128
  else if text = "dvxplorer" then some .dvxplorer
  else none

/-! ## Arguments -/

/-- What has been given so far. -/
structure Draft where
  input? : Option String := none
  output? : Option String := none
  model? : Option CameraModel := none
  special? : Option String := none
  imu6? : Option String := none
  maxEvents? : Option Nat := none
  maxInterval? : Option Int := none
  queueCapacity? : Option Nat := none
  chunkSize? : Option Nat := none
  width? : Option UInt16 := none
  height? : Option UInt16 := none
  quiet : Bool := false
  verbose : Bool := false

/-- Why the reading of the arguments ends early. -/
inductive Halt where
  | fault (error : UsageError)
  | version
  | help
  deriving DecidableEq, Repr

/-- Reads the value of a parameter that was not given before. -/
def once {α : Type} (p : Parameter) (value : String) (given : Option α)
    (read : String → Option α) : Except Halt (Option α) :=
  if given.isSome then .error (.fault (.repeated ("--" ++ p.name)))
  else
    match read value with
    | some a => .ok (some a)
    | none => .error (.fault (.valueInvalid p value))

namespace Draft

def set (d : Draft) (p : Parameter) (value : String) : Except Halt Draft :=
  match p with
  | .device => return { d with model? := ← once p value d.model? CommandLine.model? }
  | .special => return { d with special? := ← once p value d.special? path? }
  | .imu => return { d with imu6? := ← once p value d.imu6? path? }
  | .maxEvents => return { d with maxEvents? := ← once p value d.maxEvents? count? }
  | .maxInterval =>
    let bounded := integer? (-0x80000000) 0x7fffffff
    return { d with maxInterval? := ← once p value d.maxInterval? bounded }
  | .queueCapacity => return { d with queueCapacity? := ← once p value d.queueCapacity? count? }
  | .chunkSize => return { d with chunkSize? := ← once p value d.chunkSize? count? }
  | .width => return { d with width? := ← once p value d.width? pixels? }
  | .height => return { d with height? := ← once p value d.height? pixels? }

def turnOn (d : Draft) (s : Switch) : Except Halt Draft :=
  let repeated := Halt.fault (.repeated ("--" ++ s.name))
  match s with
  | .quiet => if d.quiet then .error repeated else .ok { d with quiet := true }
  | .verbose => if d.verbose then .error repeated else .ok { d with verbose := true }
  | .version => .error .version
  | .help => .error .help

/-- Takes an argument that is no option: first the input, then the output. -/
def add (d : Draft) (argument : String) : Except Halt Draft :=
  if d.output?.isSome then .error (.fault (.unexpected argument))
  else
    match path? argument, d.input? with
    | none, _ => .error (.fault (.argumentMissing "PATH"))
    | some path, none => .ok { d with input? := some path }
    | some path, some _ => .ok { d with output? := some path }

/-- The size of the pixel array; either both sides are given or none. -/
def array? (d : Draft) : Except UsageError (Option Geometry) :=
  match d.width?, d.height? with
  | some width, some height => .ok (some ⟨width, height⟩)
  | none, none => .ok none
  | some _, none => .error (.incomplete .width .height)
  | none, some _ => .error (.incomplete .height .width)

/-- The replay that was asked for, once all arguments are read. -/
def command (d : Draft) : Except UsageError Command := do
  let some input := d.input? | .error (.argumentMissing "INPUT")
  let some output := d.output? | .error (.argumentMissing "OUTPUT")
  let array? ← d.array?
  let usual : Settings := {}
  return {
    input, output, array?
    model := d.model?.getD .dvxplorer
    special? := d.special?
    imu6? := d.imu6?
    settings := { usual with
      maxEvents := d.maxEvents?.getD usual.maxEvents
      maxInterval := d.maxInterval?.getD usual.maxInterval
      queueCapacity := d.queueCapacity?.getD usual.queueCapacity
      transferSize := d.chunkSize?.getD usual.transferSize }
    quiet := d.quiet
    verbose := d.verbose }

end Draft

/-- Whether an argument looks like an option. A single dash does not. -/
def isOption (argument : String) : Bool :=
  match argument.toList with
  | '-' :: _ :: _ => true
  | _ => false

/-- A value behind an equals sign, or without one. -/
def attached : List Char → String
  | '=' :: cs => .ofList cs
  | cs => .ofList cs

/-- Reads an option given by its name, with the value attached to it if there is one. Names the
parameter whose value is still to come. -/
def readName (cs : List Char) (d : Draft) : Except Halt (Draft × Option Parameter) :=
  let name : String := .ofList (cs.takeWhile (· ≠ '='))
  let rest := cs.dropWhile (· ≠ '=')
  match Parameter.all.find? (·.name = name), Switch.all.find? (·.name = name) with
  | some p, _ =>
    if rest.isEmpty then .ok (d, some p) else (d.set p (attached rest)).map (·, none)
  | none, some s =>
    if rest.isEmpty then (d.turnOn s).map (·, none) else .error (.fault (.valueUnexpected s))
  | none, none => .error (.fault (.unexpected ("--" ++ .ofList cs)))

/-- Reads options given by their letters. What follows the letter of a parameter is its value. -/
def readLetters : List Char → Draft → Except Halt (Draft × Option Parameter)
  | [], d => .ok (d, none)
  | c :: cs, d =>
    match Parameter.all.find? (·.letter? = some c), Switch.all.find? (·.letter = c) with
    | some p, _ => if cs.isEmpty then .ok (d, some p) else (d.set p (attached cs)).map (·, none)
    | none, some s => d.turnOn s >>= readLetters cs
    | none, none => .error (.fault (.unexpected ("-" ++ .ofList [c])))

/-- Reads the arguments, knowing the parameter whose value comes next. Behind two dashes nothing is
an option. -/
def read (expected : Option Parameter) : List String → Draft → Except Halt Draft
  | [], d =>
    match expected with
    | some p => .error (.fault (.valueMissing p))
    | none => .ok d
  | argument :: rest, d =>
    match expected with
    | some p =>
      if isOption argument then .error (.fault (.valueMissing p))
      else d.set p argument >>= read none rest
    | none =>
      match argument.toList with
      | ['-', '-'] => rest.foldlM Draft.add d
      | '-' :: '-' :: cs => readName cs d >>= fun (d, expected) => read expected rest d
      | '-' :: c :: cs => readLetters (c :: cs) d >>= fun (d, expected) => read expected rest d
      | _ => d.add argument >>= read none rest

def request (arguments : List String) : Except UsageError Request :=
  match read none arguments {} with
  | .ok d => d.command.map .replay
  | .error .version => .ok .version
  | .error .help => .ok .help
  | .error (.fault e) => .error e

end CommandLine

end EventCamera
