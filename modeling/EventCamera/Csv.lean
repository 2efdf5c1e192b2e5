import EventCamera.Container
import EventCamera.Writer

/-! # Tables of events

The events of a kind as a table of comma-separated values: a line that names the columns, and a
line for every event. The last column is the full time. Frames have no table. -/

namespace EventCamera

/-- The tables that are written, each by a writer of its own. -/
structure Csv where
  writers : PerKind fun _ => Option Writer
  counts : PerKind fun _ => Nat

namespace Csv

def columns : EventKind → List String
  | .special => ["type", "data", "timestamp"]
  | .polarity => ["x", "y", "polarity", "timestamp"]
  | .frame => []
  | .imu6 =>
    ["accel_x", "accel_y", "accel_z", "gyro_x", "gyro_y", "gyro_z", "temperature", "timestamp"]

/-- The size of the pixel array, as a line of its own. -/
def geometryLine (g : Geometry) : Fragments :=
  "%geometry:" :: Fragments.ofNat g.width.toNat ++ "," :: Fragments.ofNat g.height.toNat ++ ["\n"]

def headerLine (k : EventKind) : Fragments :=
  [",".intercalate (columns k) ++ "\n"]

def header (geometry : Option Geometry) (k : EventKind) : Fragments :=
  match k, geometry with
  | .polarity, some g => geometryLine g ++ headerLine k
  | _, _ => headerLine k

/-- The values of an event in the order of the columns. -/
def cells (epoch : Int) : (k : EventKind) → k.Record → List Fragments
  | .special, e =>
    [.ofNat (SpecialEvent.kind e).code, .ofNat e.data.toNat, .ofInt (fullTime epoch e.time)]
  | .polarity, e =>
    [.ofNat (PolarityEvent.x e).toNat, .ofNat e.y.toNat, .ofNat e.on.toNat,
      .ofInt (fullTime epoch e.time)]
  | .frame, _ => []
  | .imu6, e =>
    [.ofFloat32 (Imu6Event.accelX e), .ofFloat32 e.accelY, .ofFloat32 e.accelZ, .ofFloat32 e.gyroX,
      .ofFloat32 e.gyroY, .ofFloat32 e.gyroZ, .ofFloat32 e.temperature,
      .ofInt (fullTime epoch e.time)]

def line (cells : List Fragments) : Fragments :=
  (cells.intersperse [","]).flatten ++ ["\n"]

def lines {k : EventKind} (b : Buffer k) : Fragments :=
  b.events.toList.flatMap fun event => line (cells b.epoch k event)

/-- The kinds that have a table, in the order in which the tables are written. -/
def kinds : List EventKind := [.polarity, .special, .imu6]

/-- Opens a table for each kind that has a sink. The headers only wait to be written, so this
cannot fail. -/
def start (geometry : Option Geometry) (sinks : PerKind fun _ => Option Sink) : Csv where
  writers := sinks.map fun k sink? =>
    sink?.map fun sink => (({ sink } : Writer).putAll (header geometry k)).2
  counts := .of fun _ => 0

/-- Changes the writer of a kind, if there is one. -/
def withWriter (c : Csv) (k : EventKind) (f : Writer → Option StorageError × Writer) :
    Option StorageError × Csv :=
  let (failure?, writers) := c.writers.update k fun
    | some w => let (failure?, w) := f w; (failure?, some w)
    | none => (none, none)
  (failure?, { c with writers })

/-- Does something to one table after the other, up to the first failure. -/
def forEachTable (f : EventKind → Csv → Option StorageError × Csv) :
    List EventKind → Csv → Option StorageError × Csv
  | [], c => (none, c)
  | k :: rest, c =>
    match f k c with
    | (none, c) => forEachTable f rest c
    | failed => failed

/-- Writes the events that a container has of a kind. They are counted once all are written. -/
def writeKind (container : Container) (k : EventKind) (c : Csv) : Option StorageError × Csv :=
  match container.buffer? k with
  | none => (none, c)
  | some b =>
    match c.withWriter k fun w => w.putAll (lines b) with
    | (none, c) =>
      let written := if (c.writers.get k).isSome then b.size else 0
      (none, { c with counts := c.counts.modify k (· + written) })
    | failed => failed

/-- Writes the events of a container. Events of kinds without a table are left out. -/
def write (c : Csv) (container : Container) : Option StorageError × Csv :=
  forEachTable (writeKind container) kinds c

/-- Writes the lines of a table that still wait. -/
def flushKind (k : EventKind) (c : Csv) : Option StorageError × Csv :=
  c.withWriter k Writer.flush

def flush (c : Csv) : Option StorageError × Csv :=
  forEachTable flushKind kinds c

def takeText (c : Csv) (k : EventKind) : String × Csv :=
  let (text, writers) := c.writers.update k fun
    | some w => (w.sink.text, some { w with sink := { w.sink with text := "" } })
    | none => ("", none)
  (text, { c with writers })

def failure (e : StorageError) : String :=
  "IO error: " ++ e.message

end Csv

end EventCamera
