import EventCamera.Acquisition
import EventCamera.CommandLine
import EventCamera.Csv
import EventCamera.Quotation
import EventCamera.Wire.Dvs128
import EventCamera.Wire.DvXplorer

/-! # Replays

A replay runs a recording through an acquisition and writes the events as tables. It does not
depend on where the files are: `Files` says how they are reached. -/

namespace EventCamera

/-- How the files of a replay are reached. -/
structure Files (m : Type → Type) where
  Handle : Type
  check : String → m (Except StorageError Unit)
  /-- Opens a file for writing, and makes or empties it. -/
  create : String → m (Except StorageError Handle)
  /-- The bytes of a file as a source; a read gets at most so many of them. -/
  source : String → Nat → m Source
  /-- Writes text behind what was written before. -/
  write : Handle → String → m (Except StorageError Handle)

/-- What a run leaves behind for its caller, besides files. -/
structure Report where
  status : Nat := 0
  output : List String := []
  messages : List String := []
  deriving DecidableEq, Repr

namespace Report

/-- Causes of a failure. If there are several, they are numbered. -/
def causes : List String → List String
  | [cause] => ["    " ++ cause]
  | chain => chain.zipIdx.map fun (cause, i) => s!"    {i}: {cause}"

def failure (what : String) (chain : List String) : Report where
  status := 1
  messages := ["Error: " ++ what, "", "Caused by:"] ++ causes chain

def usage (e : UsageError) : Report where
  status := 2
  messages :=
    ["error: " ++ e.message, "", "Usage: evpipe [OPTIONS] <INPUT> <OUTPUT>", "",
      "For more information, try '--help'."]

def version : Report where
  output := ["evpipe 0.1.0"]

def help : Report where
  output :=
    ["Replays raw event sensor captures", "", "Usage: evpipe [OPTIONS] <INPUT> <OUTPUT>", "",
      "Options:"] ++ Parameter.all.map (fun p => s!"  --{p.name} <VALUE>") ++
      Switch.all.map fun s => s!"  --{s.name}"

end Report

namespace Command

def device (c : Command) : Device :=
  match c.model with
  | .dvs128 => Wire.Dvs128.device
  | .dvxplorer => Wire.DvXplorer.device (c.array?.getD Wire.DvXplorer.fullArray)

def paths (c : Command) : PerKind fun _ => Option String where
  special := c.special?
  polarity := some c.output
  frame := none
  imu6 := c.imu6?

/-- The bytes that one read gets at most: a smaller request is served from a block. -/
def blockSize (c : Command) : Nat :=
  max c.settings.transferSize 8192

/-- What a replay came to. -/
structure Replayed where
  totals : Totals
  containers : Nat
  deriving DecidableEq, Repr

/-- Lines about a replay and the number of events it wrote. -/
def summary (c : Command) (r : Replayed) (counts : PerKind fun _ => Nat) : List String :=
  ["", "Summary:",
    "  Input:        " ++ quoted c.input,
    "  Output:       " ++ quoted c.output,
    s!"  Bytes:        {r.totals.bytes}",
    s!"  Containers:   {r.containers}",
    s!"  Dropped:      {r.totals.commits.dropped}",
    s!"  Polarity:     {counts.polarity}"] ++
  (if c.special?.isSome then [s!"  Special:      {counts.special}"] else []) ++
  (if c.imu6?.isSome then [s!"  IMU6:         {counts.imu6}"] else []) ++
  (if 0 < r.totals.decodeErrors then [s!"  Decode errors: {r.totals.decodeErrors}"] else [])

/-- Runs a recording through an acquisition: the containers that come from it, and what stopping it
reports. The worker reads only while the consumer has caught up. -/
def acquire (c : Command) (source : Source) :
    Except AcquisitionError (List Container × Except AcquisitionError Totals) := do
  let a ← Acquisition.start c.device c.settings Source.transport source true
  let (containers, a) := a.takeAlong source.reads
  return (containers, a.stop.1)

end Command

/-- Tables, and the files that they go to. -/
structure Tables (Handle : Type) where
  csv : Csv
  handles : PerKind fun _ => Option Handle

namespace Tables

variable {m : Type → Type} [Monad m] {files : Files m}

/-- Opens the files of some kinds, up to the first failure. -/
def openAll (files : Files m) (paths : PerKind fun _ => Option String) :
    List EventKind → PerKind (fun _ => Option files.Handle) →
      m (Except StorageError (PerKind fun _ => Option files.Handle))
  | [], handles => pure (.ok handles)
  | k :: rest, handles =>
    match paths.get k with
    | none => openAll files paths rest handles
    | some path => do
      match ← files.create path with
      | .ok handle => openAll files paths rest (handles.modify k fun _ => some handle)
      | .error e => return .error e

/-- Opens the files, and then a table for each of them. -/
def create (files : Files m) (geometry : Geometry) (paths : PerKind fun _ => Option String) :
    m (Except StorageError (Tables files.Handle)) := do
  match ← openAll files paths Csv.kinds (.of fun _ => none) with
  | .error e => return .error e
  | .ok handles =>
    let sinks := handles.map fun _ handle? => handle?.map fun _ => ({} : Sink)
    return .ok { csv := .start (some geometry) sinks, handles }

/-- Writes to the file of a table what its sink has got. -/
def settle (k : EventKind) (t : Tables files.Handle) :
    m (Option StorageError × Tables files.Handle) := do
  let (text, csv) := t.csv.takeText k
  let t := { t with csv }
  match t.handles.get k with
  | none => return (none, t)
  | some handle =>
    if text.isEmpty then
      return (none, t)
    else
      match ← files.write handle text with
      | .ok handle => return (none, { t with handles := t.handles.modify k fun _ => some handle })
      | .error e => return (some e, t)

/-- Changes one table after the other, each together with its file, up to the first failure. -/
def forEach (change : EventKind → Csv → Option StorageError × Csv) :
    List EventKind → Tables files.Handle → m (Option StorageError × Tables files.Handle)
  | [], t => pure (none, t)
  | k :: rest, t => do
    let (failure?, csv) := change k t.csv
    match failure?, ← settle k { t with csv } with
    | none, (none, t) => forEach change rest t
    | none, failed => return failed
    | failure?, (_, t) => return (failure?, t)

/-- Writes the events of containers, up to the first failure. -/
def writeAll : List Container → Tables files.Handle →
    m (Option StorageError × Tables files.Handle)
  | [], t => pure (none, t)
  | container :: rest, t => do
    match ← forEach (Csv.writeKind container) Csv.kinds t with
    | (none, t) => writeAll rest t
    | failed => return failed

def flush (t : Tables files.Handle) : m (Option StorageError × Tables files.Handle) :=
  forEach Csv.flushKind Csv.kinds t

/-- Gives the tables up. The lines that still wait are written where that can be done. -/
def abandon (t : Tables files.Handle) : m Unit :=
  discard <| Csv.kinds.foldlM (fun t k => return (← forEach Csv.flushKind [k] t).2) t

end Tables

namespace Command

variable {m : Type → Type} [Monad m]

/-- Carries out a replay: opens the recording, makes the files, runs, writes the tables. After a
failure the tables are given up. -/
def run (c : Command) (files : Files m) : m Report := do
  if let .error e ← files.check c.input then
    return .failure ("Failed to open capture " ++ quoted c.input) [e.message]
  match ← Tables.create files c.device.geometry c.paths with
  | .error e => return .failure "Failed to create CSV output" [Csv.failure e, e.message]
  | .ok tables =>
    let giveUp (tables : Tables files.Handle) (report : Report) : m Report := do
      tables.abandon
      return report
    match c.acquire (← files.source c.input c.blockSize) with
    | .error e => giveUp tables (.failure "Failed to start acquisition" e.chain)
    | .ok (containers, stopped) =>
      match ← tables.writeAll containers, stopped with
      | (some e, tables), _ =>
        giveUp tables (.failure "Failed to write CSV output" [Csv.failure e, e.message])
      | (none, tables), .error e => giveUp tables (.failure "Acquisition failed" e.chain)
      | (none, tables), .ok totals =>
        match ← tables.flush with
        | (some e, tables) =>
          giveUp tables (.failure "Failed to flush CSV output" [Csv.failure e, e.message])
        | (none, tables) =>
          let replayed := { totals, containers := containers.length }
          return { messages := if c.quiet then [] else c.summary replayed tables.csv.counts }

end Command

def CommandLine.execute {m : Type → Type} [Monad m] (files : Files m) (arguments : List String) :
    m Report :=
  match request arguments with
  | .error e => pure (.usage e)
  | .ok .version => pure .version
  | .ok .help => pure .help
  | .ok (.replay command) => command.run files

end EventCamera
