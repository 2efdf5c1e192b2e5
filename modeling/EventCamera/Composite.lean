import EventCamera.Event

/-! # Composite events

An event that takes several units to send is put together in a scratch record. Until its start
marker is seen, its other units are ignored, so that nothing left over from before a reset or a
change of epoch is completed. -/

namespace EventCamera

/-- The kinds of events that take several units. -/
inductive CompositeKind where
  | imu6
  | frame
  deriving DecidableEq, Repr

/-- The kind of event that a composite becomes. -/
def CompositeKind.eventKind : CompositeKind → EventKind
  | .imu6 => .imu6
  | .frame => .frame

/-- One step of a composite. -/
inductive CompositeStep where
  | start
  | data (byte : UInt8)
  | config (word : UInt16)
  | sample (value : UInt16)
  | exposureStart
  | exposureEnd
  | finish
  deriving DecidableEq, Repr

/-- A completed composite. -/
inductive CompositeEvent where
  | imu6 (event : Imu6Event)
  | frame (event : FrameEvent)
  deriving DecidableEq

namespace CompositeEvent

def kind : CompositeEvent → EventKind
  | imu6 _ => .imu6
  | frame _ => .frame

def record : (e : CompositeEvent) → e.kind.Record
  | imu6 event => event
  | frame event => event

end CompositeEvent

/-- What became of a step. -/
inductive CompositeOutcome where
  /-- The step went into the scratch record. -/
  | pending
  /-- No start marker was seen, and the step was dropped. -/
  | ignored
  /-- The record was closed with all its fields. -/
  | complete (event : CompositeEvent)
  /-- The record was closed with the wrong number of fields. -/
  | mismatch (count expected : Nat)
  deriving DecidableEq

/-- The record of an inertial sample in the making. -/
structure ImuScratch where
  event : Imu6Event := {}
  /-- The fields taken in so far; the count stops at 255. -/
  count : Nat := 0
  ignoring : Bool := true

namespace ImuScratch

def waiting : ImuScratch := {}

/-- A new, empty record that takes fields. -/
def opened : ImuScratch := { ignoring := false }

def advance (s : ImuScratch) (fields : Nat) : ImuScratch :=
  { s with count := min (s.count + fields) 255 }

/-- The stamped sample, if the count is the expected one, else the count. The record stays as it
is. -/
def finish (s : ImuScratch) (expected : Nat) (time : Int) : Except Nat Imu6Event :=
  if s.count = expected then .ok { s.event with time } else .error s.count

def outcome (s : ImuScratch) (expected : Nat) (time : Int) : CompositeOutcome :=
  match s.finish expected time with
  | .ok event => .complete (.imu6 event)
  | .error count => .mismatch count expected

end ImuScratch

/-- The record of an image in the making. -/
structure FrameScratch where
  geometry : Geometry
  frame : FrameEvent := {}
  /-- The samples seen since the start marker, stored or not. -/
  samples : Nat := 0
  ignoring : Bool := true

namespace FrameScratch

/-- The largest number of samples that is counted. -/
def maxSamples : Nat := 0xffffffff

def waiting (geometry : Geometry) : FrameScratch := { geometry }

def expected (s : FrameScratch) : Nat :=
  s.geometry.width.toNat * s.geometry.height.toNat

/-- Drops the image and waits for the next start marker. -/
def invalidate (s : FrameScratch) : FrameScratch :=
  waiting s.geometry

/-- A new, empty image that takes samples. -/
def opened (geometry : Geometry) (time : Int) : FrameScratch where
  geometry
  frame := { width := geometry.width, height := geometry.height, frameStart := time }
  ignoring := false

/-- Takes in a pixel. Pixels that are too many are only counted. -/
def take (s : FrameScratch) (value : UInt16) : FrameScratch :=
  { s with
    frame := if s.samples < s.expected then
        { s.frame with pixels := s.frame.pixels.push value }
      else
        s.frame
    samples := min (s.samples + 1) maxSamples }

def outcome (s : FrameScratch) (time : Int) : CompositeOutcome :=
  if s.samples = s.expected then
    .complete (.frame { s.frame with frameEnd := time })
  else
    .mismatch s.samples s.expected

/-- Applies a step at a device time. After its end marker an image waits again. -/
def apply (s : FrameScratch) (step : CompositeStep) (time : Int) :
    FrameScratch × CompositeOutcome :=
  match step, s.ignoring with
  | .start, _ => (opened s.geometry time, .pending)
  | _, true => (s, .ignored)
  | .exposureStart, false => ({ s with frame := { s.frame with exposureStart := time } }, .pending)
  | .exposureEnd, false => ({ s with frame := { s.frame with exposureEnd := time } }, .pending)
  | .sample value, false => (s.take value, .pending)
  | .data _, false | .config _, false => (s, .ignored)
  | .finish, false => (s.invalidate, s.outcome time)

end FrameScratch

end EventCamera
