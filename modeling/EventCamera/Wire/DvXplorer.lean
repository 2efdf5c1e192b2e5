import EventCamera.Wire.DvXplorer.Imu
import EventCamera.Wire.DvXplorer.Unit

/-! # The DVXplorer -/

namespace EventCamera.Wire.DvXplorer

/-- Bytes of a unit. -/
def unitWidth : Nat := 2

/-- Microseconds between two wraps of the 15-bit tick counter. -/
def wrapUnit : Int := 0x8000

def fullArray : Geometry := ⟨640, 480⟩

/-- What a DVXplorer remembers between units. -/
structure State where
  address : Address := {}
  imu : Imu := {}

def classify (g : Geometry) (s : State) : List UInt8 → Classified State
  | low :: high :: _ =>
    let reading := s.address.read g (word low high)
    { state := { s with address := reading.address }
      codes := reading.codes
      notices := reading.notices }
  | _ => { state := s }

/-- Applies a step of an inertial sample, whatever kind of composite it is meant for. -/
def compose (s : State) (step : CompositeStep) (time : Int) : Composed State :=
  let composed := s.imu.apply step time
  { state := { s with imu := composed.state }
    outcome := composed.outcome
    notices := composed.notices }

/-- A DVXplorer with an array, or a region of it, of the given size. It sends a tick of its own
for every step of time. -/
def device (g : Geometry) : Device where
  State := State
  initial := {}
  name := "DVXplorer"
  unitWidth := unitWidth
  wrapUnit := wrapUnit
  order := .strict
  geometry := g
  classify := classify g
  compose := fun s _ step time => compose s step time
  invalidate := fun s => { s with imu := s.imu.invalidate }

end EventCamera.Wire.DvXplorer
