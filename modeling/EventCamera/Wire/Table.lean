import EventCamera.Device

/-! # Devices that read units from a table

For trying out the pipeline: the first byte of a unit is looked up in a table of codes, so that
any sequence of codes can be sent. -/

namespace EventCamera.Wire.Table

/-- What a unit of the table does. -/
inductive Entry where
  | code (code : Code)
  /-- Asks for the acquisition to be stopped. -/
  | stop
  deriving DecidableEq

/-- What a device of this family is set to. -/
structure Setup where
  table : Array (List Entry) := #[]
  unitWidth : Nat := 1
  wrapUnit : Int := 0x8000
  order : TimeOrder := .nonDecreasing
  geometry : Geometry := ⟨16, 16⟩
  frame : Geometry := ⟨2, 1⟩
  /-- The count at which an inertial sample is complete. -/
  imuFields : Nat := 3

/-- The codes and the request to stop of a unit. -/
def lookUp (setup : Setup) {σ : Type} (state : σ) (unit : List UInt8) : Classified σ :=
  let entries := (unit.head?.bind fun byte => setup.table[byte.toNat]?).getD []
  { state
    codes := entries.filterMap fun
      | .code code => some code
      | .stop => none
    stops := entries.contains .stop }

/-- The composites in the making, and how often they were dropped. -/
structure State where
  imu : ImuScratch := .waiting
  frame : FrameScratch
  invalidations : Nat := 0

/-- Applies a step of a sample that counts its bytes and stores none of them. -/
def composeSample (fields : Nat) (s : ImuScratch) (step : CompositeStep) (time : Int) :
    ImuScratch × CompositeOutcome :=
  match step, s.ignoring with
  | .start, _ => (.opened, .pending)
  | _, true => (s, .ignored)
  | .data byte, false => (s.advance byte.toNat, .pending)
  | .config word, false => ({ s with count := word.toNat % 256 }, .pending)
  | .finish, false => (s, s.outcome fields time)
  | _, false => (s, .ignored)

def compose (setup : Setup) (s : State) (kind : CompositeKind) (step : CompositeStep)
    (time : Int) : Composed State :=
  match kind with
  | .frame =>
    let (frame, outcome) := s.frame.apply step time
    { state := { s with frame }, outcome }
  | .imu6 =>
    let (imu, outcome) := composeSample setup.imuFields s.imu step time
    { state := { s with imu }, outcome }

def scripted (setup : Setup) : Device where
  State := State
  initial := { frame := .waiting setup.frame }
  name := "scripted"
  unitWidth := setup.unitWidth
  wrapUnit := setup.wrapUnit
  order := setup.order
  geometry := setup.geometry
  classify := lookUp setup
  compose := compose setup
  invalidate := fun s =>
    { imu := .waiting, frame := s.frame.invalidate, invalidations := s.invalidations + 1 }

def plain (setup : Setup) : Device where
  State := Unit
  initial := ()
  name := "plain"
  unitWidth := setup.unitWidth
  wrapUnit := setup.wrapUnit
  order := setup.order
  geometry := setup.geometry
  classify := lookUp setup
  compose := fun state _ _ _ => { state, outcome := .ignored }
  invalidate := id

end EventCamera.Wire.Table
