import EventCamera.Event

/-! # One value for each kind of event -/

namespace EventCamera

/-- A value for each kind of event, of a type that may depend on the kind. -/
structure PerKind (β : EventKind → Type) where
  special : β .special
  polarity : β .polarity
  frame : β .frame
  imu6 : β .imu6

namespace PerKind

variable {β γ : EventKind → Type} {α : Type}

def get (p : PerKind β) : (k : EventKind) → β k
  | .special => p.special
  | .polarity => p.polarity
  | .frame => p.frame
  | .imu6 => p.imu6

def modify (p : PerKind β) (k : EventKind) (f : β k → β k) : PerKind β :=
  match k, f with
  | .special, f => { p with special := f p.special }
  | .polarity, f => { p with polarity := f p.polarity }
  | .frame, f => { p with frame := f p.frame }
  | .imu6, f => { p with imu6 := f p.imu6 }

/-- Changes the value for one kind by a function that also has a result of its own. -/
def update (p : PerKind β) (k : EventKind) (f : β k → α × β k) : α × PerKind β :=
  match k, f with
  | .special, f => let (result, special) := f p.special; (result, { p with special })
  | .polarity, f => let (result, polarity) := f p.polarity; (result, { p with polarity })
  | .frame, f => let (result, frame) := f p.frame; (result, { p with frame })
  | .imu6, f => let (result, imu6) := f p.imu6; (result, { p with imu6 })

def of (f : (k : EventKind) → β k) : PerKind β :=
  ⟨f .special, f .polarity, f .frame, f .imu6⟩

def map (f : (k : EventKind) → β k → γ k) (p : PerKind β) : PerKind γ :=
  of fun k => f k (p.get k)

/-- Replaces the values one after the other, in the order of the kinds. The first failure is the
result. -/
def mapExcept {ε : Type} (f : (k : EventKind) → β k → Except ε (γ k)) (p : PerKind β) :
    Except ε (PerKind γ) := do
  let special ← f .special p.special
  let polarity ← f .polarity p.polarity
  let frame ← f .frame p.frame
  let imu6 ← f .imu6 p.imu6
  return ⟨special, polarity, frame, imu6⟩

/-- What a function makes of each value, in the order of the kinds. -/
def collect (f : (k : EventKind) → β k → α) (p : PerKind β) : List α :=
  EventKind.all.map fun k => f k (p.get k)

@[simp] theorem get_of (f : (k : EventKind) → β k) (k : EventKind) : (of f).get k = f k := by
  cases k <;> rfl

@[simp] theorem get_map (f : (k : EventKind) → β k → γ k) (p : PerKind β) (k : EventKind) :
    (p.map f).get k = f k (p.get k) := by
  simp [map]

@[simp] theorem get_modify_self (p : PerKind β) (k : EventKind) (f : β k → β k) :
    (p.modify k f).get k = f (p.get k) := by
  cases k <;> rfl

theorem get_modify_of_ne (p : PerKind β) {k l : EventKind} (f : β k → β k) (h : l ≠ k) :
    (p.modify k f).get l = p.get l := by
  cases k <;> cases l <;> first | rfl | exact absurd rfl h

end PerKind

end EventCamera
