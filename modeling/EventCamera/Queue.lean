/-! # Bounded queues -/

namespace EventCamera

/-- A queue with a capacity, the oldest item first. It can be closed, which bars no one from
adding or taking items, but tells who waits for one that none has to be waited for. -/
structure Queue (α : Type) where
  items : List α := []
  capacity : Nat
  closed : Bool := false

namespace Queue

variable {α : Type}

/-- An empty queue. There is room for one item at least. -/
def ofCapacity (capacity : Nat) : Queue α :=
  { capacity := max capacity 1 }

def size (q : Queue α) : Nat :=
  q.items.length

def isEmpty (q : Queue α) : Bool :=
  q.items.isEmpty

/-- Whether the queue has no room for another item. -/
def isFull (q : Queue α) : Bool :=
  q.capacity ≤ q.size

def push (q : Queue α) (item : α) : Queue α :=
  { q with items := q.items ++ [item] }

def pop? (q : Queue α) : Option (α × Queue α) :=
  match q.items with
  | [] => none
  | item :: items => some (item, { q with items })

/-- Tells that no further item has to be waited for. -/
def close (q : Queue α) : Queue α :=
  { q with closed := true }

def clear (q : Queue α) : Queue α :=
  { q with items := [] }

end Queue

end EventCamera
