import Mathlib.Data.List.Nodup

/-!
# Turns

A fair semaphore with one permit. The permit is a turn: at most one party has it, and who wants it
while it is taken waits in line. A party that gives the turn back hands it to the first in line,
who has it from that moment on, also before it runs again. Closing refuses everybody who asks or
waits afterwards.
-/

namespace Async

structure Turn (α : Type) where
  holder : Option α
  line : List α
  closed : Bool
deriving DecidableEq, Repr

namespace Turn

variable {α : Type}

def new (α : Type) : Turn α where
  holder := none
  line := []
  closed := false

/-- Ask for the turn: get it if it is free, else stand in line. A closed turn
is refused before anything else. -/
def ask (t : Turn α) (a : α) : Turn α :=
  if t.closed then t
  else
    match t.holder with
    | none => { t with holder := some a }
    | some _ => { t with line := t.line ++ [a] }

def pass (t : Turn α) : Turn α :=
  { t with holder := t.line.head?, line := t.line.tail }

/-- A party gives up, whether it has the turn or waits for it. -/
def quit [DecidableEq α] (t : Turn α) (a : α) : Turn α :=
  if t.holder = some a then t.pass else { t with line := t.line.erase a }

def close (t : Turn α) : Turn α := { t with closed := true, line := [] }

/-- Whether the turn is there for the taking. -/
def free (t : Turn α) : Bool := ! t.closed && t.holder.isNone

end Turn

end Async
