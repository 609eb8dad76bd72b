import DeferredInit.Data.Table
import DeferredInit.Machine.Fault
import DeferredInit.Machine.Value
import DeferredInit.Program.Basic

/-!
# The state of a machine

A machine keeps the contents of objects, the static fields that have been read or stored, the functions that
are running with their variables, and how many times a field has been read.  The last is there to be observed
from outside; nothing a program does depends on it.

An operation ends with a value or unwinds, and either way the state is the one it has come to.
-/

namespace DeferredInit

/-- **A running function** and what its variables hold. -/
structure Frame where
  /-- The function. -/
  function : DeclId
  /-- Receivers, parameters and variables that hold a value. -/
  locals : Table DeclId Value
deriving DecidableEq

/-- **The state of a machine.** -/
structure State where
  /-- The fields of every object, by serial number. -/
  objects : Array (Table DeclId Value) := #[]
  /-- The static fields that have been read or stored. -/
  statics : Table DeclId Value := ∅
  /-- The running functions, innermost first. -/
  frames : List Frame := []
  /-- How many times a field has been read. -/
  reads : Nat := 0
deriving DecidableEq

instance : Inhabited State := ⟨{}⟩

namespace State

/-- A new object with these fields, and the state in which it exists. -/
def addObject (s : State) (cls : Option DeclId) (fields : Table DeclId Value) : Value × State :=
  (.object ⟨s.objects.size, cls⟩, { s with objects := s.objects.push fields })

/-- The fields that an object has. -/
def fieldsOf (s : State) (o : ObjectRef) : Table DeclId Value := s.objects[o.serial]?.getD ∅

/-- Stores into a field of an object. -/
def setField (s : State) (o : ObjectRef) (field : DeclId) (v : Value) : State :=
  { s with objects := s.objects.modify o.serial (·.insert field v) }

end State

/-- **Why an evaluation ends without a value.** -/
inductive Unwind where
  /-- A function is being left with its result. -/
  | ret (function : DeclId) (value : Value)
  | fault (f : RuntimeFault)
  | halt (h : Halt)
deriving DecidableEq

/-- **Evaluating**: a computation inside a running function. -/
abbrev EvalM := EStateM Unwind State

/-- **Running**: a computation that no `return` gets out of. -/
abbrev RunM := EStateM (Stop RuntimeFault) State

/-- A run as part of an evaluation. -/
def RunM.evaluated {α : Type} (act : RunM α) : EvalM α := fun s =>
  match act s with
  | .ok a s => .ok a s
  | .error (.fault f) s => .error (.fault f) s
  | .error (.halt h) s => .error (.halt h) s

namespace EvalM

/-- Ends with a fault. -/
def fail {α : Type} (f : RuntimeFault) : EvalM α := throw (.fault f)

/-! ## Variables -/

/-- The value of a variable of the innermost running function. -/
def local? (d : DeclId) : EvalM (Option Value) := do
  match (← get).frames with
  | [] => return none
  | frame :: _ => return frame.locals.get? d

/-- Gives a variable of the innermost running function a value; where no function runs, there are none. -/
def setLocal (d : DeclId) (v : Value) : EvalM Unit :=
  modify fun s =>
    match s.frames with
    | [] => s
    | frame :: rest => { s with frames := { frame with locals := frame.locals.insert d v } :: rest }

/-! ## Fields -/

/-- Makes an object of its fields. -/
def newObject (cls : Option DeclId) (fields : Table DeclId Value) : EvalM Value :=
  modifyGet (·.addObject cls fields)

/-- What a field of an object holds; a field that nothing was stored in holds null. -/
def readField (o : ObjectRef) (field : DeclId) : EvalM Value := do
  return (((← get).fieldsOf o).get? field).getD .null

/-- Stores into a field of an object. -/
def writeField (o : ObjectRef) (field : DeclId) (v : Value) : EvalM Unit :=
  modify (·.setField o field v)

/-- What a static field holds, if it has been read or stored before. -/
def static? (field : DeclId) : EvalM (Option Value) := do
  return (← get).statics.get? field

/-- Stores into a static field. -/
def writeStatic (field : DeclId) (v : Value) : EvalM Unit :=
  modify fun s => { s with statics := s.statics.insert field v }

/-- Counts one read of a field. -/
def countRead : EvalM Unit := modify fun s => { s with reads := s.reads + 1 }

end EvalM

/-! ## Functions -/

/-- Runs the body of a function in a frame of its own, and says how it ended.  The frame is gone afterwards,
however it ended. -/
def RunM.inFrame (frame : Frame) (body : EvalM Value) : RunM (Except Unwind Value) := fun s =>
  match body { s with frames := frame :: s.frames } with
  | .ok v s => .ok (.ok v) { s with frames := s.frames.tail }
  | .error u s => .ok (.error u) { s with frames := s.frames.tail }

end DeferredInit
