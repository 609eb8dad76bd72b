import DeferredInit.Lowering.Traversal
import DeferredInit.Machine.Run

/-!
# Sessions

A session is a library with a lowering that it hosts: everything needed to lower programs and to run them.
-/

namespace DeferredInit

/-- **Any fault**, by the activity that reports it. -/
inductive Fault where
  | library (f : LibraryFault)
  | lowering (f : LoweringFault)
  | runtime (f : RuntimeFault)
deriving DecidableEq, Repr

/-- The fault in words, with the activity in front unless the program itself reports it. -/
def Fault.message : Fault → String
  | library f => "registration failed: " ++ f.message
  | lowering f => "lowering failed: " ++ f.message
  | runtime f => f.message

/-- **A library with a lowering that it hosts.** -/
structure Session where
  /-- The library. -/
  library : Library
  /-- The lowering. -/
  lowering : Lowering

namespace Session

/-- A session over a library. -/
def ofLibrary (library : Library) (options : LoweringOptions) : Except Fault Session :=
  match Lowering.ofLibrary library options with
  | .ok lowering => .ok { library, lowering }
  | .error f => .error (.lowering f)

/-- A session over the standard library. -/
def standard (options : LoweringOptions) : Except Fault Session := ofLibrary .standard options

/-- Lowers a program. -/
def lower (s : Session) (p : Program) : Except (Stop Fault) LoweringStats × Program :=
  match s.lowering.lower p with
  | (.ok stats, p) => (.ok stats, p)
  | (.error (.fault f), p) => (.error (.fault (.lowering f)), p)
  | (.error (.halt h), p) => (.error (.halt h), p)

/-- A machine that runs a program. -/
def machine (s : Session) (p : Program) : Machine := { program := p, library := s.library }

end Session

/-- Lowers a program in a session of its own over the standard library. -/
def lowerProgram (p : Program) (options : LoweringOptions) :
    Except (Stop Fault) LoweringStats × Program :=
  match Session.standard options with
  | .ok session => session.lower p
  | .error f => (.error (.fault f), p)

end DeferredInit
