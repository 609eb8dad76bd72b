import DeferredInit.Lowering.Rules

/-!
# Lowering a program

A program is lowered from the outermost declarations down.  What a node owns is lowered before the node
itself, in order, so a rule finds all it moves about already lowered; what a rule adds lies behind the
traversal and is not visited by it.

If a program cannot be lowered, it keeps what was changed before the fault was found.
-/

namespace DeferredInit

namespace Lowering

open LowerM

variable (w : Lowering)

/-- The nodes that a node owns at this moment. -/
def owned (node : NodeId) : LowerM (List NodeId) := do
  match (← get).program.owned? node with
  | some nodes => pure nodes
  | none => throw (.halt .dangling)

/-- Lowers what a node owns and then the node, down to a depth. -/
def lowerNode : Nat → NodeId → LowerM Unit
  | 0, _ => throw (.halt .exhausted)
  | depth + 1, node => do
    (← owned node).forM (lowerNode depth)
    w.rule node

/-- How deep a program can be.  In a forest no node lies deeper than there are nodes.  Where nodes are
shared, a guard is guarded again each time its read is reached, and the program grows deeper on the way. -/
def depthBound (p : Program) : Nat := p.size + ampleDepth

/-- Lowers the outermost declarations. -/
def lowerAll : LowerM Unit := do
  let p := (← get).program
  p.topLevel.forM fun d => w.lowerNode (depthBound p) (.decl d)

/-- **Lowers a program**: how often each rule was applied, or why it stopped, and the program afterwards. -/
def lower (p : Program) : Except (Stop LoweringFault) LoweringStats × Program :=
  match w.lowerAll { program := p } with
  | .ok () s => (.ok s.stats, s.program)
  | .error stop s => (.error stop, s.program)

/-- The lowering for a library, if the library can host one. -/
def ofLibrary (l : Library) (options : LoweringOptions) : Except LoweringFault Lowering :=
  return { intrinsics := ← Intrinsics.resolve l, options }

end Lowering

end DeferredInit
