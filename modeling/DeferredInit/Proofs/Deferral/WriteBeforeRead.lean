import DeferredInit.Proofs.Deferral.CellCalls
import DeferredInit.Proofs.Deferral.Simulation

/-!
# Deferred properties are cells

A program of deferred properties that has been lowered is called from outside: objects are made, and properties are
set, got and asked about in any order.  What each call answers is settled by the calls before it (`Call.outcome`).  A
getter answers what was last stored in its cell, and that is an access before initialization if nothing was, or null
(`History.stored`).  A query says which of the two it is.  Cells are told apart by their property and, unless it is
static, by the object (`Cell.key`), so no call is seen at another cell.

The reference is run first.  What is in its memory follows the history (`Memory.Follows`), which each call preserves
(`step_follows`) and so every run.  The machine answers what the reference does.
-/

namespace DeferredInit

open Program Reference

/-! ## Calls and histories -/

/-- **A call from outside.** -/
inductive Call where
  /-- Makes an object. -/
  | construct (cls : DeclId)
  /-- Sets a property, of a receiver or of none. -/
  | set (x : Cell) (this : Option Value) (v : Value)
  /-- Gets a property. -/
  | get (x : Cell) (this : Option Value)
  /-- Asks a query. -/
  | ask (query : Query) (this : Option Value) (args : List Value)
deriving DecidableEq

/-- The step that calls a function, of a receiver or of none. -/
def Step.call (function : DeclId) (this : Option Value) (args : List Value) : Step :=
  match this with
  | none => .callFunction function args
  | some v => .callMethod function v args

/-- The step that a call is. -/
def Call.step : Call → Step
  | construct cls => .construct cls
  | set x this v => .call x.setter this [v]
  | get x this => .call x.getter this []
  | ask query this args => .call query.function this args

/-- **Which cell is accessed**: that of the property, in an object or once for the whole program. -/
def Cell.key (x : Cell) (this : Option Value) : DeclId × Option Nat := (x.property, place x.isStatic this)

/-- **What has been called**, the latest call first. -/
abbrev History := List Call

namespace History

/-- **What was last stored in a cell**; null if nothing was. -/
def stored : History → DeclId × Option Nat → Value
  | [], _ => .null
  | .set x this v :: past, key => if x.key this = key then v else stored past key
  | _ :: past, key => stored past key

/-- The objects that have been made, numbered from the first. -/
def objects : History → List ObjectRef
  | [] => []
  | .construct cls :: past => ⟨(objects past).length, some cls⟩ :: objects past
  | _ :: past => objects past

/-- How many times a field has been read: once by each getter and each query. -/
def reads : History → Nat
  | [] => 0
  | .get .. :: past | .ask .. :: past => reads past + 1
  | _ :: past => reads past

theorem serial_lt (past : History) : ∀ o ∈ past.objects, o.serial < past.objects.length := by
  induction past with
  | nil => nofun
  | cons call past ih =>
    cases call with
    | construct cls =>
      intro o ho
      rw [objects, List.length_cons]
      rcases List.mem_cons.1 ho with rfl | ho
      · exact Nat.lt_succ_self _
      · exact Nat.lt_succ_of_lt (ih o ho)
    | set | get | ask => exact ih

end History

namespace Call

/-- **What a call answers** after others. -/
def outcome (w : Lowering) (past : History) : Call → Except RuntimeFault Value
  | construct cls => .ok (.object ⟨past.objects.length, some cls⟩)
  | set .. => .ok .unit
  | get x this => observed w x.name (past.stored (x.key this))
  | ask query this args => .ok (.bool !(past.stored (query.cell.key (query.asked.among this args))).isNull)

/-- **Which calls may be made** after others: of what has been declared, on objects that have been made. -/
def Allowed (classes : List DeclId) (cells : List Cell) (queries : List Query) (past : History) : Call → Prop
  | construct cls => cls ∈ classes
  | set x this _ | get x this => x ∈ cells ∧ x.Accepts past.objects this
  | ask query this args =>
    query ∈ queries ∧ args.length = query.arity ∧ query.cell.Accepts past.objects (query.asked.among this args)

/-- What calls answer one after the other, and how many times fields have been read then. -/
def outcomes (w : Lowering) : History → List Call → List (Except RuntimeFault Value × Nat)
  | _, [] => []
  | past, call :: rest => (call.outcome w past, History.reads (call :: past)) :: outcomes w (call :: past) rest

/-- Each of the calls may be made after those before it. -/
def AllAllowed (classes : List DeclId) (cells : List Cell) (queries : List Query) : History → List Call → Prop
  | _, [] => True
  | past, call :: rest =>
    call.Allowed classes cells queries past ∧ AllAllowed classes cells queries (call :: past) rest

end Call

/-! ## Following the history -/

/-- Cells of one property have one field, and the other way round. -/
theorem Program.HasCell.field_eq_iff {p : Program} {x y : Cell} (hx : p.HasCell x) (hy : p.HasCell y) :
    x.field = y.field ↔ x.property = y.property := by
  obtain ⟨D, r, hD, -, -, hr, hfield, -⟩ := hx.property
  obtain ⟨D', r', hD', -, -, hr', hfield', -⟩ := hy.property
  obtain ⟨F, content, hF, -, -, hcontent, -, hback⟩ := hx.field
  obtain ⟨F', content', hF', -, -, hcontent', -, hback'⟩ := hy.field
  constructor
  · intro h
    rw [h, hF'] at hF
    obtain rfl := Option.some.inj hF
    obtain rfl := DeclForm.field.inj (hcontent.symm.trans hcontent')
    exact Option.some.inj (hback.symm.trans hback')
  · intro h
    rw [h, hD'] at hD
    obtain rfl := Option.some.inj hD
    obtain rfl := DeclForm.property.inj (hr.symm.trans hr')
    exact Option.some.inj (hfield.symm.trans hfield')

/-- **What is in memory follows a history.** -/
structure Memory.Follows (μ : Memory) (cells : List Cell) (past : History) : Prop where
  objects : μ.objects = past.objects.length
  reads : μ.reads = past.reads
  cell : ∀ x ∈ cells, ∀ k, μ.cell x.field k = past.stored (x.property, k)

namespace Memory.Follows

variable {p : Program} {cells : List Cell} {past : History} {μ : Memory}

theorem initial (cells : List Cell) : Memory.Follows (State.memory {}) cells [] where
  objects := rfl
  reads := rfl
  cell x _ k := by cases k <;> rfl

variable (h : μ.Follows cells past)
include h

theorem construct (cls : DeclId) : μ.add.Follows cells (.construct cls :: past) where
  objects := congrArg (· + 1) h.objects
  reads := h.reads
  cell := h.cell

theorem get (x : Cell) (this : Option Value) : μ.read.Follows cells (.get x this :: past) where
  objects := h.objects
  reads := congrArg (· + 1) h.reads
  cell := h.cell

theorem ask (query : Query) (this : Option Value) (args : List Value) :
    μ.read.Follows cells (.ask query this args :: past) where
  objects := h.objects
  reads := congrArg (· + 1) h.reads
  cell := h.cell

/-- What is stored in one cell is seen at this cell alone. -/
theorem set (hcells : ∀ x ∈ cells, p.HasCell x) {x : Cell} (hx : x ∈ cells) (this : Option Value) (v : Value) :
    (μ.store x.field (place x.isStatic this) v).Follows cells (.set x this v :: past) where
  objects := h.objects
  reads := h.reads
  cell y hy k := by
    show (if y.field = x.field ∧ k = place x.isStatic this then v else μ.cell y.field k) = _
    rw [h.cell y hy k, History.stored]
    refine if_congr ?_ rfl rfl
    rw [(hcells y hy).field_eq_iff (hcells x hx), Cell.key, Prod.mk.injEq, eq_comm (a := x.property), eq_comm (b := k)]

end Memory.Follows

theorem Semantics.step_call (S : Semantics) (depth : Nat) (function : DeclId) (this : Option Value)
    (args : List Value) :
    S.step depth (.call function this args) = S.invoke (S.eval depth) function this none args := by
  cases this <;> rfl

section

variable {w : Lowering} {m : Machine} {n : Nat} {s : State} {past : History}
variable {classes : List DeclId} {cells : List Cell} {queries : List Query}
variable (hi : Inventory w.intrinsics.isInitializedGetter m.program classes cells queries) (hdepth : 0 < m.maxDepth)
include hi hdepth

/-- **Each call answers as the history says**, and memory follows. -/
theorem step_follows (hframes : s.frames = []) (hμ : s.memory.Follows cells past) {call : Call}
    (hcall : call.Allowed classes cells queries past) :
    ∃ t, (semantics w m).step (n + 4) call.step s = Answer.result (call.outcome w past, t) ∧ t.frames = [] ∧
      t.memory.Follows cells (call :: past) := by
  have hrunning : s.frames.length < m.maxDepth := by rwa [hframes]
  have hsize : s.objects.size = past.objects.length := hμ.objects
  have hcell (x : Cell) (hx : x ∈ cells) (this : Option Value) :
      s.cell x.field (place x.isStatic this) = past.stored (x.key this) := hμ.cell x hx _
  cases call with
  | construct cls =>
    obtain ⟨t, hrun, hframes', hmemory⟩ := construct_run (n := n + 4) (s := s) hi hcall
    rw [hsize] at hrun
    exact ⟨t, hrun, hframes'.trans hframes, hmemory ▸ hμ.construct cls⟩
  | set x this v =>
    obtain ⟨hx, haccepts⟩ := hcall
    obtain ⟨t, hrun, hframes', hmemory⟩ :=
      set_run (n := n + 1) hi hrunning hx haccepts (hsize ▸ past.serial_lt) v
    refine ⟨t, ?_, hframes'.trans hframes, hmemory ▸ hμ.set hi.cell hx this v⟩
    rw [Call.step, Semantics.step_call]
    exact hrun
  | get x this =>
    obtain ⟨hx, haccepts⟩ := hcall
    obtain ⟨t, hrun, hframes', hmemory⟩ := get_run hi hrunning hx haccepts ((semantics w m).eval (n + 4))
    rw [hcell x hx] at hrun
    refine ⟨t, ?_, hframes'.trans hframes, hmemory ▸ hμ.get x this⟩
    rw [Call.step, Semantics.step_call]
    exact hrun
  | ask query this args =>
    obtain ⟨hquery, harity, haccepts⟩ := hcall
    obtain ⟨t, hrun, hframes', hmemory⟩ := ask_run (n := n) hi hrunning hquery harity haccepts
    rw [hcell query.cell (hi.query query hquery).1] at hrun
    refine ⟨t, ?_, hframes'.trans hframes, hmemory ▸ hμ.ask query this args⟩
    rw [Call.step, Semantics.step_call]
    exact hrun

/-- **Runs answer as the history says.** -/
theorem run_follows (hframes : s.frames = []) (hμ : s.memory.Follows cells past) {calls : List Call}
    (hcalls : Call.AllAllowed classes cells queries past calls) :
    ∃ answers, (semantics w m).run (n + 4) (calls.map Call.step) s = .ok answers ∧
      answers.map (fun a => (a.1, a.2.reads)) = Call.outcomes w past calls := by
  -- the history grows with every call, and with it what memory follows
  induction calls generalizing past s with
  | nil => exact ⟨[], rfl, rfl⟩
  | cons call rest ih =>
    obtain ⟨t, hstep, hframes', hμ'⟩ := step_follows (n := n) hi hdepth hframes hμ hcalls.1
    obtain ⟨answers, hrun, hanswers⟩ := ih hframes' hμ' hcalls.2
    refine ⟨(call.outcome w past, t) :: answers, ?_, ?_⟩
    · rw [Semantics.run, List.map_cons, takeSteps_cons hstep]
      rw [Semantics.run] at hrun
      simp only [hrun, Except.map]
    · rw [List.map_cons, hanswers, Call.outcomes, ← hμ'.reads]
      rfl

end

/-! ## Lowered programs -/

namespace Lowering

theorem map_eq_of_alike {answers answers' : List Answer} (h : List.Forall₂ Answer.Alike answers answers') :
    answers'.map (fun a => (a.1, a.2.reads)) = answers.map (fun a => (a.1, a.2.reads)) := by
  induction h with
  | nil => rfl
  | cons hab _ ih => rw [List.map_cons, List.map_cons, ih, hab.value_eq, hab.reads_eq]

/-- **Lowered deferred properties are independent cells that are written before they are read.**  Take a program of
deferred properties that has been lowered, and a library that hosts the lowering.  Whatever is called from outside on
the objects that have been made, each call answers as the calls before it say, and each getter and each query reads
one field. -/
theorem lower_writeBeforeRead {l : Library} {options : LoweringOptions} {w : Lowering}
    (hw : ofLibrary l options = .ok w) {p q : Program} {classes : List DeclId} {cells : List Cell}
    {queries : List Query} (hp : Built w.intrinsics.isInitializedGetter p classes cells queries) {stats : LoweringStats}
    (h : w.lower p = (.ok stats, q)) {maxDepth : Nat} (hdepth : 0 < maxDepth) {calls : List Call}
    (hcalls : Call.AllAllowed classes cells queries [] calls) :
    ∃ answers, takeSteps (Machine.take ⟨q, l, maxDepth⟩) (calls.map Call.step) {} = .ok answers ∧
      answers.map (fun a => (a.1, a.2.reads)) = Call.outcomes w [] calls := by
  have hi := hp.inventory
  have hlowers : Lowers w ⟨p, l, maxDepth⟩ ⟨q, l, maxDepth⟩ :=
    .of_lower hw hi.closed (findShared_eq_none_iff.2 hi.forest) h maxDepth
  obtain ⟨answers, hrun, hanswers⟩ :=
    run_follows (w := w) (m := ⟨p, l, maxDepth⟩) (n := 0) (s := {}) hi hdepth rfl (.initial cells) hcalls
  -- four levels are enough for the reference, and a lowered program needs about twice as many
  have hdeep : 2 * 4 + 5 ≤ Machine.depthBound ⟨q, l, maxDepth⟩ := by
    rw [Machine.depthBound, ampleDepth]
    exact Nat.le_add_left_of_le (by decide)
  obtain ⟨answers', hrun', halike⟩ := hlowers.run_of_reference hdeep hrun
  rw [Machine.run_depthBound] at hrun'
  exact ⟨answers', hrun', (map_eq_of_alike halike).trans hanswers⟩

/-! ### A program of cells -/

/-- What has been built upon a program. -/
def upon {α : Type} (p : Program) (build : BuildM α) : Program :=
  match build p with
  | .ok _ q | .error _ q => q

namespace CellsSample

/-- A class. -/
def withClass : Program := upon { name := "cells" } (BuildM.declareClass ⟨1, 1, 7⟩ "Service")

/-- A property of the class. -/
def withMember : Program :=
  upon withClass (BuildM.declareProperty ⟨2, 3, 4⟩ (some ⟨0⟩) "name" Sample.text (.deferredInit ∪ .mutable))

/-- An outermost property. -/
def withStatic : Program :=
  upon withMember (BuildM.declareProperty ⟨3, 1, 7⟩ none "current" Sample.service (.deferredInit ∪ .mutable))

/-- A function that asks whether the property of its parameter is initialized. -/
def program : Program :=
  upon withStatic (BuildM.declareQuery ⟨4, 1, 5⟩ ⟨4, 20, 12⟩ Sample.lowering.intrinsics.isInitializedGetter none "ready"
    .boolean [("of", Sample.service)] ⟨1⟩ Sample.text (.parameter 0))

/-- The name of a service. -/
def nameOf : Cell :=
  { property := ⟨1⟩, field := ⟨2⟩, getter := ⟨4⟩, setter := ⟨7⟩, name := "name", isMember := true, isStatic := false }

/-- The current service. -/
def current : Cell :=
  { property := ⟨8⟩, field := ⟨9⟩, getter := ⟨10⟩, setter := ⟨12⟩, name := "current", isMember := false,
    isStatic := true }

/-- Whether a service has a name. -/
def ready : Query := { function := ⟨14⟩, arity := 1, cell := nameOf, asked := .parameter 0 }

/-- One of the services that are made first. -/
def service (i : Nat) : Value := .object ⟨i, some ⟨0⟩⟩

/-- Two services are made.  One of them is named, the other becomes the current one, and the first loses its name. -/
def calls : List Call :=
  [.construct ⟨0⟩, .construct ⟨0⟩, .ask ready none [service 0], .get nameOf (some (service 0)),
    .set nameOf (some (service 0)) (.str "first"), .ask ready none [service 0], .get nameOf (some (service 0)),
    .ask ready none [service 1], .get current none, .set current none (service 1), .get current none,
    .set nameOf (some (service 0)) .null, .get nameOf (some (service 0))]

theorem built : Built Sample.lowering.intrinsics.isInitializedGetter program [⟨0⟩] [current, nameOf] [ready] := by
  have hclass : BuildM.declareClass ⟨1, 1, 7⟩ "Service" { name := "cells" } = .ok ⟨0⟩ withClass := rfl
  have hmember : BuildM.declareProperty ⟨2, 3, 4⟩ (some ⟨0⟩) "name" Sample.text (.deferredInit ∪ .mutable) withClass =
      .ok ⟨⟨1⟩, ⟨2⟩, ⟨4⟩, some ⟨7⟩⟩ withMember := rfl
  have hstatic : BuildM.declareProperty ⟨3, 1, 7⟩ none "current" Sample.service (.deferredInit ∪ .mutable) withMember =
      .ok ⟨⟨8⟩, ⟨9⟩, ⟨10⟩, some ⟨12⟩⟩ withStatic := rfl
  have hquery : BuildM.declareQuery ⟨4, 1, 5⟩ ⟨4, 20, 12⟩ Sample.lowering.intrinsics.isInitializedGetter none "ready"
      .boolean [("of", Sample.service)] nameOf.property Sample.text (.parameter 0) withStatic = .ok ⟨14⟩ program := rfl
  have hcell : nameOf ∈ [current, nameOf] := by simp
  exact .query (.property (.property (.cls (.empty "cells") hclass) (by simp) rfl rfl rfl hmember) (by simp) rfl rfl rfl
    hstatic) (by simp) hcell rfl hquery

end CellsSample

open CellsSample in
/-- The cells of two services and of the whole program, in the standard library. -/
theorem lower_writeBeforeRead_sample :
    ofLibrary Library.standard {} = .ok Sample.lowering ∧
      Built Sample.lowering.intrinsics.isInitializedGetter program [⟨0⟩] [current, nameOf] [ready] ∧
      (Sample.lowering.lower program).1 = .ok { queries := 1, properties := 2 } ∧
      Call.AllAllowed [⟨0⟩] [current, nameOf] [ready] [] calls ∧
      ∃ answers,
        takeSteps (Machine.take ⟨(Sample.lowering.lower program).2, Library.standard, 1⟩) (calls.map Call.step) {} =
          .ok answers ∧
        answers.map (fun a => (a.1, a.2.reads)) =
          [(.ok (service 0), 0), (.ok (service 1), 0), (.ok (.bool false), 1), (.error (.uninitializedAccess none), 2),
            (.ok .unit, 2), (.ok (.bool true), 3), (.ok (.str "first"), 4), (.ok (.bool false), 5),
            (.error (.uninitializedAccess none), 6), (.ok .unit, 6), (.ok (service 1), 7), (.ok .unit, 7),
            (.error (.uninitializedAccess none), 8)] := by
  have hw : ofLibrary Library.standard {} = .ok Sample.lowering := by decide +kernel
  have hstats : (Sample.lowering.lower program).1 = .ok { queries := 1, properties := 2 } := by decide +kernel
  have hlower : Sample.lowering.lower program =
      (.ok { queries := 1, properties := 2 }, (Sample.lowering.lower program).2) := by
    rw [← hstats]
  have hcalls : Call.AllAllowed [⟨0⟩] [current, nameOf] [ready] [] calls := by
    simp [calls, Call.AllAllowed, Call.Allowed, Cell.Accepts, History.objects, service, nameOf, current, ready,
      Asked.among]
  exact ⟨hw, built, hstats, hcalls, lower_writeBeforeRead hw built hlower Nat.one_pos hcalls⟩

end Lowering

end DeferredInit
