import DeferredInit.Proofs.Machine.Isolation
import DeferredInit.Proofs.Machine.Logged

/-!
# What happens during a step

A recorded machine takes the same steps as the machine, and writes down what happens on the way: which `return`s are
executed, how calls end, and what becomes of static fields.  Each entry has the functions that are running at that
moment.  `Recorded` has one function for each operation that starts code elsewhere, in the words of the machine's own,
and leaves all the others to the machine.

The record changes nothing: a recorded step erases to the step (`Recorded.take_erases`).
-/

namespace DeferredInit

/-- **What happens during a step.** -/
inductive Event where
  /-- A `return` is executed. -/
  | returns (function : DeclId) (value : Value)
  /-- A call of a function ends. -/
  | ends (function : DeclId) (outcome : Except (Stop RuntimeFault) Value)
  /-- A static field is read. -/
  | loads (field : DeclId) (value : Value)
  /-- A static field is given its initial content. -/
  | initializes (field : DeclId) (value : Value)
  /-- A static field is stored into. -/
  | stores (field : DeclId) (value : Value)
deriving DecidableEq

/-- An event, with the functions that are running when it happens, innermost first. -/
structure Entry where
  running : List DeclId
  event : Event
deriving DecidableEq

/-- The functions that are running, innermost first. -/
def State.running (s : State) : List DeclId := s.frames.map (·.function)

namespace LogM

variable {ε : Type}

/-- Writes down an event. -/
def record (event : Event) : LogM Entry ε Unit := fun l => .ok () { l with log := l.log ++ [⟨l.state.running, event⟩] }

/-- A recorded run as part of a recorded evaluation. -/
def evaluated {ι α : Type} (act : LogM ι (Stop RuntimeFault) α) : LogM ι Unwind α := fun l =>
  match act l with
  | .ok a l => .ok a l
  | .error (.fault f) l => .error (.fault f) l
  | .error (.halt h) l => .error (.halt h) l

theorem Erases.record (event : Event) : Erases (LogM.record event : LogM Entry ε Unit) (Pure.pure ()) := fun _ => rfl

theorem Erases.evaluated {ι α : Type} {x : LogM ι (Stop RuntimeFault) α} {y : RunM α} (h : Erases x y) :
    Erases (LogM.evaluated x) y.evaluated := by
  intro l
  have hl := h l
  unfold LogM.evaluated RunM.evaluated
  rw [← hl]
  cases x l with
  | ok a l' => rfl
  | error u l' => cases u <;> rfl

end LogM

namespace Machine

variable (m : Machine)

/-- **What a call comes to** when its body has ended. -/
def outcome (function : DeclId) : Except Unwind Value → Except (Stop RuntimeFault) Value
  | .ok v => .ok v
  | .error (.ret target v) => if target = function then .ok v else .error (m.strayFault target)
  | .error (.fault f) => .error (.fault f)
  | .error (.halt h) => .error (.halt h)

end Machine

/-- An outcome in a state. -/
def Logged.result {ι ε α : Type} (l : Logged ι) : Except ε α → EStateM.Result ε (Logged ι) α
  | .ok a => .ok a l
  | .error u => .error u l

namespace Recorded

open LogM (record)

variable (m : Machine) (enter : ExprId → LogM Entry Unwind Value)

/-- Stores a field's initial content, if the field has an initializer. -/
def initField (fields : Table DeclId Value) (member : DeclId) : LogM Entry Unwind (Table DeclId Value) := do
  match ← liftM (m.storageOf member) with
  | none => return fields
  | some field =>
    match (← liftM (m.decl field)).form.field?.bind (·.initializer) with
    | none => return fields
    | some init => return fields.insert field (← enter init)

/-- Makes an instance of a class, member by member. -/
def instantiate (cls : DeclId) : LogM Entry Unwind Value := do
  let decl ← liftM (m.decl cls)
  match decl.form.cls? with
  | none => liftM (EvalM.fail (.unexpectedDecl decl.name "class") : EvalM Value)
  | some c => do
    let fields ← c.members.foldlM (initField m enter) ∅
    liftM (EvalM.newObject (some cls) fields)

/-- What a static field holds; the first to ask has it initialized. -/
def staticField (field : DeclId) (decl : Decl) : LogM Entry Unwind Value := do
  match ← liftM (EvalM.static? field) with
  | some v => do
    record (.loads field v)
    return v
  | none => do
    let v ← match decl.form.field?.bind (·.initializer) with
      | some init => enter init
      | none => pure .null
    liftM (EvalM.writeStatic field v)
    record (.initializes field v)
    record (.loads field v)
    return v

/-- Brings a variable into being. -/
def declare (d : DeclId) : LogM Entry Unwind Unit := do
  match (← liftM (m.decl d)).form.var?.bind (·.initializer) with
  | none => return ()
  | some init => do
    let v ← enter init
    liftM (EvalM.setLocal d v)

/-- Reads a field. -/
def loadField (field : DeclId) (receiver : Option Value) : LogM Entry Unwind Value := do
  liftM EvalM.countRead
  let decl ← liftM (m.decl field)
  if decl.modifiers.isStatic then staticField enter field decl
  else liftM (do EvalM.readField (← Machine.instanceOf decl "field read" receiver) field : EvalM Value)

/-- Stores into a field. -/
def storeField (field : DeclId) (receiver : Option Value) (v : Value) : LogM Entry Unwind Unit := do
  let decl ← liftM (m.decl field)
  if decl.modifiers.isStatic then do
    liftM (EvalM.writeStatic field v)
    record (.stores field v)
  else liftM (do EvalM.writeField (← Machine.instanceOf decl "field write" receiver) field v : EvalM Unit)

/-- Runs the body of a function in a frame of its own.  How the call ends is written down before the frame is left. -/
def inFrame (frame : Frame) (body : LogM Entry Unwind Value) : LogM Entry (Stop RuntimeFault) Value := fun l =>
  let leave (l : Logged Entry) (outcome : Except (Stop RuntimeFault) Value) :=
    Logged.result ⟨l.state.leave, l.log ++ [⟨l.state.running, .ends frame.function outcome⟩]⟩ outcome
  match body { l with state := l.state.enter frame } with
  | .ok v l => leave l (m.outcome frame.function (.ok v))
  | .error u l => leave l (m.outcome frame.function (.error u))

/-- Calls a function. -/
def invoke (function : DeclId) (this extension : Option Value) (args : List Value) :
    LogM Entry (Stop RuntimeFault) Value := do
  if m.maxDepth ≤ (← get).state.frames.length then throw (.fault (.callDepthExceeded m.maxDepth))
  let some decl := m.program.decl? function | throw (.halt .dangling)
  let some f := decl.form.function? | throw (.fault (.unexpectedDecl decl.name "function"))
  if f.params.length ≠ args.length then
    throw (.fault (.arityMismatch decl.name f.params.length args.length))
  let some body := f.body | throw (.fault (.noBody decl.name))
  inFrame m ⟨function, Machine.arguments f this extension args⟩ (enter body)

/-- Evaluates one node. -/
def node (e : ExprId) : LogM Entry Unwind Value := do
  let node ← liftM (m.expr e)
  match node.form with
  | .declare d => do
    declare m enter d
    return .unit
  | .getField field receiver => do
    let receiver ← Operations.evalOption enter receiver
    loadField m enter field receiver
  | .setField field receiver value => do
    let receiver ← Operations.evalOption enter receiver
    let v ← enter value
    storeField m field receiver v
    return .unit
  | .call (.declared function) dispatch extension args => do
    let this ← Operations.evalOption enter dispatch
    let extension ← Operations.evalOption enter extension
    let args ← Operations.evalList enter args
    (invoke m enter function this extension args).evaluated
  | .construct cls => instantiate m enter cls
  | .ret function value => do
    let v ← Operations.evalOption enter value
    record (.returns function (v.getD .unit))
    throw (.ret function (v.getD .unit))
  -- nothing else starts code elsewhere
  | form => (m.operations fun _ => throw (.halt .exhausted)).evalNode enter form

/-- **Evaluates an expression**, going no deeper than a depth. -/
def eval : Nat → ExprId → LogM Entry Unwind Value
  | 0, _ => throw (.halt .exhausted)
  | depth + 1, e => node m (eval depth) e

/-- Makes an instance of a class from outside. -/
def construct (cls : DeclId) : LogM Entry (Stop RuntimeFault) Value := fun l =>
  match instantiate m enter cls l with
  | .ok v l => .ok v l
  | .error (.ret target _) l => .error (m.strayFault target) l
  | .error (.fault f) l => .error (.fault f) l
  | .error (.halt h) l => .error (.halt h) l

/-- **Takes a step.** -/
def take : Step → LogM Entry (Stop RuntimeFault) Value
  | .callFunction function args => invoke m (eval m m.depthBound) function none none args
  | .callMethod function receiver args => invoke m (eval m m.depthBound) function (some receiver) none args
  | .construct cls => construct m (eval m m.depthBound) cls

/-! ## The record changes nothing -/

open LogM (Erases erase)

section Operations

variable {m enter} {plain : ExprId → EvalM Value} (h : ∀ c, Erases (enter c) (plain c))

include h in
theorem initField_erases (fields : Table DeclId Value) (member : DeclId) :
    Erases (initField m enter fields member) (m.initField plain fields member) := by
  refine (Erases.lift _).bind fun field => ?_
  cases field with
  | none => exact .pure _
  | some field =>
    refine (Erases.lift _).bind fun decl => ?_
    cases decl.form.field?.bind (·.initializer) with
    | none => exact .pure _
    | some init => exact (h init).bind fun v => .pure _

include h in
theorem instantiate_erases (cls : DeclId) : Erases (instantiate m enter cls) (m.instantiate plain cls) := by
  refine (Erases.lift _).bind fun decl => ?_
  cases decl.form.cls? with
  | none => exact .lift _
  | some c =>
    have hmembers (members : List DeclId) (fields : Table DeclId Value) :
        Erases (members.foldlM (initField m enter) fields) (members.foldlM (m.initField plain) fields) := by
      induction members generalizing fields with
      | nil => exact .pure fields
      | cons member rest ih =>
        rw [List.foldlM_cons, List.foldlM_cons]
        exact (initField_erases h fields member).bind fun fields => ih fields
    exact (hmembers c.members ∅).bind fun fields => .lift _

include h in
theorem staticField_erases (field : DeclId) (decl : Decl) :
    Erases (staticField enter field decl) (Machine.staticField plain field decl) := by
  refine (Erases.lift _).bind fun held => ?_
  cases held with
  | some v => exact (Erases.record _).bind fun _ => .pure v
  | none =>
    have hstore (v : Value) : Erases (do
          liftM (EvalM.writeStatic field v)
          record (.initializes field v)
          record (.loads field v)
          return v : LogM Entry Unwind Value) (do EvalM.writeStatic field v; return v) :=
      (Erases.lift _).bind fun _ => (Erases.record _).bind fun _ => (Erases.record _).bind fun _ => .pure v
    cases decl.form.field?.bind (·.initializer) with
    | none => exact (Erases.pure _).bind hstore
    | some init => exact (h init).bind hstore

include h in
theorem declare_erases (d : DeclId) : Erases (declare m enter d) (m.declare plain d) := by
  refine (Erases.lift _).bind fun decl => ?_
  cases decl.form.var?.bind (·.initializer) with
  | none => exact .pure ()
  | some init => exact (h init).bind fun v => .lift _

include h in
theorem loadField_erases (field : DeclId) (receiver : Option Value) :
    Erases (loadField m enter field receiver) (m.loadField plain field receiver) := by
  refine (Erases.lift _).bind fun _ => (Erases.lift _).bind fun decl => ?_
  split
  · exact staticField_erases h field decl
  · exact .lift _

theorem storeField_erases (field : DeclId) (receiver : Option Value) (v : Value) :
    Erases (storeField m field receiver v) (m.storeField field receiver v) := by
  refine (Erases.lift _).bind fun decl => ?_
  split
  · exact (Erases.lift _).bind fun _ => .record _
  · exact .lift _

/-- A call that is recorded comes to what the machine makes of the end of its body. -/
theorem inFrame_erases {body : LogM Entry Unwind Value} {plain : EvalM Value} (h : Erases body plain) (frame : Frame)
    (l : Logged Entry) : erase (inFrame m frame body l) = m.finish frame.function (plain (l.state.enter frame)) := by
  have hbody := h { l with state := l.state.enter frame }
  unfold inFrame
  rw [← hbody]
  cases body { l with state := l.state.enter frame } with
  | ok v l' => rfl
  | error u l' =>
    cases u with
    | ret target v =>
      by_cases htarget : target = frame.function
      · simp only [Machine.outcome, Machine.finish, erase, if_pos htarget, Logged.result]
      · simp only [Machine.outcome, Machine.finish, erase, if_neg htarget, m.strayReturn_run, Logged.result]
    | fault f => rfl
    | halt halt => rfl

/-- A fault that says that a function is not on the call stack. -/
def IsStray (stop : Stop RuntimeFault) : Prop := ∃ name, stop = .fault (.unexpectedDecl name "function on the call stack")

/-- **What a recorded call comes to**: it is refused as the call is, or the body is evaluated in a frame of its own. -/
theorem invoke_eq (m : Machine) (enter : ExprId → LogM Entry Unwind Value) (function : DeclId)
    (this extension : Option Value) (args : List Value) (l : Logged Entry) :
    invoke m enter function this extension args l =
      if m.maxDepth ≤ l.state.frames.length then .error (.fault (.callDepthExceeded m.maxDepth)) l
      else match m.callee function args with
        | .error stop => .error stop l
        | .ok (f, body) => inFrame m ⟨function, Machine.arguments f this extension args⟩ (enter body) l := by
  have hget : (get : LogM Entry (Stop RuntimeFault) (Logged Entry)) l = .ok l l := rfl
  by_cases hdepth : m.maxDepth ≤ l.state.frames.length
  · simp only [invoke, bind, EStateM.bind, hget, if_pos hdepth]
    rfl
  rw [if_neg hdepth]
  cases hD : m.program.decl? function with
  | none =>
    simp only [invoke, Machine.callee, bind, EStateM.bind, hget, if_neg hdepth, hD]
    rfl
  | some D =>
    cases hf : D.form.function? with
    | none =>
      simp only [invoke, Machine.callee, bind, EStateM.bind, hget, if_neg hdepth, hD, hf]
      rfl
    | some f =>
      by_cases harity : f.params.length ≠ args.length
      · simp only [invoke, Machine.callee, bind, EStateM.bind, hget, if_neg hdepth, hD, hf, if_pos harity]
        rfl
      cases hbody : f.body with
      | none =>
        simp only [invoke, Machine.callee, bind, EStateM.bind, hget, if_neg hdepth, hD, hf, if_neg harity, hbody]
        rfl
      | some body =>
        simp only [invoke, Machine.callee, bind, EStateM.bind, hget, if_neg hdepth, hD, hf, if_neg harity, hbody]

/-- No call is refused because of a `return`. -/
theorem not_isStray_of_callee {function : DeclId} {args : List Value} {stop : Stop RuntimeFault}
    (h : m.callee function args = .error stop) : ¬IsStray stop := by
  rintro ⟨name, rfl⟩
  rcases Machine.callee_eq_error h with ⟨hstray, -⟩ | ⟨D, -, hstray | ⟨f, -, hstray⟩ | hstray⟩
  all_goals simp at hstray

/-- **A call is refused**, and then nothing happens, **or the body of the function is evaluated** in a frame of its
own. -/
theorem invoke_cases (m : Machine) (enter : ExprId → LogM Entry Unwind Value) (function : DeclId)
    (this extension : Option Value) (args : List Value) (l : Logged Entry) :
    (∃ stop, ¬IsStray stop ∧ invoke m enter function this extension args l = .error stop l) ∨
    ∃ D f body, m.program.decl? function = some D ∧ D.form = .function f ∧ f.body = some body ∧
      invoke m enter function this extension args l =
        inFrame m ⟨function, Machine.arguments f this extension args⟩ (enter body) l := by
  rw [invoke_eq]
  by_cases hdepth : m.maxDepth ≤ l.state.frames.length
  · exact .inl ⟨.fault (.callDepthExceeded m.maxDepth), nofun, if_pos hdepth⟩
  rw [if_neg hdepth]
  cases hcallee : m.callee function args with
  | error stop => exact .inl ⟨stop, not_isStray_of_callee hcallee, rfl⟩
  | ok called =>
    obtain ⟨f, body⟩ := called
    obtain ⟨D, hD, hf, hbody⟩ := Machine.callee_eq_ok hcallee
    exact .inr ⟨D, f, body, hD, hf, hbody, rfl⟩

include h in
theorem invoke_erases (function : DeclId) (this extension : Option Value) (args : List Value) :
    Erases (invoke m enter function this extension args) (m.invoke plain function this extension args) := by
  intro l
  rw [invoke_eq, m.invoke_eq]
  by_cases hdepth : m.maxDepth ≤ l.state.frames.length
  · rw [if_pos hdepth, if_pos hdepth]
    rfl
  rw [if_neg hdepth, if_neg hdepth]
  cases m.callee function args with
  | error stop => rfl
  | ok called => exact inFrame_erases (h called.2) _ l

include h in
/-- **A node erases** to the node, if what it enters does. -/
theorem node_erases (e : ExprId) : Erases (node m enter e) (m.semantics.node plain e) := by
  refine (Erases.lift _).bind fun E => ?_
  have hplain (ops : Operations) := Erases.evalNode h ops E.form
  cases hform : E.form with
  | declare d => exact (declare_erases h d).bind fun _ => .pure _
  | getField field receiver => exact (Erases.evalOption h receiver).bind fun this => loadField_erases h field this
  | setField field receiver value =>
    exact (Erases.evalOption h receiver).bind fun this => (h value).bind fun v =>
      (storeField_erases field this v).bind fun _ => .pure _
  | call callee dispatch extension args =>
    cases callee with
    | library hash =>
      rw [hform] at hplain
      exact hplain (m.operations plain)
    | declared function =>
      exact (Erases.evalOption h dispatch).bind fun this => (Erases.evalOption h extension).bind fun ext =>
        (Erases.evalList h args).bind fun args => (invoke_erases h function this ext args).evaluated
  | construct cls => exact instantiate_erases h cls
  | ret function value =>
    exact (Erases.evalOption h value).bind fun v => (Erases.record _).bind fun _ => .throw _
  | _ =>
    rw [hform] at hplain
    exact hplain (m.operations plain)

end Operations

/-- **A recorded evaluation erases** to the evaluation. -/
theorem eval_erases (m : Machine) (depth : Nat) (e : ExprId) : Erases (eval m depth e) (m.eval depth e) := by
  induction depth generalizing e with
  | zero => exact .throw _
  | succ depth ih => exact node_erases ih e

/-- **A recorded step erases** to the step. -/
theorem take_erases (m : Machine) (step : Step) : Erases (take m step) (m.take step) := by
  have heval (e : ExprId) : Erases (eval m m.depthBound e) (m.evaluate e) := eval_erases m m.depthBound e
  cases step with
  | callFunction function args => exact invoke_erases heval function none none args
  | callMethod function receiver args => exact invoke_erases heval function (some receiver) none args
  | construct cls =>
    intro l
    have h := instantiate_erases (m := m) heval cls l
    simp only [take, construct, Machine.take, Machine.construct]
    rw [← h]
    cases instantiate m (eval m m.depthBound) cls l with
    | ok v l' => rfl
    | error u l' =>
      cases u with
      | ret target v =>
        simp only [erase, m.strayReturn_run]
      | fault f => rfl
      | halt halt => rfl

end Recorded

end DeferredInit
