import DeferredInit.Proofs.Machine.Semantics

/-!
# What a call comes to

A call is refused before anything is evaluated, or the body of the function is evaluated in a frame of its own.  That
depends on how many functions are running, and apart from this on the function and the number of arguments alone
(`Machine.callee`).  What becomes of the call then depends on how the body ends, and where a `return` goes to
(`Machine.finish`).  Whatever there is to say of calls starts from here (`Machine.invoke_eq`).
-/

namespace DeferredInit

namespace State

/-- The state in which one more function is running. -/
def enter (s : State) (frame : Frame) : State := { s with frames := frame :: s.frames }

/-- The state in which the innermost function is not running any longer. -/
def leave (s : State) : State := { s with frames := s.frames.tail }

end State

namespace Machine

variable (m : Machine)

/-! ## Where a return goes to -/

/-- The fault of a `return` that does not end the call in which it is executed. -/
def strayFault (function : DeclId) : Stop RuntimeFault :=
  match m.program.decl? function with
  | some decl => .fault (.unexpectedDecl decl.name "function on the call stack")
  | none => .halt .dangling

/-- **What becomes of a call** once the body has ended in the frame of the call, which is left. -/
def finish (function : DeclId) : EStateM.Result Unwind State Value → EStateM.Result (Stop RuntimeFault) State Value
  | .ok v t => .ok v t.leave
  | .error (.ret target v) t =>
    if target = function then .ok v t.leave else (do throw (.fault (← m.strayReturn target)) : RunM Value) t.leave
  | .error (.fault f) t => .error (.fault f) t.leave
  | .error (.halt h) t => .error (.halt h) t.leave

/-- A `return` that does not end its call is a fault. -/
theorem strayReturn_run (function : DeclId) (s : State) :
    (do throw (.fault (← m.strayReturn function)) : RunM Value) s = .error (m.strayFault function) s := by
  simp only [strayReturn, strayFault, bind, EStateM.bind]
  cases m.program.decl? function <;> rfl

theorem strayFault_eq_halt {function : DeclId} {h : Halt} (hstray : m.strayFault function = .halt h) :
    h = .dangling ∧ ¬m.program.Has (.decl function) := by
  unfold strayFault at hstray
  cases hD : m.program.decl? function with
  | some D =>
    rw [hD] at hstray
    cases hstray
  | none =>
    rw [hD] at hstray
    exact ⟨(Stop.halt.inj hstray).symm, Program.not_has_of_decl? hD⟩

/-- A `return` that names the function ends the call of it. -/
theorem finish_ret_self (function : DeclId) (v : Value) (t : State) :
    m.finish function (.error (.ret function v) t) = .ok v t.leave := if_pos rfl

/-- A `return` that names another function is a fault. -/
theorem finish_ret_of_ne {function target : DeclId} (h : target ≠ function) (v : Value) (t : State) :
    m.finish function (.error (.ret target v) t) = .error (m.strayFault target) t.leave := by
  rw [finish, if_neg h, strayReturn_run]

/-- What is no `return` ends one call more. -/
theorem finish_stop (function : DeclId) (stop : Stop RuntimeFault) (t : State) :
    m.finish function (.error stop.unwind t) = .error stop t.leave := by
  cases stop <;> rfl

/-! ## Whether a call is refused -/

/-- **The function that is called**, with its body, if it can be called with these arguments, and what the call is
refused for otherwise. -/
def callee (function : DeclId) (args : List Value) : Except (Stop RuntimeFault) (FunctionDecl × ExprId) :=
  match m.program.decl? function with
  | none => .error (.halt .dangling)
  | some D =>
    match D.form.function? with
    | none => .error (.fault (.unexpectedDecl D.name "function"))
    | some f =>
      if f.params.length ≠ args.length then .error (.fault (.arityMismatch D.name f.params.length args.length))
      else
        match f.body with
        | none => .error (.fault (.noBody D.name))
        | some body => .ok (f, body)

variable {m} {function : DeclId} {args : List Value}

/-- The function that is called is one of the program. -/
theorem callee_eq_ok {f : FunctionDecl} {body : ExprId} (h : m.callee function args = .ok (f, body)) :
    ∃ D, m.program.decl? function = some D ∧ D.form = .function f ∧ f.body = some body := by
  unfold callee at h
  cases hD : m.program.decl? function with
  | none =>
    rw [hD] at h
    cases h
  | some D =>
    rw [hD] at h
    refine ⟨D, rfl, ?_⟩
    cases hform : D.form <;> simp only [hform, DeclForm.function?, reduceCtorEq] at h
    split at h
    · cases h
    · split at h
      · cases h
      · next hbody =>
        obtain ⟨rfl, rfl⟩ := Prod.mk.inj (Except.ok.inj h)
        exact ⟨rfl, hbody⟩

/-- **What a call is refused for.** -/
theorem callee_eq_error {stop : Stop RuntimeFault} (h : m.callee function args = .error stop) :
    stop = .halt .dangling ∧ ¬m.program.Has (.decl function) ∨
      ∃ D, m.program.decl? function = some D ∧ (stop = .fault (.unexpectedDecl D.name "function") ∨
        (∃ f, D.form = .function f ∧ stop = .fault (.arityMismatch D.name f.params.length args.length)) ∨
        stop = .fault (.noBody D.name)) := by
  unfold callee at h
  cases hD : m.program.decl? function with
  | none =>
    rw [hD] at h
    exact .inl ⟨(Except.error.inj h).symm, Program.not_has_of_decl? hD⟩
  | some D =>
    refine .inr ⟨D, rfl, ?_⟩
    simp only [hD] at h
    cases hf : D.form.function? with
    | none =>
      rw [hf] at h
      exact .inl (Except.error.inj h).symm
    | some f =>
      have hform : D.form = .function f := by cases hform : D.form <;> simp_all [DeclForm.function?]
      simp only [hf] at h
      split at h
      · exact .inr (.inl ⟨f, hform, (Except.error.inj h).symm⟩)
      · split at h
        · exact .inr (.inr (Except.error.inj h).symm)
        · cases h

theorem callee_of_body {D : Decl} {f : FunctionDecl} {body : ExprId} (hD : m.program.decl? function = some D)
    (hf : D.form = .function f) (hbody : f.body = some body) (harity : f.params.length = args.length) :
    m.callee function args = .ok (f, body) := by
  simp only [callee, hD, hf, DeclForm.function?, harity, ne_eq, not_true_eq_false, if_false, hbody]

/-! ## Calls -/

variable (m)

/-- **What a call comes to**, given what the body does. -/
theorem invokeWith_eq_finish {body : FunctionDecl → Option (EvalM Value)} {D : Decl} {f : FunctionDecl}
    {run : EvalM Value} {this extension : Option Value} {s : State} (hdepth : s.frames.length < m.maxDepth)
    (hD : m.program.decl? function = some D) (hf : D.form = .function f) (harity : f.params.length = args.length)
    (hbody : body f = some run) :
    m.invokeWith body function this extension args s =
      m.finish function (run (s.enter ⟨function, arguments f this extension args⟩)) := by
  have hrunning : ¬m.maxDepth ≤ s.frames.length := by omega
  simp only [invokeWith, bind, EStateM.bind, RunM.get_run, if_neg hrunning, pure, hD, DeclForm.function?, hf, harity,
    ne_eq, not_true_eq_false, if_false, hbody, RunM.inFrame, State.enter]
  generalize run _ = r
  cases r with
  | ok v t => rfl
  | error u t =>
    cases u with
    | ret target v =>
      simp only [finish]
      split <;> rfl
    | _ => rfl

/-- **What a call comes to**: it is refused, and then nothing happens, or the body is evaluated in a frame of its
own. -/
theorem invoke_eq (enter : ExprId → EvalM Value) (function : DeclId) (this extension : Option Value) (args : List Value)
    (s : State) :
    m.invoke enter function this extension args s =
      if m.maxDepth ≤ s.frames.length then .error (.fault (.callDepthExceeded m.maxDepth)) s
      else match m.callee function args with
        | .error stop => .error stop s
        | .ok (f, body) => m.finish function (enter body (s.enter ⟨function, arguments f this extension args⟩)) := by
  by_cases hdepth : m.maxDepth ≤ s.frames.length
  · simp only [invoke, invokeWith, bind, EStateM.bind, RunM.get_run, if_pos hdepth]
    rfl
  rw [if_neg hdepth]
  cases hD : m.program.decl? function with
  | none =>
    simp only [invoke, invokeWith, callee, bind, EStateM.bind, RunM.get_run, if_neg hdepth, hD]
    rfl
  | some D =>
    cases hf : D.form.function? with
    | none =>
      simp only [invoke, invokeWith, callee, bind, EStateM.bind, RunM.get_run, if_neg hdepth, hD, hf]
      rfl
    | some f =>
      by_cases harity : f.params.length ≠ args.length
      · simp only [invoke, invokeWith, callee, bind, EStateM.bind, RunM.get_run, if_neg hdepth, hD, hf, if_pos harity]
        rfl
      cases hbody : f.body with
      | none =>
        simp only [invoke, invokeWith, callee, bind, EStateM.bind, RunM.get_run, if_neg hdepth, hD, hf, if_neg harity,
          hbody]
        rfl
      | some body =>
        have hform : D.form = .function f := by cases hform : D.form <;> simp_all [DeclForm.function?]
        have harity := not_not.1 harity
        rw [callee_of_body hD hform hbody harity]
        exact m.invokeWith_eq_finish (by omega) hD hform harity (by rw [hbody]; rfl)

/-- **A call evaluates the body in a frame of its own**, and ends as that does. -/
theorem invoke_eq_finish (enter : ExprId → EvalM Value) {function : DeclId} {D : Decl} {f : FunctionDecl}
    {body : ExprId} {this extension : Option Value} {args : List Value} {s : State}
    (hdepth : s.frames.length < m.maxDepth) (hD : m.program.decl? function = some D) (hf : D.form = .function f)
    (hbody : f.body = some body) (harity : f.params.length = args.length) :
    m.invoke enter function this extension args s =
      m.finish function (enter body (s.enter ⟨function, arguments f this extension args⟩)) := by
  have hrunning : ¬m.maxDepth ≤ s.frames.length := by omega
  rw [invoke_eq, if_neg hrunning, callee_of_body hD hf hbody harity]

end Machine

end DeferredInit
