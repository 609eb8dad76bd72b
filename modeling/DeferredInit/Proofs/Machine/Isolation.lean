import DeferredInit.Proofs.Machine.Lockstep
import DeferredInit.Proofs.Machine.Memory
import DeferredInit.Proofs.Program.Sample

/-!
# Calls are isolated

An expression is evaluated in the frame of the function that runs innermost, and may change its variables.  It changes
no other frame, and all frames are there when it ends, whether it ends with a value, with a `return` that is still
looking for its function, or with a fault (`eval_keeps`).  A call changes no frame at all: what it does to variables it
does in a frame of its own, which is gone afterwards (`invoke_running`).

So no frame is left over from one step to the next, however the steps have ended, and a function that is called from
outside finds nothing but its receivers and its arguments (`calls_isolated`).
-/

namespace DeferredInit

/-- The state in which a computation ends, with success or without. -/
def State.after {ε α : Type} (s : State) (act : EStateM ε State α) : State :=
  match act s with
  | .ok _ t => t
  | .error _ t => t

/-- The function that a step calls, with its receiver and its arguments. -/
def Step.call? : Step → Option (DeclId × Option Value × List Value)
  | callFunction function args => some (function, none, args)
  | callMethod function receiver args => some (function, some receiver, args)
  | construct _ => none

/-- **Variables that hold nothing but what a function is called with**: each is a receiver or a parameter, and holds
the value that is passed for it. -/
def FunctionDecl.Receives (f : FunctionDecl) (this extension : Option Value) (args : List Value)
    (locals : Table DeclId Value) : Prop :=
  ∀ d v, locals.get? d = some v → f.dispatchReceiver = some d ∧ this = some v ∨
    f.extensionReceiver = some d ∧ extension = some v ∨ (d, v) ∈ f.params.zip args

/-- What the frame of a call holds at first is what the function is called with. -/
theorem Machine.receives_arguments (f : FunctionDecl) (this extension : Option Value) (args : List Value) :
    f.Receives this extension args (arguments f this extension args) := by
  intro d v h
  rcases List.mem_append.1 (Table.mem_of_get?_ofList h) with hreceiver | hparam
  · obtain ⟨⟨param, held⟩, hpair, hholds⟩ := List.mem_filterMap.1 hreceiver
    have hparam : param = some d ∧ held = some v := by
      cases param <;> cases held <;> simp at hholds ⊢
      exact hholds
    rw [hparam.1, hparam.2] at hpair
    rcases List.mem_cons.1 hpair with hthis | hrest
    · obtain ⟨hd, hv⟩ := Prod.mk.inj hthis
      exact .inl ⟨hd.symm, hv.symm⟩
    · obtain ⟨hd, hv⟩ := Prod.mk.inj (List.mem_singleton.1 hrest)
      exact .inr (.inl ⟨hd.symm, hv.symm⟩)
  · exact .inr (.inr hparam)

/-! ## Frames are kept -/

namespace Course

variable {p : Program} {I : State → Prop} {α : Type} {s : State}

/-- What a comparison without excuses says of the states on the left holds where the left computation ends. -/
theorem after_of_agree {ε : Type} {c : Comparison ε} (hstate : ∀ s t, c.state s t → I s) (hleft : ∀ u, ¬c.left u)
    (hright : ∀ v, ¬c.right v) {x y : EStateM ε State α} (h : Agree c (· = ·) (x s) (y s)) : I (s.after x) := by
  rw [State.after]
  generalize x s = r, y s = r' at h
  cases h with
  | ok _ hst => exact hstate _ _ hst
  | error _ hst => exact hstate _ _ hst
  | left hu => exact absurd hu (hleft _)
  | right hv => exact absurd hv (hright _)

/-- A run in lockstep keeps what holds throughout. -/
theorem runs_after {x y : RunM α} (h : Agree (any.runs I) (· = ·) (x s) (y s)) : I (s.after x) :=
  after_of_agree (c := any.runs I) (fun _ _ hst => hst.2) (fun _ => id) (fun _ => id) h

/-- An evaluation in lockstep keeps what holds throughout. -/
theorem evals_after {x y : EvalM α} (h : Tied (any.evals p I) (· = ·) x y) (hs : I s) : I (s.after x) :=
  after_of_agree (c := any.evals p I) (fun _ _ hst => hst.2) (fun _ ⟨_, hexcuse, _⟩ => hexcuse) (fun _ => id)
    (h s s ⟨rfl, hs⟩)

end Course

namespace Machine

open Course (any keeping running runs_after evals_after)

variable (m : Machine)

/-- **An evaluation keeps the frames**, however it ends. -/
theorem eval_keeps (depth : Nat) (e : ExprId) (fs : List Frame) :
    any.InStep m.program fs (m.eval depth e) (m.eval depth e) := by
  induction depth generalizing e fs with
  | zero => exact Course.halt trivial
  | succ depth ih =>
    exact Course.node (.inl rfl) (.inl trivial) (.inl trivial) (fun c _ => ih c fs) fun _ body _ frame gs _ =>
      ih body (frame :: gs)

/-- **A call leaves all frames as they are**, however it ends. -/
theorem invoke_running (depth : Nat) (function : DeclId) (this extension : Option Value) (args : List Value)
    (fs : List Frame) : Tied (any.runs (running fs)) (· = ·) (m.invoke (m.eval depth) function this extension args)
      (m.invoke (m.eval depth) function this extension args) :=
  Course.invoke (.inl rfl) (.inl trivial) (fun _ body _ frame => m.eval_keeps depth body (frame :: fs)) this extension
    args

/-- The states between steps: the one in which nothing has happened yet, and those that steps leave, however they
end. -/
inductive Between : State → Prop
  | start : Between {}
  | step {s : State} (step : Step) : Between s → Between (s.after (m.take step))

/-- **Between steps no function is running.** -/
theorem Between.frames_eq_nil {s : State} (h : m.Between s) : s.frames = [] := by
  induction h with
  | start => rfl
  | @step s step _ ih =>
    rw [← step_depthBound, semantics_step]
    generalize m.depthBound = depth
    have hstep := Course.takeWith (K := any) (m := m) (.inl rfl) (.inl trivial) step (.inl trivial)
      (fun _ c _ => m.eval_keeps depth c []) (fun _ body _ frame => m.eval_keeps depth body [frame]) s ih
    exact FramesKept.eq_nil (runs_after hstep)

/-! ## What a function finds -/

/-- A step that calls a function is a call of it. -/
theorem take_of_call? {step : Step} {function : DeclId} {this : Option Value} {args : List Value}
    (h : step.call? = some (function, this, args)) : m.take step = m.invoke m.evaluate function this none args := by
  cases step with
  | construct cls => cases h
  | _ =>
    cases h
    rfl

/-- **Calls are isolated.**  To evaluate an expression keeps the frames, and a call leaves all of them as they are,
whether it is made by an expression or from outside.  Between steps no function is running, however the steps have
ended, so the body of a function that is called next is evaluated in a single frame, that of its arguments, and this
holds nothing but what the function is called with. -/
theorem calls_isolated :
    (∀ depth e (s : State), FramesKept s.frames (s.after (m.eval depth e)).frames) ∧
    (∀ depth function this extension args (s : State),
      (s.after (m.invoke (m.eval depth) function this extension args)).frames = s.frames ∧
      (s.after (m.call (m.eval depth) (.declared function) this extension args)).frames = s.frames) ∧
    ∀ s, m.Between s → s.frames = [] ∧
      ∀ step function this args D f body, step.call? = some (function, this, args) →
        m.program.decl? function = some D → D.form = .function f → f.body = some body →
        f.params.length = args.length → 0 < m.maxDepth →
        f.Receives this none args (arguments f this none args) ∧
          m.take step s =
            m.finish function (m.evaluate body { s with frames := [⟨function, arguments f this none args⟩] }) := by
  refine ⟨fun depth e s => evals_after (m.eval_keeps depth e s.frames) (.refl s.frames),
    fun depth function this extension args s => ?_, fun s hs => ?_⟩
  · have hinvoke := m.invoke_running depth function this extension args s.frames
    exact ⟨runs_after (hinvoke s s ⟨rfl, rfl⟩), evals_after (p := m.program) (Course.evaluated hinvoke) rfl⟩
  · have hnil := hs.frames_eq_nil
    refine ⟨hnil, fun step function this args D f body hcall hD hf hbody harity hpos => ?_⟩
    refine ⟨receives_arguments f this none args, ?_⟩
    rw [m.take_of_call? hcall, m.invoke_eq_finish m.evaluate (by rw [hnil]; exact hpos) hD hf hbody harity, State.enter,
      hnil]

/-- In the sample program, a query finds no variable that a greeting before it has left behind. -/
theorem calls_isolated_sample :
    let m : Machine := ⟨sample, Library.standard, 256⟩
    let s := State.after {} (m.take (.callFunction ⟨6⟩ []))
    m.Between s ∧ s.frames = [] ∧
      m.take (.callFunction ⟨5⟩ []) s = m.finish ⟨5⟩ (m.evaluate ⟨7⟩ { s with frames := [⟨⟨5⟩, ∅⟩] }) := by
  intro m s
  have hs : m.Between s := .step (.callFunction ⟨6⟩ []) .start
  obtain ⟨hframes, hnext⟩ := (calls_isolated m).2.2 s hs
  let probe : FunctionDecl := { returnType := .boolean, body := some ⟨7⟩ }
  obtain ⟨-, htake⟩ := hnext (.callFunction ⟨5⟩ []) ⟨5⟩ none []
    { name := "probe", span := ⟨4, 1, 5⟩, form := .function probe } probe ⟨7⟩ rfl rfl rfl rfl rfl (by decide)
  exact ⟨hs, hframes, htake⟩

end Machine

end DeferredInit
