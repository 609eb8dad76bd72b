import DeferredInit.Proofs.Machine.Calls
import DeferredInit.Proofs.Machine.Reflexive

/-!
# Two evaluations in lockstep

Where two evaluators are given the same program, the same library and the same state, and differ in nothing but how
deep they may go and how many functions they let run at once, they take the same steps in the same states, as long as
neither is cut short.  A `Course` says what may happen on the way: which halts may occur, and for what the left
evaluator may stop without the right one doing the same.  While an expression is evaluated, the frames are kept
(`FramesKept`), and a call leaves them exactly as it finds them.

`Course.node` says that evaluators go in lockstep at an expression if they do at all that it starts and in the bodies of
functions.  It is proved once and gives an induction for each use: an evaluator compared with itself shows what
can happen in its runs, with an evaluator of a larger limit what the limit does.
-/

namespace DeferredInit

/-- The declaration that a step is about. -/
def Step.target : Step → DeclId
  | callFunction function _ | callMethod function _ _ => function
  | construct cls => cls

/-! ## Frames -/

/-- **Frames that are kept**: as many as there were, of the same functions, and below the innermost one with the same
variables. -/
structure FramesKept (fs gs : List Frame) : Prop where
  functions_eq : gs.map (·.function) = fs.map (·.function)
  callers_eq : gs.tail = fs.tail

namespace FramesKept

variable {fs gs : List Frame}

theorem refl (fs : List Frame) : FramesKept fs fs := ⟨rfl, rfl⟩

theorem length_eq (h : FramesKept fs gs) : gs.length = fs.length := by
  simpa using congrArg List.length h.functions_eq

/-- Where no function runs, none does afterwards. -/
theorem eq_nil (h : FramesKept [] gs) : gs = [] := List.length_eq_zero_iff.1 h.length_eq

/-- To give a variable a value changes the innermost frame at most. -/
theorem setLocal {s : State} (h : FramesKept fs s.frames) (d : DeclId) (v : Value) :
    FramesKept fs (s.setLocal d v).frames := by
  obtain ⟨objects, statics, frames, reads⟩ := s
  cases frames with
  | nil => exact h
  | cons frame rest => exact ⟨h.functions_eq, h.callers_eq⟩

end FramesKept

/-! ## Courses -/

/-- **A course of evaluation**: what may happen while two evaluators go in lockstep. -/
structure Course where
  /-- The halts that may occur. -/
  halts : Halt → Prop
  /-- What the left evaluator may stop for while the right one goes on. -/
  excuse : Stop RuntimeFault → Prop

namespace Course

variable (K : Course)

/-- There is such a node, unless a dangling handle may be met. -/
abbrev Known (p : Program) (n : NodeId) : Prop := K.halts .dangling ∨ p.Has n

/-- How an evaluation may end without a value.  The function that a `return` is from can be looked up. -/
def Ends (p : Program) : Unwind → Prop
  | .ret function _ => K.Known p (.decl function)
  | .fault _ => True
  | .halt h => K.halts h

/-- The comparison of evaluations that start and end in the same state, of which something holds throughout. -/
def evals (p : Program) (I : State → Prop) : Comparison Unwind where
  state s t := s = t ∧ I s
  error u v := u = v ∧ K.Ends p u
  left u := ∃ stop, K.excuse stop ∧ u = stop.unwind
  right _ := False

/-- The comparison of runs that start and end in the same state, of which something holds throughout. -/
def runs (I : State → Prop) : Comparison (Stop RuntimeFault) where
  state s t := s = t ∧ I s
  error a b := a = b ∧ ∀ h, a = .halt h → K.halts h
  left := K.excuse
  right _ := False

/-- The frames of a state are these, or these have been kept. -/
def keeping (fs : List Frame) (s : State) : Prop := FramesKept fs s.frames

/-- The frames of a state are these. -/
def running (fs : List Frame) (s : State) : Prop := s.frames = fs

/-- **Two evaluations that go in lockstep** where these are the frames, and keep them. -/
abbrev InStep {α : Type} (p : Program) (fs : List Frame) (x y : EvalM α) : Prop :=
  Tied (K.evals p (keeping fs)) (· = ·) x y

variable {K} {p : Program} {I : State → Prop} {α : Type} {fs : List Frame}

/-- What is only missed where there is no such node may be missed. -/
theorem Known.halts_of_missing {n : NodeId} (hn : K.Known p n) {h : Halt} (hmissing : h = .dangling ∧ ¬p.Has n) :
    K.halts h := by
  rw [hmissing.1]
  exact hn.resolve_right hmissing.2

theorem Known.evals {n : NodeId} (h : K.Known p n) : (K.evals p I).Known p n := h.imp_left fun h => ⟨rfl, h⟩

/-- A computation that does not fail is in lockstep with itself. -/
theorem quiet {act : EvalM α} (h : ∀ s, I s → ∃ a t, act s = .ok a t ∧ I t) :
    Tied (K.evals p I) (· = ·) act act := by
  rintro s _ ⟨rfl, hs⟩
  obtain ⟨a, t, hact, ht⟩ := h s hs
  rw [hact]
  exact .ok rfl ⟨rfl, ht⟩

/-- Apart from frames, evaluations are in lockstep with themselves. -/
theorem reflexive : (K.evals p (keeping fs)).Reflexive where
  fault _ := ⟨rfl, trivial⟩
  frameless h := quiet fun s hs => by
    obtain ⟨a, t, hact, ht, -⟩ := h s
    exact ⟨a, t, hact, by rw [keeping, ht]; exact hs⟩

theorem halt {h : Halt} (hh : K.halts h) :
    Tied (K.evals p I) (· = ·) (throw (.halt h) : EvalM α) (throw (.halt h)) :=
  .throw ⟨rfl, hh⟩

/-- Runs in lockstep are so as parts of evaluations. -/
theorem evaluated {x y : RunM α} (h : Tied (K.runs I) (· = ·) x y) :
    Tied (K.evals p I) (· = ·) x.evaluated y.evaluated := by
  intro s t hst
  have h := h s t hst
  simp only [RunM.evaluated]
  generalize x s = r, y t = r' at h
  cases h with
  | ok hab hst' => exact .ok hab hst'
  | @error a _ _ _ hab hst' =>
    obtain ⟨rfl, hhalt⟩ := hab
    cases a with
    | fault f => exact .error ⟨rfl, trivial⟩ hst'
    | halt h => exact .error ⟨rfl, hhalt h rfl⟩ hst'
  | @left a _ _ ha =>
    cases a with
    | fault f => exact .left ⟨.fault f, ha, rfl⟩
    | halt h => exact .left ⟨.halt h, ha, rfl⟩
  | right hb => exact hb.elim

/-- While the frames are the same, they are kept. -/
theorem keeping_of_running {gs : List Frame} (hgs : FramesKept fs gs) {s : State} (hs : running gs s) :
    keeping fs s := by
  rw [keeping, show s.frames = gs from hs]
  exact hgs

/-- What leaves any frames as they are keeps them. -/
theorem keeping_of_running_tied {x y : EvalM α}
    (h : ∀ gs, FramesKept fs gs → Tied (K.evals p (running gs)) (· = ·) x y) : K.InStep p fs x y := by
  rintro s _ ⟨rfl, hs⟩
  exact (h s.frames hs s s ⟨rfl, rfl⟩).imp (fun _ _ hst => hst.imp_right (keeping_of_running hs)) (fun _ _ => id)
    (fun _ => id) fun _ => id

/-- Anything may happen, and nothing is excused. -/
def any : Course where
  halts _ := True
  excuse _ := False

/-- Where nothing is excused, lockstep leads to the same result. -/
theorem eq_of_agree {r r' : EStateM.Result (Stop RuntimeFault) State α} (h : Agree (any.runs I) (· = ·) r r') :
    r = r' := by
  cases h with
  | ok hab hst => rw [hab, hst.1]
  | error huv hst => rw [huv.1, hst.1]
  | left hu => exact hu.elim
  | right hv => exact hv.elim

/-! ## Variables -/

section Operations

variable {m : Machine} {enter₁ enter₂ : ExprId → EvalM Value}

theorem getValue {d : DeclId} (hd : K.Known m.program (.decl d)) :
    K.InStep m.program fs (m.getValue d) (m.getValue d) :=
  reflexive.getValue hd.evals (quiet fun s hs => ⟨_, _, EvalM.local?_run d s, hs⟩)

theorem setLocal (d : DeclId) (v : Value) : K.InStep p fs (EvalM.setLocal d v) (EvalM.setLocal d v) :=
  quiet fun s hs => ⟨_, _, EvalM.setLocal_run d v s, hs.setLocal d v⟩

/-! ## Calls -/

/-- **Calls whose bodies end in lockstep** do so, and leave the other frames as they are. -/
theorem finish {gs : List Frame} {frame : Frame} {r r' : EStateM.Result Unwind State Value}
    (h : Agree (K.evals m.program (keeping (frame :: gs))) (· = ·) r r') (function : DeclId) :
    Agree (K.runs (running gs)) (· = ·) (m.finish function r) (m.finish function r') := by
  have hleft {t : State} (ht : keeping (frame :: gs) t) : running gs t.leave := ht.callers_eq
  cases h with
  | @ok v _ t _ hv hst =>
    obtain ⟨rfl, ht⟩ := hst
    subst hv
    exact .ok rfl ⟨rfl, hleft ht⟩
  | @error u _ t _ huv hst =>
    obtain ⟨rfl, ht⟩ := hst
    obtain ⟨rfl, hu⟩ := huv
    cases u with
    | ret target v =>
      by_cases htarget : target = function
      · subst htarget
        rw [m.finish_ret_self]
        exact .ok rfl ⟨rfl, hleft ht⟩
      · rw [m.finish_ret_of_ne htarget]
        exact .error ⟨rfl, fun h hh => Known.halts_of_missing hu (m.strayFault_eq_halt hh)⟩ ⟨rfl, hleft ht⟩
    | fault f => exact .error ⟨rfl, nofun⟩ ⟨rfl, hleft ht⟩
    | halt h => exact .error ⟨rfl, fun _ hh => Stop.halt.inj hh ▸ hu⟩ ⟨rfl, hleft ht⟩
  | left hu =>
    obtain ⟨stop, hexcuse, rfl⟩ := hu
    rw [m.finish_stop]
    exact .left hexcuse
  | right hv => exact hv.elim

/-- How the limits of two machines may differ: not at all, or the lower one on the left is an excuse. -/
def Limits (K : Course) (limit₁ limit₂ : Nat) : Prop :=
  limit₁ = limit₂ ∨ limit₁ ≤ limit₂ ∧ K.excuse (.fault (.callDepthExceeded limit₁))

/-- **A call goes in lockstep** if the body of the function does.  It leaves all frames as they are. -/
theorem invoke {gs : List Frame} {limit : Nat} (hlimit : K.Limits m.maxDepth limit) {function : DeclId}
    (hd : K.Known m.program (.decl function))
    (hbody : gs.length < m.maxDepth → ∀ body, m.program.IsBody body → ∀ frame,
      K.InStep m.program (frame :: gs) (enter₁ body) (enter₂ body))
    (this extension : Option Value) (args : List Value) :
    Tied (K.runs (running gs)) (· = ·) (m.invoke enter₁ function this extension args)
      ((m.withLimit limit).invoke enter₂ function this extension args) := by
  rintro s _ ⟨rfl, hs⟩
  have hs : s.frames = gs := hs
  have hcallee : (m.withLimit limit).callee function args = m.callee function args := rfl
  rw [m.invoke_eq, (m.withLimit limit).invoke_eq, hcallee, hs]
  -- here alone the limits are asked for; past it the two calls have the same way before them
  by_cases hdepth : m.maxDepth ≤ gs.length
  · rw [if_pos hdepth]
    rcases hlimit with rfl | ⟨-, hexcuse⟩
    · rw [if_pos hdepth]
      exact .error ⟨rfl, nofun⟩ ⟨rfl, hs⟩
    · exact .left hexcuse
  have hdepth' : ¬limit ≤ gs.length := by
    rcases hlimit with rfl | ⟨hle, -⟩
    · exact hdepth
    · omega
  rw [if_neg hdepth, if_neg hdepth']
  cases hcalled : m.callee function args with
  | error stop =>
    refine .error ⟨rfl, fun h hh => ?_⟩ ⟨rfl, hs⟩
    subst hh
    rcases Machine.callee_eq_error hcalled with ⟨hh, hmissing⟩ | ⟨D, -, hfault | ⟨f, -, hfault⟩ | hfault⟩
    · exact hd.halts_of_missing ⟨Stop.halt.inj hh, hmissing⟩
    all_goals cases hfault
  | ok called =>
    obtain ⟨f, body⟩ := called
    obtain ⟨D, hD, hf, hbodyf⟩ := Machine.callee_eq_ok hcalled
    have hentered := hbody (by omega) body ⟨function, D, f, hD, hf, hbodyf⟩
      ⟨function, Machine.arguments f this extension args⟩
    refine finish (hentered _ _ ⟨rfl, ?_⟩) function
    rw [keeping, State.enter, hs]
    exact .refl _

/-! ## Nodes -/

/-- **A node goes in lockstep** if what it starts does, and the bodies of functions. -/
theorem node {limit : Nat} (hlimit : K.Limits m.maxDepth limit) (hp : K.halts .dangling ∨ m.program.Closed) {e : ExprId}
    (he : K.Known m.program (.expr e))
    (hstarts : ∀ c, m.program.Starts e c → K.InStep m.program fs (enter₁ c) (enter₂ c))
    (hbody : fs.length < m.maxDepth → ∀ body, m.program.IsBody body → ∀ frame gs, gs.length = fs.length →
      K.InStep m.program (frame :: gs) (enter₁ body) (enter₂ body)) :
    K.InStep m.program fs (m.semantics.node enter₁ e) ((m.withLimit limit).semantics.node enter₂ e) := by
  have hsubject {E : Expr} {d : DeclId} (hE : m.program.expr? e = some E) (hd : E.form.subject? = some d) :
      K.Known m.program (.decl d) := hp.imp_right fun hp => hp.has_of_expr hE (by simp [ExprForm.mentioned, hd])
  have hclosed := hp.imp_left fun h => (⟨rfl, h⟩ : (K.evals m.program (keeping fs)).error (.halt .dangling) _)
  refine reflexive.node limit hclosed he.evals hstarts (fun E d hE hform => ?_) (fun _ d _ _ => setLocal d)
    (fun function this extension args hd => ?_) fun E f value hE hform v => ?_
  · exact getValue (hsubject hE (by rw [hform]; rfl))
  · refine keeping_of_running_tied fun gs hgs => evaluated ?_
    refine invoke hlimit (hd.imp_left And.right) (fun hlt body hb frame => ?_) this extension args
    rw [hgs.length_eq] at hlt
    exact hbody hlt body hb frame gs hgs.length_eq
  · exact ⟨rfl, hsubject hE (by rw [hform]; rfl)⟩

/-! ## Steps -/

/-- **A step goes in lockstep** if what it enters does: the initializers of a class, or the body of a function. -/
theorem takeWith {limit : Nat} (hlimit : K.Limits m.maxDepth limit) (hp : K.halts .dangling ∨ m.program.Closed)
    (step : Step) (hd : K.Known m.program (.decl step.target))
    (hfields : ∀ field c, m.program.fieldInit? field = some c → K.InStep m.program fs (enter₁ c) (enter₂ c))
    (hbody : fs.length < m.maxDepth → ∀ body, m.program.IsBody body → ∀ frame,
      K.InStep m.program (frame :: fs) (enter₁ body) (enter₂ body)) (s : State) (hs : s.frames = fs) :
    Agree (K.runs (keeping fs)) (· = ·) (m.takeWith enter₁ step s) ((m.withLimit limit).takeWith enter₂ step s) := by
  have hcall {x y : RunM Value} (h : Tied (K.runs (running fs)) (· = ·) x y) :
      Agree (K.runs (keeping fs)) (· = ·) (x s) (y s) :=
    (h s s ⟨rfl, hs⟩).imp (fun _ _ hst => hst.imp_right (keeping_of_running (.refl fs))) (fun _ _ => id) (fun _ => id)
      fun _ => id
  cases step with
  | callFunction function args => exact hcall (invoke hlimit hd hbody none none args)
  | callMethod function receiver args => exact hcall (invoke hlimit hd hbody (some receiver) none args)
  | construct cls =>
    have hinstantiate : K.InStep m.program fs (m.instantiate enter₁ cls) ((m.withLimit limit).instantiate enter₂ cls) :=
      reflexive.instantiate (hp.imp_left fun h => ⟨rfl, h⟩) hd.evals fun field _ c hc => hfields field c hc
    have h := hinstantiate s s ⟨rfl, keeping_of_running (.refl fs) hs⟩
    simp only [Machine.takeWith]
    generalize m.instantiate enter₁ cls s = r, (m.withLimit limit).instantiate enter₂ cls s = r' at h
    cases h with
    | ok hab hst => exact .ok hab hst
    | @error u v t t' huv hst =>
      obtain ⟨rfl, hu⟩ := huv
      cases u with
      | ret target v =>
        simp only [m.strayReturn_run, (m.withLimit limit).strayReturn_run]
        exact .error ⟨rfl, fun h hh => Known.halts_of_missing hu (m.strayFault_eq_halt hh)⟩ hst
      | fault f => exact .error ⟨rfl, nofun⟩ hst
      | halt h => exact .error ⟨rfl, fun _ hh => Stop.halt.inj hh ▸ hu⟩ hst
    | left hu =>
      obtain ⟨stop, hexcuse, rfl⟩ := hu
      cases stop <;> exact .left hexcuse
    | right hv => exact hv.elim

end Operations

end Course

end DeferredInit
