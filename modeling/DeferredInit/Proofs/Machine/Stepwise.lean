import DeferredInit.Proofs.Machine.Compositional

/-!
# What recorded evaluations go along

What is true of a state and its record before an evaluation is related to what is true of them afterwards, and many such
relations hold because each single step goes along them.  A relation is `Stepwise` if it goes on from one step to the
next, and does not mind steps that have nothing to do with static fields.  An evaluation of a node goes along such a
relation, however it ends, if that is so of what the node starts and calls, and of what it does to the static field that
it accesses (`Along.node`).
-/

namespace DeferredInit

/-- **A computation that leaves static fields as they are.** -/
def Spares {α : Type} (y : EvalM α) : Prop := ∀ s : State, (s.after y).statics = s.statics

theorem Detached.spares {α : Type} {y : EvalM α} (h : Detached y) : Spares y := by
  intro s
  have hs := h s
  unfold State.after
  generalize y s = r at hs
  cases r with
  | ok a t => exact hs.1
  | error u t => exact hs.1.1

/-! ## Relations between records -/

/-- **A relation that goes on from one step to the next**, whatever these do apart from static fields. -/
structure Stepwise (R : Logged Entry → Logged Entry → Prop) : Prop where
  /-- Nothing is written down, and static fields stay as they are. -/
  silent : ∀ (l : Logged Entry) (t : State), t.statics = l.state.statics → R l ⟨t, l.log⟩
  /-- A `return` is executed. -/
  returns : ∀ (l : Logged Entry) (t : State) (running : List DeclId) (f : DeclId) (v : Value),
    t.statics = l.state.statics → R l ⟨t, l.log ++ [⟨running, .returns f v⟩]⟩
  /-- A call ends. -/
  ends : ∀ (l : Logged Entry) (t : State) (running : List DeclId) (f : DeclId)
    (outcome : Except (Stop RuntimeFault) Value),
    t.statics = l.state.statics → R l ⟨t, l.log ++ [⟨running, .ends f outcome⟩]⟩
  trans : ∀ {l l' l'' : Logged Entry}, R l l' → R l' l'' → R l l''

/-- **A computation goes along a relation**, however it ends. -/
def Along (R : Logged Entry → Logged Entry → Prop) {ε α : Type} (x : LogM Entry ε α) : Prop :=
  ∀ l, R l (LogM.final (x l))

namespace Along

variable {R : Logged Entry → Logged Entry → Prop} {ε α β : Type}

theorem evaluated {x : LogM Entry (Stop RuntimeFault) α} (hx : Along R x) : Along R (LogM.evaluated x) := by
  intro l
  have h := hx l
  unfold LogM.evaluated
  generalize x l = r at h
  cases r with
  | ok a l' => exact h
  | error stop l' => cases stop <;> exact h

section Closure

variable (hR : Stepwise R)
include hR

theorem pure (a : α) : Along R (Pure.pure a : LogM Entry ε α) := fun l => hR.silent l l.state rfl

theorem throw (u : ε) : Along R (throw u : LogM Entry ε α) := fun l => hR.silent l l.state rfl

theorem bind {x : LogM Entry ε α} (hx : Along R x) {f : α → LogM Entry ε β} (hf : ∀ a, Along R (f a)) :
    Along R (x >>= f) := by
  intro l
  have h := hx l
  simp only [Bind.bind, EStateM.bind]
  generalize x l = r at h
  cases r with
  | ok a l' => exact hR.trans h (hf a l')
  | error u l' => exact h

/-- What goes on from a computation that leaves static fields as they are goes on from a value that it has come to. -/
theorem lift_bind {y : EvalM α} (hy : Spares y) {f : α → LogM Entry Unwind β}
    (hf : ∀ a s t, y s = .ok a t → Along R (f a)) : Along R (liftM y >>= f) := by
  intro l
  have h := hy l.state
  show R l (LogM.final ((LogM.silent y >>= f) l))
  simp only [Bind.bind, EStateM.bind, LogM.silent]
  unfold State.after at h
  cases hys : y l.state with
  | ok a t =>
    rw [hys] at h
    exact hR.trans (hR.silent l t h) (hf a _ _ hys ⟨t, l.log⟩)
  | error u t =>
    rw [hys] at h
    exact hR.silent l t h

theorem returns (f : DeclId) (v : Value) : Along R (LogM.record (.returns f v) : LogM Entry ε Unit) :=
  fun l => hR.returns l l.state _ f v rfl

/-- **Going along a relation** is something that the whole does if its parts do. -/
theorem compositional : Compositional fun x => Along R x where
  pure a := pure hR a
  bind hx hf := bind hR hx hf
  lift_bind hy hf := lift_bind hR hy.spares hf
  returns f v := bind hR (returns hR f v) fun _ => throw hR _

/-! ## Nodes and steps -/

section Enter

variable {m : Machine} {enter : ExprId → LogM Entry Unwind Value}

/-- **A call goes along a relation** if the body does. -/
theorem inFrame {body : LogM Entry Unwind Value} (hbody : Along R body) (frame : Frame) :
    Along R (Recorded.inFrame m frame body) := by
  intro l
  have hends (l' : Logged Entry) (outcome : Except (Stop RuntimeFault) Value) (h : R ⟨l.state.enter frame, l.log⟩ l') :
      R l (LogM.final (Logged.result ⟨l'.state.leave, l'.log ++ [⟨l'.state.running, .ends frame.function outcome⟩]⟩
        outcome : EStateM.Result (Stop RuntimeFault) (Logged Entry) Value)) := by
    have hentered := hR.trans (hR.silent l (l.state.enter frame) rfl) h
    have hleft := hR.trans hentered (hR.ends l' l'.state.leave l'.state.running frame.function outcome rfl)
    cases outcome <;> exact hleft
  have h := hbody ⟨l.state.enter frame, l.log⟩
  unfold Recorded.inFrame
  generalize body ⟨l.state.enter frame, l.log⟩ = r at h
  cases r with
  | ok v l' => exact hends l' (m.outcome frame.function (.ok v)) h
  | error u l' => exact hends l' (m.outcome frame.function (.error u)) h

theorem invoke {function : DeclId} (h : ∀ D f body, m.program.decl? function = some D → D.form = .function f →
    f.body = some body → Along R (enter body)) (this extension : Option Value) (args : List Value) :
    Along R (Recorded.invoke m enter function this extension args) := by
  intro l
  rcases Recorded.invoke_cases m enter function this extension args l with
    ⟨stop, -, hinvoke⟩ | ⟨D, f, body, hD, hf, hbody, hinvoke⟩
  · rw [hinvoke]
    exact hR.silent l l.state rfl
  · rw [hinvoke]
    exact inFrame hR (h D f body hD hf hbody) _ l

theorem construct {cls : DeclId} (h : ∀ field ∈ m.program.storage cls, ∀ init,
    m.program.fieldInit? field = some init → Along R (enter init)) : Along R (Recorded.construct m enter cls) := by
  intro l
  have hinstance := (compositional hR).instantiate h l
  unfold Recorded.construct
  generalize Recorded.instantiate m enter cls l = r at hinstance
  cases r with
  | ok v l' => exact hinstance
  | error u l' => cases u <;> exact hinstance

/-- **A node goes along a relation** if what it starts and calls does, and what it does to a static field. -/
theorem node {e : ExprId} (hstarts : ∀ c, m.program.Starts e c → Along R (enter c))
    (hcalls : ∀ body, m.program.Calls e body → Along R (enter body))
    (hread : ∀ field D, m.program.Accesses e field → m.program.decl? field = some D → D.modifiers.isStatic = true →
      (∀ init, m.program.fieldInit? field = some init → Along R (enter init)) →
      Along R (Recorded.staticField enter field D))
    (hstore : ∀ field, m.program.Accesses e field → ∀ (l : Logged Entry) (v : Value),
      R l ⟨{ l.state with statics := l.state.statics.insert field v },
        l.log ++ [⟨l.state.running, .stores field v⟩]⟩) : Along R (Recorded.node m enter e) := by
  refine (compositional hR).node hstarts (fun function this ext args hbody => ?_) hread fun field v haccess l => ?_
  · exact evaluated (invoke hR (fun D f body hD hf hf' => hcalls body (hbody D f body hD hf hf')) this ext args)
  · exact hstore field haccess l v

end Enter

/-- **A step goes along a relation** if all evaluations do. -/
theorem take {m : Machine} (h : ∀ e, Along R (Recorded.eval m m.depthBound e)) (step : Step) :
    Along R (Recorded.take m step) := by
  cases step with
  | callFunction function args => exact invoke hR (fun D f body _ _ _ => h body) none none args
  | callMethod function receiver args => exact invoke hR (fun D f body _ _ _ => h body) (some receiver) none args
  | construct cls => exact construct hR fun field _ init _ => h init

end Closure

end Along

end DeferredInit
