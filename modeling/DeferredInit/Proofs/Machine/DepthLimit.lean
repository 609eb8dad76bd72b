import DeferredInit.Proofs.Machine.Lockstep
import DeferredInit.Proofs.Program.Sample

/-!
# What the limit of a machine does

A machine lets no more functions run at once than its limit says.  To see that, one can watch it: a machine under watch
halts as soon as an expression is evaluated in a state that it should not be in (`Machine.watching`).  The watch for too
many functions never finds any (`watching_limit`).

A call beyond the limit is a fault, and nothing that a program does can catch it, or have another fault in its stead.
So a step that does not end with this fault has never come near it, and ends in the same way, in the same state, where
the limit is higher (`limit_cuts_off`).
-/

namespace DeferredInit

namespace Course

/-- The left evaluator may reach a limit or run out of depth, and anything else may happen on both sides. -/
def below (limit : Nat) : Course where
  halts _ := True
  excuse stop := stop = .fault (.callDepthExceeded limit) ∨ stop = .halt .exhausted

theorem below_limits {limit₁ limit₂ : Nat} (h : limit₁ ≤ limit₂) : (below limit₁).Limits limit₁ limit₂ :=
  .inr ⟨h, Or.inl rfl⟩

end Course

namespace Machine

open Course (any below below_limits keeping eq_of_agree)

variable (m : Machine)

/-- **A machine under watch**: it halts where an expression would be evaluated in a state that is not allowed. -/
def watching (allowed : State → Prop) [DecidablePred allowed] (h : Halt) : Semantics where
  node eval e := do
    if allowed (← get) then m.semantics.node eval e else throw (.halt h)
  invoke := m.invoke
  instantiate := m.instantiate
  stray := m.strayReturn

/-- The states in which no more functions are running than the limit says. -/
def withinLimit (s : State) : Prop := s.frames.length ≤ m.maxDepth

instance : DecidablePred m.withinLimit := fun s => inferInstanceAs (Decidable (s.frames.length ≤ m.maxDepth))

theorem watching_step {allowed : State → Prop} [DecidablePred allowed] (h : Halt) (depth : Nat) :
    (m.watching allowed h).step depth = m.takeWith ((m.watching allowed h).eval depth) := by
  funext step
  cases step <;> rfl

/-- Where no more functions are running than the limit says, an evaluation under watch is an ordinary one. -/
theorem watching_eval (h : Halt) (depth : Nat) (e : ExprId) {fs : List Frame} (hfs : fs.length ≤ m.maxDepth) :
    any.InStep m.program fs ((m.watching m.withinLimit h).eval depth e) (m.eval depth e) := by
  induction depth generalizing e fs with
  | zero => exact Course.halt trivial
  | succ depth ih =>
    have hnode : any.InStep m.program fs
        (m.semantics.node ((m.watching m.withinLimit h).eval depth) e) (m.semantics.node (m.eval depth) e) :=
      Course.node (.inl rfl) (.inl trivial) (.inl trivial) (fun c _ => ih c hfs) fun hcalls body _ frame gs hgs =>
        ih body (by rw [List.length_cons, hgs]; exact hcalls)
    rintro s _ ⟨rfl, hs⟩
    have hallowed : m.withinLimit s := by
      rw [withinLimit, FramesKept.length_eq hs]
      exact hfs
    have hwatched : (m.watching m.withinLimit h).eval (depth + 1) e s =
        m.semantics.node ((m.watching m.withinLimit h).eval depth) e s := by
      show (if m.withinLimit s then m.semantics.node _ e else throw (.halt h) : EvalM Value) s = _
      rw [if_pos hallowed]
    rw [hwatched]
    exact hnode s s ⟨rfl, hs⟩

/-- **No more functions are ever running than the limit says**: to watch for them changes nothing. -/
theorem watching_limit (h : Halt) (depth : Nat) (step : Step) {s : State} (hs : m.withinLimit s) :
    (m.watching m.withinLimit h).step depth step s = m.semantics.step depth step s := by
  rw [watching_step, semantics_step]
  exact eq_of_agree (Course.takeWith (.inl rfl) (.inl trivial) step (.inl trivial)
    (fun _ c _ => m.watching_eval h depth c hs)
    (fun hcalls body _ frame => m.watching_eval h depth body hcalls) s rfl)

/-- The watch does find what there is: to greet, the sample program runs two functions at once. -/
example : ∃ t, (Machine.watching ⟨sample, Library.standard, 256⟩ (fun s => s.frames.length ≤ 1) .dangling).step 16
    (.callFunction ⟨6⟩ []) {} = .error (.halt .dangling) t := ⟨_, rfl⟩

/-- To raise the limit, and the depth, makes no difference as long as neither is reached. -/
theorem eval_raised {limit : Nat} (hlimit : m.maxDepth ≤ limit) {depth depth' : Nat} (hdepth : depth ≤ depth')
    (e : ExprId) (fs : List Frame) :
    (below m.maxDepth).InStep m.program fs (m.eval depth e)
      ((m.withLimit limit).eval depth' e) := by
  induction depth generalizing depth' e fs with
  | zero => exact fun _ _ _ => .left ⟨.halt .exhausted, .inr rfl, rfl⟩
  | succ depth ih =>
    obtain ⟨depth', rfl⟩ : ∃ k, depth' = k + 1 := ⟨depth' - 1, by omega⟩
    exact Course.node (below_limits hlimit) (.inl trivial) (.inl trivial) (fun c _ => ih (by omega) c fs)
      fun _ body _ frame gs _ => ih (by omega) body (frame :: gs)

/-- A step that ends without reaching the limit ends in the same way where the limit is higher. -/
theorem step_raised {limit : Nat} (hlimit : m.maxDepth ≤ limit) {depth depth' : Nat} (hdepth : depth ≤ depth')
    {step : Step} {s : State} {a : Answer} (h : m.semantics.step depth step s = a.result)
    (ha : a.1 ≠ .error (.callDepthExceeded m.maxDepth)) :
    (m.withLimit limit).semantics.step depth' step s = a.result := by
  have hagree : Agree ((below m.maxDepth).runs (keeping s.frames)) (· = ·) (m.semantics.step depth step s)
      ((m.withLimit limit).semantics.step depth' step s) := by
    rw [semantics_step, semantics_step]
    exact Course.takeWith (below_limits hlimit) (.inl trivial) step (.inl trivial)
      (fun _ c _ => m.eval_raised hlimit hdepth c s.frames)
      (fun _ body _ frame => m.eval_raised hlimit hdepth body (frame :: s.frames)) s rfl
  rw [h] at hagree
  obtain ⟨ended, t⟩ := a
  cases ended with
  | ok v =>
    generalize (m.withLimit limit).semantics.step depth' step s = r at hagree ⊢
    cases hagree with
    | ok hv ht => rw [← hv, ← ht.1]; rfl
    | right hr => exact hr.elim
  | error f =>
    generalize (m.withLimit limit).semantics.step depth' step s = r at hagree ⊢
    cases hagree with
    | error hu ht => rw [← hu.1, ← ht.1]; rfl
    | left hexcuse =>
      rcases hexcuse with hlimit | hhalt
      · exact absurd (congrArg Except.error (Stop.fault.inj hlimit)) ha
      · cases hhalt
    | right hr => exact hr.elim

/-- How a step ends at any depth that is not ample, it ends at the depth that the machine goes to. -/
theorem take_of_step {depth : Nat} (hdepth : depth ≤ ampleDepth) {step : Step} {s : State} {a : Answer}
    (h : m.semantics.step depth step s = a.result) (ha : a.1 ≠ .error (.callDepthExceeded m.maxDepth)) :
    m.take step s = a.result := by
  have hbound : depth ≤ m.depthBound := by
    rw [depthBound]
    exact Nat.le_add_left_of_le hdepth
  rw [← step_depthBound]
  exact m.step_raised (Nat.le_refl m.maxDepth) hbound h ha

theorem depthBound_le {limit : Nat} (hlimit : m.maxDepth ≤ limit) : m.depthBound ≤ (m.withLimit limit).depthBound := by
  have hcalls := Nat.mul_le_mul_right (m.program.exprs.size + 1) (Nat.add_le_add_right hlimit 1)
  rw [depthBound, depthBound]
  exact Nat.add_le_add_right hcalls ampleDepth

/-- **The limit only cuts off.**  When a step begins with no function running, no more functions are ever running in the
course of it than the limit says.  If it does not end with the fault that the limit has been reached, it ends in the
same way, and leaves the same state, where the limit is higher. -/
theorem limit_cuts_off {limit : Nat} (hlimit : m.maxDepth ≤ limit) (step : Step) {s : State} (hs : s.frames = []) :
    (∀ h depth, (m.watching m.withinLimit h).step depth step s = m.semantics.step depth step s) ∧
    ∀ a : Answer, m.take step s = a.result → a.1 ≠ .error (.callDepthExceeded m.maxDepth) →
      (m.withLimit limit).take step s = a.result := by
  have hwithin : m.withinLimit s := by
    rw [withinLimit, hs]
    exact Nat.zero_le _
  refine ⟨fun h depth => m.watching_limit h depth step hwithin, fun a htake ha => ?_⟩
  rw [← step_depthBound] at htake ⊢
  exact m.step_raised hlimit (m.depthBound_le hlimit) htake ha

/-- To greet takes two functions at once, so the sample program greets in the same way whether it may run two or
more. -/
theorem limit_cuts_off_sample : ∃ a : Answer, a.1 = .ok (.str "ready") ∧
    Machine.take ⟨sample, Library.standard, 2⟩ (.callFunction ⟨6⟩ []) {} = a.result ∧
    (Machine.withLimit ⟨sample, Library.standard, 2⟩ 256).take (.callFunction ⟨6⟩ []) {} = a.result := by
  have hends : ∃ t, (Machine.semantics ⟨sample, Library.standard, 2⟩).step 16 (.callFunction ⟨6⟩ []) {} =
      Answer.result (.ok (.str "ready"), t) := ⟨_, rfl⟩
  obtain ⟨t, hends⟩ := hends
  have htake := take_of_step ⟨sample, Library.standard, 2⟩ (by decide) hends nofun
  have hlimit : Machine.maxDepth ⟨sample, Library.standard, 2⟩ ≤ 256 := by decide
  have hraised := (limit_cuts_off ⟨sample, Library.standard, 2⟩ hlimit (.callFunction ⟨6⟩ []) (s := {}) rfl).2
  exact ⟨_, rfl, htake, hraised _ htake nofun⟩

end Machine

end DeferredInit
