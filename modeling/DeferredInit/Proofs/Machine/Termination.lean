import DeferredInit.Proofs.Machine.Lockstep
import DeferredInit.Symbol.Standard

/-!
# Steps come to an end

Three things can keep a step going: functions call each other, what is read or made has to be initialized first, and
expressions have parts.  Only calls are bounded by the machine itself.  If the program is `Acyclic`, then between one
call and the next no expression is met twice, so there are no more of them on the way than the program has.  How deep an
evaluation goes is therefore bounded by the calls that are left and, for the last of them, by the expressions that are
left (`Machine.reach`): a call that an initializer makes starts over with all expressions, but with one call less.

An evaluator that goes as deep as that never stops short, and to go deeper makes no difference to it (`eval_settled`).
So every step ends with a value or a fault, whatever state it starts in (`take_ends`).
-/

namespace DeferredInit

open Program

namespace Course

/-- Nothing is excused, and no evaluation halts. -/
def strict : Course where
  halts _ := False
  excuse _ := False

/-- Runs in strict lockstep end with the same answer. -/
theorem answer_of_agree {I : State → Prop} {r r' : EStateM.Result (Stop RuntimeFault) State Value}
    (h : Agree (strict.runs I) (· = ·) r r') : ∃ a : Answer, r = a.result ∧ r' = a.result := by
  cases h with
  | @ok v _ t _ hv hst =>
    obtain ⟨rfl, -⟩ := hst
    subst hv
    exact ⟨(.ok v, t), rfl, rfl⟩
  | @error u _ t _ huv hst =>
    obtain ⟨rfl, -⟩ := hst
    obtain ⟨rfl, hhalt⟩ := huv
    cases u with
    | fault f => exact ⟨(.error f, t), rfl, rfl⟩
    | halt h => exact (hhalt h rfl).elim
  | left hu => exact hu.elim
  | right hv => exact hv.elim

end Course

namespace Machine

open Course (strict keeping answer_of_agree)

variable (m : Machine)

/-- **How deep an evaluation goes at most** while so many functions are running, if so many expressions came before it
since the last call. -/
def reach (running before : Nat) : Nat :=
  (m.maxDepth - running) * (m.program.exprs.size + 1) + (m.program.exprs.size - before)

theorem reach_next {before : Nat} (running : Nat) (h : before < m.program.exprs.size) :
    m.reach running (before + 1) < m.reach running before := by
  unfold reach
  omega

/-- A call starts over with the expressions, but one call less is left then. -/
theorem reach_call {running : Nat} (before : Nat) (h : running < m.maxDepth) :
    m.reach (running + 1) 0 < m.reach running before := by
  have hcalls : m.maxDepth - running = m.maxDepth - (running + 1) + 1 := by omega
  unfold reach
  rw [hcalls, Nat.succ_mul]
  omega

theorem reach_lt (running before : Nat) :
    m.reach running before < (m.maxDepth + 1) * (m.program.exprs.size + 1) := by
  have hcalls : (m.maxDepth - running) * (m.program.exprs.size + 1) ≤ m.maxDepth * (m.program.exprs.size + 1) :=
    Nat.mul_le_mul_right _ (Nat.sub_le _ _)
  unfold reach
  rw [Nat.succ_mul]
  omega

section

variable {m} (hp : m.program.Closed) (ha : m.program.Acyclic)
include hp ha

/-- **An evaluation that goes deep enough is settled**: it does not halt, and goes in lockstep with a deeper one. -/
theorem eval_settled {depth depth' : Nat} {e : ExprId} {before : List ExprId} {fs : List Frame}
    (htrail : Trail m.program e before) (hdepth : m.reach fs.length before.length ≤ depth) (hle : depth ≤ depth') :
    strict.InStep m.program fs (m.eval depth e) (m.eval depth' e) := by
  induction depth generalizing depth' e before fs with
  | zero =>
    have hpos := m.reach_next fs.length htrail.length_lt
    omega
  | succ depth ih =>
    obtain ⟨depth', rfl⟩ : ∃ k, depth' = k + 1 := ⟨depth' - 1, by omega⟩
    have hle' : depth ≤ depth' := by omega
    refine Course.node (.inl rfl) (.inr hp) (.inr (htrail.has e List.mem_cons_self)) (fun c hc => ?_)
      fun hcalls body hbody frame gs hgs => ?_
    · -- what the node starts is one expression further on the trail
      have hreach := m.reach_next fs.length htrail.length_lt
      exact ih (htrail.next hp ha hc) (by rw [List.length_cons]; omega) hle'
    · -- the body of a function starts a trail of its own
      have hreach := m.reach_call before.length hcalls
      refine ih (.start (hp.has_of_isBody hbody)) ?_ hle'
      rw [List.length_cons, hgs, List.length_nil]
      omega

/-- **Every step ends** with a value or a fault, whatever state it starts in, if the program has no cycles.  However
deep it may go from there on, it ends in the same way. -/
theorem take_ends (step : Step) (hstep : m.program.Has (.decl step.target)) (s : State) :
    ∃ a : Answer, m.take step s = a.result ∧
      ∀ depth, (m.maxDepth + 1) * (m.program.exprs.size + 1) ≤ depth → m.semantics.step depth step s = a.result := by
  have hagree : ∀ depth depth', (m.maxDepth + 1) * (m.program.exprs.size + 1) ≤ depth → depth ≤ depth' →
      Agree (strict.runs (keeping s.frames)) (· = ·) (m.semantics.step depth step s)
        (m.semantics.step depth' step s) := by
    intro depth depth' hdepth hle
    have hreach (running : Nat) : m.reach running 0 ≤ depth :=
      Nat.le_trans (Nat.le_of_lt (m.reach_lt running 0)) hdepth
    rw [semantics_step, semantics_step]
    exact Course.takeWith (.inl rfl) (.inr hp) step (.inr hstep)
      (fun _ _ hc => eval_settled hp ha (.start (hp.has_of_fieldInit? hc)) (hreach _) hle)
      (fun _ _ hbody _ => eval_settled hp ha (.start (hp.has_of_isBody hbody)) (hreach _) hle) s rfl
  -- the least depth that is enough settles the answer for all that are
  obtain ⟨a, hleast, -⟩ := answer_of_agree (hagree _ _ (Nat.le_refl _) (Nat.le_refl _))
  have hsettled : ∀ depth, (m.maxDepth + 1) * (m.program.exprs.size + 1) ≤ depth →
      m.semantics.step depth step s = a.result := by
    intro depth hdepth
    obtain ⟨b, hb, hdeeper⟩ := answer_of_agree (hagree _ _ (Nat.le_refl _) hdepth)
    rw [hdeeper, ← hb, hleast]
  refine ⟨a, ?_, hsettled⟩
  rw [← step_depthBound]
  exact hsettled m.depthBound (by rw [depthBound]; exact Nat.le_add_right _ _)

end

end Machine

/-! ## A function that calls itself -/

/-- A function that makes an instance of a class and calls itself.  The field of the class starts out with what a static
field holds, which has to be initialized itself. -/
def loopingSample : Program where
  name := "looping"
  decls :=
    #[{ name := "Node", span := ⟨1, 1, 4⟩, form := .cls { hash := ⟨1⟩, members := [⟨1⟩] } },
      { name := "weight", span := ⟨2, 3, 6⟩,
        form := .field { ty := .int, owner := some ⟨0⟩, initializer := some ⟨1⟩ } },
      { name := "unit", span := ⟨4, 1, 4⟩, modifiers := .static,
        form := .field { ty := .int, initializer := some ⟨0⟩ } },
      { name := "loop", span := ⟨5, 1, 4⟩, form := .function { returnType := .unit, body := some ⟨4⟩ } }]
  exprs :=
    #[⟨⟨4, 8, 1⟩, .int, .const (.int 7)⟩,
      ⟨⟨2, 12, 4⟩, .int, .getField ⟨2⟩ none⟩,
      ⟨⟨6, 3, 6⟩, .reference ⟨1⟩ false, .construct ⟨0⟩⟩,
      ⟨⟨7, 3, 6⟩, .unit, .call (.declared ⟨3⟩) none none []⟩,
      ⟨⟨5, 1, 20⟩, .unit, .block [⟨2⟩, ⟨3⟩]⟩]
  topLevel := [⟨0⟩, ⟨2⟩, ⟨3⟩]

/-- The function calls itself until too many calls are running. -/
theorem Machine.take_ends_loopingSample : loopingSample.Closed ∧ loopingSample.Acyclic ∧
    ∃ t, Machine.take ⟨loopingSample, Library.standard, 3⟩ (.callFunction ⟨3⟩ []) {} =
      Answer.result (.error (.callDepthExceeded 3), t) := by
  have hp : loopingSample.Closed := by decide
  have ha : loopingSample.Acyclic :=
    .of_ranks (·.index) (fun e => if e.index = 0 then 0 else if e.index = 1 then 2 else 4)
      (fun d => if d.index = 2 then 1 else 3) (by decide) (by decide) (by decide)
  obtain ⟨a, htake, hsettled⟩ := take_ends (m := ⟨loopingSample, Library.standard, 3⟩) hp ha (.callFunction ⟨3⟩ [])
    (by decide) {}
  have hfault : ∃ t, (Machine.semantics ⟨loopingSample, Library.standard, 3⟩).step 24 (.callFunction ⟨3⟩ []) {} =
      Answer.result (.error (.callDepthExceeded 3), t) := ⟨_, rfl⟩
  obtain ⟨t, ht⟩ := hfault
  exact ⟨hp, ha, t, by rw [htake, ← hsettled 24 (by decide), ht]⟩

end DeferredInit
