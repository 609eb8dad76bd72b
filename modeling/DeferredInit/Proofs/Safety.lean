import DeferredInit.Proofs.Lowering.Forest
import DeferredInit.Proofs.Machine.Lockstep
import DeferredInit.Proofs.Program.Followed

/-!
# Nothing goes out of bounds

Whatever is done with a program follows handles: to lower it, to search it for shared nodes, to list it, and to run it.
In a closed program none of them is ever dangling, however the program is put together otherwise, whether it is a forest
or not and whether the runs come to an end or not (`Closed.safe`).

Lowering keeps a program closed.  So a program that has been lowered is safe as well, even if the lowering stopped
halfway (`closed_lower_safe`).
-/

namespace DeferredInit

open Program

/-- **A program that is safe** to work with: no dangling handle is ever followed. -/
structure Program.Safe (p : Program) : Prop where
  /-- It can be lowered, for any library and with any options. -/
  lower : ∀ w : Lowering, (w.lower p).1 ≠ .error (.halt .dangling)
  /-- It can be searched for shared nodes. -/
  findShared : Resolves p.findShared
  /-- It can be listed. -/
  listing : ∀ names, Resolves (p.listing names)
  /-- Its expressions can be listed. -/
  exprText : ∀ names e, p.Has (.expr e) → Resolves (p.exprText names e)
  /-- It can be run from any state, with any limit, as deep as one wants. -/
  run : ∀ (library : Library) (maxDepth depth : Nat) (steps : List Step) (s : State),
    (∀ step ∈ steps, p.Has (.decl step.target)) →
      Resolves ((Machine.semantics ⟨p, library, maxDepth⟩).run depth steps s)

/-! ## Lowering -/

namespace Lowering

variable {w : Lowering} {p : Program}

/-- A rule comes to an end, or stops for a violation. -/
theorem rule_safe {s t : Progress} (hp : s.program.Closed) {n : NodeId} (hn : s.program.Has n) :
    w.rule n s ≠ .error (.halt .dangling) t := by
  have h := rule_outcome (w := w) hp hn
  intro heq
  rw [heq] at h
  cases h

/-- Doing one thing after another is safe if each of them is. -/
theorem bind_safe {α β : Type} {act : LowerM α} {next : α → LowerM β} {s t : Progress}
    (h : act s ≠ .error (.halt .dangling) t)
    (hnext : ∀ a u, act s = .ok a u → next a u ≠ .error (.halt .dangling) t) :
    (act >>= next) s ≠ .error (.halt .dangling) t := by
  cases hact : act s with
  | ok a u =>
    rw [LowerM.bind_ok hact]
    exact hnext a u hact
  | error stop u =>
    rw [LowerM.bind_error hact]
    intro heq
    cases heq
    exact h hact

theorem forM_safe {α : Type} (node : α → NodeId) {act : α → LowerM Unit}
    (hact : ∀ a (s : Progress), s.program.Closed → s.program.Has (node a) →
      Preserves s.program (final (act a s)).program ∧ ∀ t, act a s ≠ .error (.halt .dangling) t)
    (as : List α) (s t : Progress) (hp : s.program.Closed) (has : ∀ a ∈ as, s.program.Has (node a)) :
    as.forM act s ≠ .error (.halt .dangling) t := by
  induction as generalizing s with
  | nil => exact nofun
  | cons a as ih =>
    obtain ⟨hpreserves, hsafe⟩ := hact a s hp (has a List.mem_cons_self)
    show (act a >>= fun _ => as.forM act) s ≠ _
    refine bind_safe (hsafe t) fun _ u hok => ?_
    rw [hok] at hpreserves
    exact ih u (hpreserves.closed hp) fun b hb => hpreserves.has (has b (List.mem_cons_of_mem _ hb))

/-- **A traversal** of a closed program follows no dangling handle, from wherever it starts. -/
theorem lowerNode_safe (depth : Nat) (n : NodeId) (s : Progress) (hp : s.program.Closed) (hn : s.program.Has n)
    (t : Progress) : w.lowerNode depth n s ≠ .error (.halt .dangling) t := by
  induction depth generalizing n s t with
  | zero => exact nofun
  | succ depth ih =>
    have hkids : ∀ k ∈ s.program.kids n, s.program.Has k := fun k hk => hp.has_of_mem_kids hk
    have hpreserves := forM_preserves id (lowerNode_preserves (w := w) depth) (s.program.kids n) s hp hkids
    rw [lowerNode, LowerM.bind_ok (owned_run hn)]
    refine bind_safe ?_ fun _ u hok => ?_
    · exact forM_safe id (fun k s hp hk => ⟨lowerNode_preserves depth k s hp hk, ih k s hp hk⟩) _ s t hp hkids
    · rw [hok] at hpreserves
      exact rule_safe (hpreserves.closed hp) (hpreserves.has hn)

/-- **Lowering** a closed program follows no dangling handle. -/
theorem lower_safe (w : Lowering) (hp : p.Closed) : (w.lower p).1 ≠ .error (.halt .dangling) := by
  have hall : w.lowerAll { program := p } =
      p.topLevel.forM (fun d => w.lowerNode (depthBound p) (.decl d)) { program := p } := rfl
  have hsafe (depth : Nat) (t : Progress) :
      p.topLevel.forM (fun d => w.lowerNode depth (.decl d)) { program := p } ≠ .error (.halt .dangling) t :=
    forM_safe .decl (fun d s hp hd => ⟨lowerNode_preserves depth (.decl d) s hp hd,
      lowerNode_safe depth (.decl d) s hp hd⟩) p.topLevel { program := p } t hp fun d hd => hp.has_of_topLevel hd
  rw [lower, hall]
  cases hrun : p.topLevel.forM (fun d => w.lowerNode (depthBound p) (.decl d)) { program := p } with
  | ok _ s =>
    intro heq
    cases heq
  | error stop s =>
    intro heq
    obtain rfl : stop = .halt .dangling := Except.error.inj heq
    exact hsafe (depthBound p) s hrun

end Lowering

/-! ## Running -/

/-- Nothing is excused, and an evaluation may go too deep, but it follows no dangling handle. -/
def Course.bounded : Course where
  halts h := h = .exhausted
  excuse _ := False

namespace Machine

open Course (bounded keeping)

variable {m : Machine} (hp : m.program.Closed)
include hp

/-- **An evaluation** in a closed program follows no dangling handle. -/
theorem eval_bounded (depth : Nat) {e : ExprId} (he : m.program.Has (.expr e)) (fs : List Frame) :
    bounded.InStep m.program fs (m.eval depth e) (m.eval depth e) := by
  induction depth generalizing e fs with
  | zero => exact Course.halt rfl
  | succ depth ih =>
    exact Course.node (.inl rfl) (.inr hp) (.inr he) (fun c hc => ih (hc.has hp) fs)
      fun _ body hbody frame gs _ => ih (hp.has_of_isBody hbody) (frame :: gs)

theorem step_safe (depth : Nat) {step : Step} (hstep : m.program.Has (.decl step.target)) (s t : State) :
    m.semantics.step depth step s ≠ .error (.halt .dangling) t := by
  have h : Agree (bounded.runs (keeping s.frames)) (· = ·) (m.semantics.step depth step s)
      (m.semantics.step depth step s) := by
    rw [semantics_step]
    exact Course.takeWith (.inl rfl) (.inr hp) step (.inr hstep)
      (fun _ _ hc => eval_bounded hp depth (hp.has_of_fieldInit? hc) s.frames)
      (fun _ _ hbody frame => eval_bounded hp depth (hp.has_of_isBody hbody) (frame :: s.frames)) s rfl
  intro heq
  rw [heq] at h
  cases h with
  | error hhalt _ => cases hhalt.2 _ rfl
  | left hu => exact hu
  | right hv => exact hv

/-- **Running** a closed program follows no dangling handle. -/
theorem run_resolves (depth : Nat) (steps : List Step) (s : State)
    (hsteps : ∀ step ∈ steps, m.program.Has (.decl step.target)) : Resolves (m.semantics.run depth steps s) := by
  unfold Semantics.run
  induction steps generalizing s with
  | nil => exact .pure _
  | cons step rest ih =>
    have hrest (t : State) := ih t fun step h => hsteps step (List.mem_cons_of_mem _ h)
    have hstep := step_safe hp depth (hsteps step List.mem_cons_self) s
    unfold takeSteps
    cases hrun : m.semantics.step depth step s with
    | ok v t => exact .bind (hrest t) fun _ _ => .pure _
    | error stop t =>
      cases stop with
      | fault f => exact .bind (hrest t) fun _ _ => .pure _
      | halt h =>
        cases h with
        | dangling => exact absurd hrun (hstep t)
        | exhausted => exact .exhausted

end Machine

/-! ## Closed programs -/

/-- **A closed program is safe.** -/
theorem Program.Closed.safe {p : Program} (hp : p.Closed) : p.Safe where
  lower w := Lowering.lower_safe w hp
  findShared := hp.findShared_resolves
  listing names := hp.listing_resolves names
  exprText names _ he := Listing.expr_resolves names hp _ he
  run library maxDepth depth steps s hsteps :=
    Machine.run_resolves (m := ⟨p, library, maxDepth⟩) hp depth steps s hsteps

/-- **Lowering keeps programs closed and safe**, even if it stops halfway. -/
theorem Lowering.closed_lower_safe {p : Program} (hp : p.Closed) :
    p.Safe ∧ ∀ w : Lowering, (w.lower p).2.Closed ∧ (w.lower p).2.Safe := by
  refine ⟨hp.safe, fun w => ?_⟩
  have hlowered : (w.lower p).2.Closed := (lower_preserves hp).closed hp
  exact ⟨hlowered, hlowered.safe⟩

/-- The sample program is safe, and stays so. -/
theorem Lowering.closed_lower_safe_sample : sample.Closed ∧ sample.Safe ∧
    (Sample.lowering.lower sample).2.Closed ∧ (Sample.lowering.lower sample).2.Safe := by
  obtain ⟨hsafe, hlowered⟩ := closed_lower_safe (p := sample) (by decide)
  exact ⟨by decide, hsafe, hlowered Sample.lowering⟩

end DeferredInit
