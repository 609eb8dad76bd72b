import DeferredInit.Proofs.Deferral.Guards
import DeferredInit.Proofs.Deferral.Kept

/-!
# Lowering implements deferred initialization

A machine that runs a lowered program does what the reference does with the original one (`lower_implements`).

The two are compared node by node.  What is evaluated before and after lowering (`Kept`) ends alike, by induction on
the depth (`eval_tied`), where each kind of construct meets its guard and everything else its own operation.  Guards
are deeper than what they stand for, so the machine has to go about twice as deep as the reference.  Which of them
is cut short is said by a `Side`: the other one may go further, and is not compared beyond that point.

The reference and the machine keep the same values in all variables that the original program has.  What guards keep
in variables of their own is not compared.
-/

namespace DeferredInit

open Program Reference

namespace Lowering

/-- Which of two runs may be cut short by its depth. -/
inductive Side where
  | reference
  | machine
deriving DecidableEq

/-- How the reference is compared with a machine: it is excused where it leaves what can be reached. -/
def Side.tie (side : Side) (p : Program) : Tie where
  locals d a b := p.Has (.decl d) → a = b
  locals_refl _ _ _ := rfl
  fault f g := f = g
  fault_refl _ := rfl
  left stop := stop = .halt .dangling ∨ side = .reference ∧ stop = .halt .exhausted
  right stop := side = .machine ∧ stop = .halt .exhausted

theorem Side.left_dangling (side : Side) (p : Program) : (side.tie p).left (.halt .dangling) := .inl rfl

theorem Side.left_exhausted (p : Program) : (Side.reference.tie p).left (.halt .exhausted) := .inr ⟨rfl, rfl⟩

theorem Side.right_exhausted (p : Program) : (Side.machine.tie p).right (.halt .exhausted) := ⟨rfl, rfl⟩

/-- How deep a machine goes if the reference goes down to a depth. -/
def Side.Fits : Side → Nat → Nat → Prop
  | reference, n, k => 2 * n + 5 ≤ k
  | machine, n, k => k ≤ n

/-- **A machine whose program has been lowered**, next to one with the original program. -/
structure Lowers (w : Lowering) (m m' : Machine) : Prop where
  library_eq : m.library = m'.library
  maxDepth_eq : m.maxDepth = m'.maxDepth
  closed : m.program.Closed
  forest : m.program.IsForest
  alike : Alike m.program m'.program
  lowered : Lowered w m.program m'.program (· ∈ m.program.nodes)
  throw_eq : m'.throwFunction? = some w.intrinsics.throwUninitialized

section

variable {w : Lowering} {m m' : Machine} {side : Side} {n k : Nat}

theorem Lowers.machines (h : Lowers w m m') : (side.tie m.program).Machines m m' :=
  ⟨h.library_eq, h.maxDepth_eq, h.alike, fun _ _ => .inr (side.left_dangling _)⟩

/-- A declaration that no rule overwrites is as it was. -/
theorem Lowers.decl?_eq (h : Lowers w m m') {d : DeclId} {D D' : Decl} (hD : m.program.decl? d = some D)
    (hD' : m'.program.decl? d = some D') (hvar : D.isDeferredVariable = false)
    (hfield : ¬GivenNull m.program m'.program d)
    (hgetter : ∀ f, D.form = .function f → m.program.guardedField? d = none) : D' = D := by
  have hsame : m.program.SameAt m'.program (.decl d) := by
    refine h.lowered.untouched (has_of_decl? hD) fun a ha hta => ?_
    rcases decl_of_touches h.lowered hD ha hta with hvar' | hfield' | ⟨⟨f, hf⟩, hgetter'⟩
    · rw [hvar] at hvar'
      cases hvar'
    · exact hfield hfield'
    · exact hgetter' (hgetter f hf)
  have heq : m'.program.decl? d = m.program.decl? d := hsame
  rw [hD, hD'] at heq
  exact Option.some.inj heq

/-- What a variable holds that is read where nothing is guarded. -/
theorem Lowers.getValue_tied (h : Lowers w m m') {e : ExprId} {E : Expr} {x : DeclId} (hE : m.program.expr? e = some E)
    (hx : E.form = .getValue x) (hc : w.construct? m.program (.expr e) = none) :
    Tied (side.tie m.program).evals (· = ·) (getValue w m x) (m'.getValue x) := by
  have hhas : m.program.Has (.decl x) :=
    h.closed.has_of_expr hE (by simp [hx, ExprForm.mentioned, ExprForm.subject?])
  obtain ⟨X, hX⟩ := has_decl_iff.1 hhas
  have hdef : X.isDeferredVariable = false := by
    simpa [construct?, hE, hx, hX] using hc
  have heq : getValue w m x = m.getValue x := by
    simp only [Reference.getValue, Machine.decl, hX, pure_bind, hdef, Bool.false_eq_true, if_false, bind_pure]
  rw [heq]
  exact Tie.getValue h.machines fun _ _ hab => hab hhas

/-! ## Depth -/

/-- What ends like a machine that goes at least four levels deep ends like the machine. -/
theorem agree_of_ample (hfit : side.Fits n k) {e : ExprId} {t : State} {r : EStateM.Result Unwind State Value}
    (h : ∀ depth, Agree (side.tie m.program).evals (· = ·) r (m'.eval (depth + 4) e t)) :
    Agree (side.tie m.program).evals (· = ·) r (m'.eval k e t) := by
  cases side with
  | reference =>
    obtain ⟨depth, rfl⟩ : ∃ depth, k = depth + 4 := ⟨k - 4, by simp only [Side.Fits] at hfit; omega⟩
    exact h depth
  | machine => exact Tie.of_deeper (Side.right_exhausted _) (Nat.le_add_right k 4) (h k)

/-- Null in the place of an initializer. -/
theorem null_tied (hfit : side.Fits n k) {e : ExprId} {span : Span} {ty : Ty}
    (he : m'.program.expr? e = some ⟨span, ty, .const .null⟩) :
    Tied (side.tie m.program).evals (fun v v' : Value => v = .null ∧ v' = .null) (pure .null) (m'.eval k e) := by
  cases k with
  | zero =>
    cases side with
    | reference => simp [Side.Fits] at hfit
    | machine => exact Tie.right_halt (Side.right_exhausted _)
  | succ k =>
    rw [m'.eval_const he]
    exact .pure ⟨rfl, rfl⟩

/-! ## Operations -/

/-- What is kept ends alike at these depths. -/
def EvalTied (w : Lowering) (m m' : Machine) (side : Side) (n k : Nat) : Prop :=
  ∀ e, Kept w m.program e →
    Tied (side.tie m.program).evals (· = ·) ((semantics w m).eval n e) (m'.eval k e)

variable (h : Lowers w m m') (hfit : side.Fits n k) (ih : EvalTied w m m' side n k)
include h ih

theorem inside_tied (e : ExprId) : Tied (side.tie m.program).evals (· = ·)
    (m.program.inside ((semantics w m).eval n) e) (m'.eval k e) :=
  m.program.inside_tied (side.left_dangling _) fun he => ih e (.of_entrance h.forest he)

include hfit

/-- What a field holds at first: nothing on one side and null on the other, or the same. -/
theorem initialField (field : DeclId) :
    (side.tie m.program).InitialField m m' (m.program.inside ((semantics w m).eval n)) (m'.eval k) field := by
  intro D D' hD hD'
  by_cases hnull : GivenNull m.program m'.program field
  · obtain ⟨F, content, null, span, ty, hF, hcontent, hinit, hnull, hq⟩ := hnull
    rw [hD] at hF
    obtain rfl := Option.some.inj hF
    rw [hD'] at hq
    obtain rfl := Option.some.inj hq
    simp only [Decl.withInitializer, hcontent, DeclForm.withInitializer, DeclForm.field?, Option.bind_some, hinit]
    exact .null (null_tied hfit hnull)
  · obtain ⟨D₀, hD₀, hsk⟩ := h.alike field D hD
    rw [hD'] at hD₀
    obtain rfl := Option.some.inj hD₀
    cases hform : D.form with
    | field content =>
      obtain rfl := h.decl?_eq hD hD' (by simp [Decl.isDeferredVariable, hform, DeclForm.var?]) hnull (by simp [hform])
      rw [hform]
      cases hinit : content.initializer with
      | none => simp only [DeclForm.field?, Option.bind_some, hinit]; exact .none
      | some e => simp only [DeclForm.field?, Option.bind_some, hinit]; exact .some (inside_tied h ih e)
    | _ =>
      have hform' := (Decl.eq_of_skeleton hsk).2.2
      rw [hform] at hform'
      have hnone : D'.form.field? = none := by
        cases hD'' : D'.form <;> simp_all [DeclForm.skeleton, DeclForm.field?]
      rw [hnone]
      exact .none

/-- A deferred variable comes into being holding null, and any other as before. -/
theorem declare_tied {d : DeclId} (hd : .decl d ∈ m.program.nodes) : Tied (side.tie m.program).evals (· = ·)
    (declare m ((semantics w m).eval n) d) (m'.declare (m'.eval k) d) := by
  obtain ⟨D, hD⟩ := has_decl_iff.1 ((enclosed_nodes h.forest).has _ hd)
  cases hdef : D.isDeferredVariable with
  | true =>
    have hleft : declare m ((semantics w m).eval n) d = EvalM.setLocal d .null := by
      simp only [Reference.declare, Machine.decl, hD, pure_bind, hdef, if_true]
    rw [hleft]
    cases h.lowered.changed hd (construct?_of_isDeferredVariable hD hdef) with
    | @var _ D' v null hD' hv hinit _ hnull hq =>
      rw [hD] at hD'
      obtain rfl := Option.some.inj hD'
      have hright : m'.declare (m'.eval k) d = m'.eval k null >>= EvalM.setLocal d := by
        simp only [Machine.declare, Machine.decl, hq, pure_bind, Decl.withInitializer, hv, DeclForm.withInitializer,
          DeclForm.var?, Option.bind_some]
      have hset : Tied (side.tie m.program).evals (· = ·) (pure .null >>= EvalM.setLocal d)
          (m'.eval k null >>= EvalM.setLocal d) := by
        refine .bind (null_tied hfit hnull) fun v v' hv => ?_
        rw [hv.1, hv.2]
        exact Tie.setLocal d .null
      rw [hright]
      exact hset
  | false =>
    have hleft : declare m ((semantics w m).eval n) d =
        m.declare (m.program.inside ((semantics w m).eval n)) d := by
      simp only [Reference.declare, Machine.decl, hD, pure_bind, hdef, Bool.false_eq_true, if_false]
    rw [hleft]
    refine Tie.declare h.machines fun D₁ D' hD₁ hD' => ?_
    rw [hD] at hD₁
    obtain rfl := Option.some.inj hD₁
    cases hv : D.form.var? with
    | none =>
      obtain ⟨D₀, hD₀, hsk⟩ := h.alike d D hD
      rw [hD'] at hD₀
      obtain rfl := Option.some.inj hD₀
      have hsome : D'.form.var?.isSome = D.form.var?.isSome := by
        rw [← DeclForm.var?_isSome_skeleton D'.form, (Decl.eq_of_skeleton hsk).2.2, DeclForm.var?_isSome_skeleton]
      rw [hv, Option.isSome_none, Option.isSome_eq_false_iff, Option.isNone_iff_eq_none] at hsome
      rw [hsome]
      exact .inl ⟨rfl, rfl⟩
    | some v =>
      have hform := DeclForm.var?_eq_some.1 hv
      have hnull : ¬GivenNull m.program m'.program d := by
        rintro ⟨F, content, _, _, _, hF, hcontent, _⟩
        rw [hD] at hF
        obtain rfl := Option.some.inj hF
        rw [hform] at hcontent
        cases hcontent
      obtain rfl := h.decl?_eq hD hD' hdef hnull (by simp [hform])
      rw [hv]
      cases hinit : v.initializer with
      | none => exact .inl ⟨hinit, hinit⟩
      | some e => exact .inr ⟨e, e, hinit, hinit, inside_tied h ih e⟩

omit ih in
/-- **The getter of a deferred property** ends like its guarded body. -/
theorem readProperty_tied {getter field : DeclId} {name : String} {ty : Ty} {G : Decl} {f : FunctionDecl}
    (hfield : GivenNull m.program m'.program field) (hG : m.program.decl? getter = some G) (hf : G.form = .function f)
    (g : BodyGuard w m'.program G.span getter f.dispatchReceiver field ty name)
    (hnew : ∀ a ∈ g.nodes, ¬m.program.Has a) {s t : State} (hst : s.Resembles (side.tie m.program).locals t)
    (ht : t.frames ≠ []) :
    Agree (side.tie m.program).evals (· = ·)
      (readProperty w m ((semantics w m).eval n) getter f.dispatchReceiver field name s) (m'.eval k g.body t) := by
  obtain ⟨F, content, null, span, ty', hF, hcontent, hinit, hnull, hq⟩ := hfield
  refine agree_of_ample hfit fun depth => ?_
  have hfield : (side.tie m.program).InitialField m m' (m.program.inside ((semantics w m).eval n))
      (m'.eval (depth + 1)) field := by
    intro D D' hD hD'
    rw [hF] at hD
    obtain rfl := Option.some.inj hD
    rw [hq] at hD'
    obtain rfl := Option.some.inj hD'
    simp only [Decl.withInitializer, hcontent, DeclForm.withInitializer, DeclForm.field?, Option.bind_some, hinit]
    refine .null ?_
    rw [m'.eval_const hnull]
    exact .pure ⟨rfl, rfl⟩
  have hread : Tied (side.tie m.program).evals (· = ·)
      (m.loadReceived (m.program.inside ((semantics w m).eval n)) f.dispatchReceiver field)
      (m'.eval (depth + 2) g.current) := by
    rw [m'.eval_current g]
    cases hr : f.dispatchReceiver with
    | none => exact Tie.loadField h.machines hfield none
    | some r =>
      have hhas : m.program.Has (.decl r) := h.closed.has_of_decl hG (by simp [hf, DeclForm.mentioned, hr])
      have hthis : Tied (side.tie m.program).evals (· = ·) (some <$> m.getValue r) (some <$> m'.getValue r) :=
        .map (Tie.getValue h.machines fun _ _ hab => hab hhas) fun _ _ hab => congrArg some hab
      refine .bind hthis fun a b hab => ?_
      subst hab
      exact Tie.loadField h.machines hfield a
  have hheld (a b : Option Value) : (side.tie m.program).locals g.held a b :=
    fun hhas => absurd hhas (hnew (.decl g.held) (by simp [BodyGuard.nodes]))
  have hnone : F.form.field?.bind (·.initializer) = none := by simp [hcontent, DeclForm.field?, hinit]
  exact m'.agree_bodyGuard g h.throw_eq hheld hread (fun _ _ _ => m.frames_of_loadReceived hF hnone) hst ht

/-- What the bodies of a function do. -/
theorem body_tied {function : DeclId} {D D' : Decl} {f f' : FunctionDecl} (hD : m.program.decl? function = some D)
    (hD' : m'.program.decl? function = some D') (hf : D.form = .function f) (hf' : D'.form = .function f') :
    (side.tie m.program).Bodies (body w m ((semantics w m).eval n) function f) (f'.body.map (m'.eval k)) := by
  cases hguarded : m.program.guardedField? function with
  | some r =>
    obtain ⟨field, name⟩ := r
    obtain ⟨hfield, G, ty, f₀, g, hG, hf₀, hnew, hq⟩ := exists_bodyGuard h.lowered hguarded
    rw [hD] at hG
    obtain rfl := Option.some.inj hG
    rw [hf] at hf₀
    obtain rfl := DeclForm.function.inj hf₀
    rw [hD'] at hq
    obtain rfl := Option.some.inj hq
    obtain rfl := DeclForm.function.inj hf'
    simp only [body, hguarded, Option.map_some]
    exact .some fun s t hst ht => readProperty_tied h hfit hfield hD hf g hnew hst ht
  | none =>
    have hnull : ¬GivenNull m.program m'.program function := by
      rintro ⟨F, content, _, _, _, hF, hcontent, _⟩
      rw [hD] at hF
      obtain rfl := Option.some.inj hF
      rw [hf] at hcontent
      cases hcontent
    have hvar : D.isDeferredVariable = false := by simp [Decl.isDeferredVariable, hf, DeclForm.var?]
    obtain rfl := h.decl?_eq hD hD' hvar hnull fun _ _ => hguarded
    rw [hf] at hf'
    obtain rfl := DeclForm.function.inj hf'
    simp only [body, hguarded]
    cases f.body with
    | none => exact .none
    | some e => exact .some fun s t hst _ => inside_tied h ih e s t hst

/-- Calls end alike. -/
theorem invoke_tied (function : DeclId) (this extension : Option Value) (args : List Value) :
    Tied (side.tie m.program).runs (· = ·) (invoke w m ((semantics w m).eval n) function this extension args)
      (m'.invoke (m'.eval k) function this extension args) :=
  Tie.invokeWith h.machines (fun _ _ _ _ hD hD' hf hf' => body_tied h hfit ih hD hD' hf hf') this extension args

/-- The operation of a node ends alike where the node is no construct. -/
theorem performs {e : ExprId} {E : Expr} (he : Kept w m.program e) (hE : m.program.expr? e = some E)
    (hc : w.construct? m.program (.expr e) = none) :
    (side.tie m.program).Performs (operations w m ((semantics w m).eval n)) (m'.operations (m'.eval k)) E.form := by
  cases hform : E.form with
  | getValue x => exact h.getValue_tied hE hform hc
  | setValue d _ => exact Tie.setLocal d
  | declare d =>
    refine declare_tied h hfit ih ((enclosed_nodes h.forest).kids_mem he.mem ?_)
    simp [kids_expr hE, hform, ExprForm.owned]
  | getField field _ => exact Tie.loadField h.machines (initialField h hfit ih field)
  | setField field _ _ => exact Tie.storeField h.machines field
  | call callee _ _ _ =>
    intro this extension args
    cases callee with
    | declared function => exact Tie.evaluated (invoke_tied h hfit ih function this extension args)
    | library hash =>
      show Tied _ _ (EvalM.fail (m.libraryFault hash args)) (EvalM.fail (m'.libraryFault hash args))
      rw [Tie.libraryFault (T := side.tie m.program) h.machines]
      exact Tie.fail _
  | construct cls => exact Tie.instantiate h.machines (initialField h hfit ih) cls
  | _ => exact trivial

end

section

variable {w : Lowering} {m m' : Machine} {side : Side} {n k : Nat}

/-! ## Runs -/

theorem reference_eval_query {e : ExprId} {E : Expr} (hE : m.program.expr? e = some E) {field : DeclId}
    {subject : Option ExprId} (hquery : w.queried? m.program E.form = some (field, subject)) :
    (semantics w m).eval (n + 1) e = query m ((semantics w m).eval n) field subject := by
  show node w m ((semantics w m).eval n) e = _
  simp only [node, Machine.expr, hE, pure_bind, hquery]

theorem reference_eval_node {e : ExprId} {E : Expr} (hE : m.program.expr? e = some E)
    (hc : w.construct? m.program (.expr e) ≠ some .query) : (semantics w m).eval (n + 1) e =
      (operations w m ((semantics w m).eval n)).evalNode ((semantics w m).eval n) E.form := by
  have hquery : w.queried? m.program E.form = none := by
    rw [Option.eq_none_iff_forall_not_mem]
    intro r hr
    exact hc (construct?_of_queried? hE hr)
  show node w m ((semantics w m).eval n) e = _
  simp only [node, Machine.expr, hE, pure_bind, hquery]

/-- **A read of a deferred variable** ends like its guard. -/
theorem read_tied (h : Lowers w m m') (hfit : side.Fits (n + 1) k) {e : ExprId} (he : Kept w m.program e)
    (hc : w.construct? m.program (.expr e) = some .read) :
    Tied (side.tie m.program).evals (· = ·) ((semantics w m).eval (n + 1) e) (m'.eval k e) := by
  cases h.lowered.changed he.mem hc with
  | @read _ E x X ty name g hE hx hX hty hname hnew hq =>
    have hdef : X.isDeferredVariable = true := by
      simpa [construct?, hE, hx, hX] using hc
    have hleft : (semantics w m).eval (n + 1) e = m.getValue x >>= assigned w name := by
      rw [reference_eval_node hE (by simp [hc]), hx]
      show getValue w m x = _
      simp only [Reference.getValue, Machine.decl, hX, pure_bind, hdef, if_true, hname]
    have hhas : m.program.Has (.decl x) := has_of_decl? hX
    rw [hleft]
    intro s t hst
    refine agree_of_ample hfit fun depth => ?_
    rw [m'.eval_readGuard h.throw_eq g hq rfl]
    refine Tied.bind (Tie.getValue h.machines fun _ _ hab => hab hhas) (fun v v' hv => ?_) s t hst
    subst hv
    unfold assigned
    cases v.isNull with
    | true => exact Tie.fail _
    | false => exact .pure rfl

/-- **A query** ends like the comparison that takes its place. -/
theorem query_tied (h : Lowers w m m') (ih : ∀ {k}, side.Fits n k → EvalTied w m m' side n k)
    (hfit : side.Fits (n + 1) (k + 1)) {e : ExprId} (he : Kept w m.program e)
    (hc : w.construct? m.program (.expr e) = some .query) :
    Tied (side.tie m.program).evals (· = ·) ((semantics w m).eval (n + 1) e) (m'.eval (k + 1) e) := by
  cases h.lowered.changed he.mem hc with
  | @query _ reference E N dispatch subject args property field P r ty g hE hcall hN hform hP hr hfield hnew hq href =>
    rw [reference_eval_query hE (queried?_eq hcall hN hform hP hr hfield)]
    cases k with
    | zero =>
      cases side with
      | reference => simp [Side.Fits] at hfit
      | machine =>
        rw [m'.eval_binary hq]
        exact fun s t _ => .right ⟨_, Side.right_exhausted _, rfl⟩
    | succ k =>
      have hfit' : side.Fits n k := by
        cases side <;> simp only [Side.Fits] at hfit ⊢ <;> omega
      rw [m'.eval_presence g hq rfl]
      have hsubject : ∀ s ∈ subject, Tied (side.tie m.program).evals (· = ·) ((semantics w m).eval n s) (m'.eval k s) := by
        intro s hs
        obtain rfl : subject = some s := hs
        exact ih hfit' s (.subject h.forest he.mem hE hcall hN hform)
      refine .bind (Tied.evalOption hsubject) fun a b hab => ?_
      subst hab
      refine .bind (Tie.loadField h.machines (initialField h hfit' (ih hfit') field) a) fun v v' hv => ?_
      subst hv
      exact .pure rfl

/-- **What is kept ends alike**, if the machine goes as deep as is fit. -/
theorem eval_tied (h : Lowers w m m') (hfit : side.Fits n k) : EvalTied w m m' side n k := by
  induction n generalizing k with
  | zero =>
    intro e _
    cases side with
    | reference => exact Tie.left_halt (Side.left_exhausted _)
    | machine =>
      obtain rfl : k = 0 := by simpa [Side.Fits] using hfit
      exact Tie.right_halt (Side.right_exhausted _)
  | succ n ih =>
    intro e he
    obtain ⟨E, hE⟩ := has_expr_iff.1 ((enclosed_nodes h.forest).has _ he.mem)
    cases k with
    | zero =>
      cases side with
      | reference => simp [Side.Fits] at hfit
      | machine => exact Tie.right_halt (Side.right_exhausted _)
    | succ k =>
      have hfit' : side.Fits n k := by
        cases side <;> simp only [Side.Fits] at hfit ⊢ <;> omega
      cases hc : w.construct? m.program (.expr e) with
      | none =>
        have hnot : w.construct? m.program (.expr e) ≠ some .query := by simp [hc]
        rw [reference_eval_node hE hnot, m'.eval_succ (he.expr?_eq hE h.lowered hc)]
        exact Tie.evalNode_tied (performs h hfit' (ih hfit') he hE hc)
          fun c hchild => ih hfit' c (he.child h.forest hE hnot hchild)
      | some c =>
        rcases construct?_expr hc with rfl | rfl
        · exact read_tied h hfit he hc
        · exact query_tied h ih hfit he hc

/-- **Steps end alike.** -/
theorem step_tied (h : Lowers w m m') (hfit : side.Fits n k) (step : Step) :
    Tied (side.tie m.program).runs (· = ·) ((semantics w m).step n step) (m'.semantics.step k step) := by
  have ih := eval_tied h hfit
  cases step with
  | callFunction function args =>
    rw [m'.semantics_step]
    exact invoke_tied h hfit ih function none none args
  | callMethod function receiver args =>
    rw [m'.semantics_step]
    exact invoke_tied h hfit ih function (some receiver) none args
  | construct cls =>
    refine Tie.construct ?_ (Tie.strayReturn h.machines)
    rw [m'.semantics_eval]
    exact Tie.instantiate h.machines (initialField h hfit ih) cls

/-- Runs end alike. -/
theorem runs_tied (h : Lowers w m m') (hfit : side.Fits n k) (steps : List Step) (s : State) :
    (side.tie m.program).Runs ((semantics w m).run n steps s) (m'.semantics.run k steps s) := by
  have hleft (f : RuntimeFault) : ¬(side.tie m.program).left (.fault f) := by
    rintro (hf | ⟨_, hf⟩) <;> cases hf
  have hright (f : RuntimeFault) : ¬(side.tie m.program).right (.fault f) := by
    rintro ⟨_, hf⟩
    cases hf
  exact Tie.takeSteps hleft hright (step_tied h hfit) steps (.refl (fun _ _ _ => rfl) s)

/-- **What the reference answers, the machine answers**, about twice as deep. -/
theorem Lowers.run_of_reference (h : Lowers w m m') (hnk : 2 * n + 5 ≤ k) {steps : List Step} {s : State}
    {answers : List Answer} (hrun : (semantics w m).run n steps s = .ok answers) :
    ∃ answers', m'.semantics.run k steps s = .ok answers' ∧ List.Forall₂ Answer.Alike answers answers' := by
  have hfit : Side.reference.Fits n k := hnk
  rcases (runs_tied h hfit steps s).of_left hrun with ⟨answers', hrun', hanswers⟩ | ⟨_, _, hside, _⟩
  · exact ⟨answers', hrun', hanswers.imp fun _ _ h => h.alike fun _ _ => id⟩
  · cases hside

/-- **What the machine answers, the reference answers**, unless it leaves what can be reached. -/
theorem Lowers.reference_of_run (h : Lowers w m m') {steps : List Step} {s : State} {answers' : List Answer}
    (hrun : m'.semantics.run k steps s = .ok answers') : (semantics w m).run k steps s = .error .dangling ∨
      ∃ answers, (semantics w m).run k steps s = .ok answers ∧ List.Forall₂ Answer.Alike answers answers' := by
  have hfit : Side.machine.Fits k k := Nat.le_refl k
  rcases (runs_tied h hfit steps s).of_right hrun with ⟨answers, hrun', hanswers⟩ | ⟨halt, hrun', hl⟩
  · exact .inr ⟨answers, hrun', hanswers.imp fun _ _ h => h.alike fun _ _ => id⟩
  · rcases hl with hl | ⟨hside, _⟩
    · obtain rfl := Stop.halt.inj hl
      exact .inl hrun'
    · cases hside

end

/-- The function that a lowering calls to report is the one that a machine with its library reports for. -/
theorem throwFunction?_of_ofLibrary {l : Library} {options : LoweringOptions} {w : Lowering}
    (h : ofLibrary l options = .ok w) {m : Machine} (hm : m.library = l) :
    m.throwFunction? = some w.intrinsics.throwUninitialized := by
  obtain ⟨program, library, maxDepth⟩ := m
  obtain rfl : library = l := hm
  cases hgetter : Intrinsics.findGetter library with
  | error fault => simp [ofLibrary, Intrinsics.resolve, hgetter, bind, Except.bind] at h
  | ok getter =>
    cases hfind : Intrinsics.findThrow library with
    | error fault => simp [ofLibrary, Intrinsics.resolve, hgetter, hfind, bind, Except.bind] at h
    | ok throw =>
      simp only [ofLibrary, Intrinsics.resolve, hgetter, hfind, bind, Except.bind, pure, Except.pure] at h
      obtain rfl := Except.ok.inj h
      unfold Intrinsics.findThrow at hfind
      split at hfind
      · next function hfunctions =>
        obtain rfl := Except.ok.inj hfind
        simp [Machine.throwFunction?, hfunctions]
      · cases hfind

theorem Lowers.of_lower {l : Library} {options : LoweringOptions} {w : Lowering} (hw : ofLibrary l options = .ok w)
    {p q : Program} (hp : p.Closed) (hf : p.findShared = .ok none) {stats : LoweringStats}
    (h : w.lower p = (.ok stats, q)) (maxDepth : Nat) : Lowers w ⟨p, l, maxDepth⟩ ⟨q, l, maxDepth⟩ where
  library_eq := rfl
  maxDepth_eq := rfl
  closed := hp
  forest := findShared_eq_none_iff.1 hf
  alike := (done_of_lower hp (findShared_eq_none_iff.1 hf) h).alike
  lowered := (done_of_lower hp (findShared_eq_none_iff.1 hf) h).lowered
  throw_eq := throwFunction?_of_ofLibrary hw rfl

/-- **Lowering implements deferred initialization.**  Take a closed program that is a forest and that has been
lowered, a library that hosts the lowering, and any steps from any state.  What the reference answers down to some
depth, a machine with the lowered program answers at any depth that is about twice as deep or deeper.  The other way
round, what the machine answers at some depth the reference answers at the same depth, unless it leaves what can be
reached.  The machine that runs by itself is the one at the depth of its bound. -/
theorem lower_implements {l : Library} {options : LoweringOptions} {w : Lowering} (hw : ofLibrary l options = .ok w)
    {p q : Program} (hp : p.Closed) (hf : p.findShared = .ok none) {stats : LoweringStats}
    (h : w.lower p = (.ok stats, q)) (maxDepth : Nat) (steps : List Step) (s : State) :
    let reference := semantics w ⟨p, l, maxDepth⟩
    let machine : Machine := ⟨q, l, maxDepth⟩
    (∀ n k answers, 2 * n + 5 ≤ k → reference.run n steps s = .ok answers →
      ∃ answers', machine.semantics.run k steps s = .ok answers' ∧ List.Forall₂ Answer.Alike answers answers') ∧
    (∀ k answers', machine.semantics.run k steps s = .ok answers' →
      reference.run k steps s = .error .dangling ∨
      ∃ answers, reference.run k steps s = .ok answers ∧ List.Forall₂ Answer.Alike answers answers') ∧
    takeSteps machine.take steps s = machine.semantics.run machine.depthBound steps s := by
  intro reference machine
  have hlowers : Lowers w ⟨p, l, maxDepth⟩ machine := .of_lower hw hp hf h maxDepth
  exact ⟨fun n k answers hnk hrun => hlowers.run_of_reference hnk hrun,
    fun k answers' hrun => hlowers.reference_of_run hrun, (machine.run_depthBound steps s).symm⟩

/-- The sample program: the property of a new instance is not initialized, the deferred variable is assigned before
it is read, and to get the property of an instance that has none is an access before initialization. -/
theorem lower_implements_sample :
    ofLibrary Library.standard {} = .ok Sample.lowering ∧ sample.Closed ∧ sample.findShared = .ok none ∧
      (Sample.lowering.lower sample).1 = .ok { vars := 1, reads := 2, queries := 1, properties := 1 } ∧
      ∃ answers answers',
        (semantics Sample.lowering ⟨sample, Library.standard, 256⟩).run 16 Sample.steps {} = .ok answers ∧
        answers.map (·.1) = [.ok (.bool false), .ok (.str "ready"), .ok (.object ⟨2, some ⟨0⟩⟩),
          .error (.uninitializedAccess none)] ∧
        (Machine.semantics ⟨(Sample.lowering.lower sample).2, Library.standard, 256⟩).run 37 Sample.steps {} =
          .ok answers' ∧ List.Forall₂ Answer.Alike answers answers' := by
  have hw : ofLibrary Library.standard {} = .ok Sample.lowering := by decide +kernel
  have hp : sample.Closed := by decide
  have hf : sample.findShared = .ok none := by decide +kernel
  have hstats : (Sample.lowering.lower sample).1 = .ok { vars := 1, reads := 2, queries := 1, properties := 1 } := by
    decide +kernel
  have hlower : Sample.lowering.lower sample =
      (.ok { vars := 1, reads := 2, queries := 1, properties := 1 }, (Sample.lowering.lower sample).2) := by
    rw [← hstats]
  have hvalues : ((semantics Sample.lowering ⟨sample, Library.standard, 256⟩).run 16 Sample.steps {}).map
      (·.map (·.1)) = .ok [.ok (.bool false), .ok (.str "ready"), .ok (.object ⟨2, some ⟨0⟩⟩),
        .error (.uninitializedAccess none)] := by
    decide +kernel
  cases hrun : (semantics Sample.lowering ⟨sample, Library.standard, 256⟩).run 16 Sample.steps {} with
  | error halt =>
    rw [hrun] at hvalues
    cases hvalues
  | ok answers =>
    rw [hrun] at hvalues
    obtain ⟨answers', hrun', halike⟩ :=
      (lower_implements hw hp hf hlower 256 Sample.steps {}).1 16 37 answers (by omega) hrun
    exact ⟨hw, hp, hf, hstats, answers, answers', rfl, Except.ok.inj hvalues, hrun', halike⟩

end Lowering

end DeferredInit
