import DeferredInit.Proofs.Deferral.DefaultGetter
import DeferredInit.Proofs.Deferral.Simulation
import DeferredInit.Proofs.Deferral.Watched

/-!
# Lowering is transparent to programs that assign before use

As long as nothing is used before it is assigned, a program does the same before and after it is lowered
(`lower_transparent`).  A watched run of the original program is compared with the reference, which lowering
implements.  All that differs between these two is that a deferred variable is unbound at first in the one and holds
null in the other.

Getters have to be the ones that properties are declared with (`Program.HasDefaultGetters`).
-/

namespace DeferredInit

open Program

namespace Watched

/-- How a watched run is compared with the reference: a deferred variable may be unbound in the one and hold null in
the other. -/
def tie (p : Program) : Tie where
  locals d a b := a = b ∨ (∃ D, p.decl? d = some D ∧ D.isDeferredVariable = true) ∧ a = none ∧ b = some .null
  locals_refl _ _ := .inl rfl
  fault f g := f = g
  fault_refl _ := rfl
  left stop := stop = .halt .dangling ∨ stop = .halt .exhausted
  right _ := False

section

variable {w : Lowering} {m m' : Machine} {n k : Nat}

theorem tie_dangling (p : Program) : (tie p).left (.halt .dangling) := .inl rfl

theorem tie_exhausted (p : Program) : (tie p).left (.halt .exhausted) := .inr rfl

/-- Only deferred variables may differ. -/
theorem tight {p : Program} {d : DeclId} (h : ∀ D, p.decl? d = some D → D.isDeferredVariable = false) :
    (tie p).Tight d := by
  rintro a b (hab | ⟨⟨D, hD, hdef⟩, -, -⟩)
  · exact hab
  · rw [h D hD] at hdef
    cases hdef

/-! ## Variables -/

/-- A variable that can be read under watch holds the same, and it has been assigned if it is deferred. -/
theorem getValue_agree {d : DeclId} {D : Decl} (hD : m.program.decl? d = some D) :
    Tied (tie m.program).evals (fun v v' => v = v' ∧ (D.isDeferredVariable = true → v.isNull = false))
      (getValue m d) (m.getValue d) := by
  cases hdef : D.isDeferredVariable with
  | false =>
    have heq : getValue m d = m.getValue d := by
      simp only [getValue, Machine.decl, hD, pure_bind, hdef, Bool.false_eq_true, if_false]
    have htight : (tie m.program).Tight d := by
      refine tight fun D' hD' => ?_
      rw [hD] at hD'
      obtain rfl := Option.some.inj hD'
      exact hdef
    rw [heq]
    exact (Tie.getValue (Tie.machines_refl _ m) htight).mono fun _ _ hv => ⟨hv, fun hdef => absurd hdef Bool.false_ne_true⟩
  | true =>
    intro s t hst
    rcases getValue_cases hD hdef s with hs | ⟨v, hnull, hv, hs⟩
    · rw [hs]
      exact .left ⟨_, tie_dangling _, rfl⟩
    · have hlocal := State.Resembles.local? hst ((tie m.program).locals_refl d none)
      rw [hv] at hlocal
      rcases hlocal with hlocal | ⟨_, hnone, _⟩
      · rw [hs, m.getValue_of_local? hlocal.symm]
        exact .ok ⟨rfl, fun _ => hnull⟩ hst
      · cases hnone

theorem getValue_reference {d : DeclId} {D : Decl} (hD : m.program.decl? d = some D) :
    Tied (tie m.program).evals (· = ·) (getValue m d) (Reference.getValue w m d) := by
  have heq : Reference.getValue w m d = m.getValue d >>= fun v =>
      if D.isDeferredVariable then Reference.assigned w D.name v else pure v := by
    simp only [Reference.getValue, Machine.decl, hD, pure_bind]
  have hleft : getValue m d = getValue m d >>= pure := (bind_pure _).symm
  rw [heq, hleft]
  refine .bind (getValue_agree hD) fun v v' hv => ?_
  obtain ⟨rfl, hnull⟩ := hv
  cases hdef : D.isDeferredVariable with
  | false => exact .pure rfl
  | true =>
    simp only [if_true, Reference.assigned, hnull hdef, Bool.false_eq_true, if_false]
    exact .pure rfl

theorem eval_node {e : ExprId} {E : Expr} (hE : m.program.expr? e = some E) (hask : asksMore w E.form = false) :
    (semantics w m).eval (n + 1) e =
      (operations w m ((semantics w m).eval n)).evalNode ((semantics w m).eval n) E.form := by
  show node w m ((semantics w m).eval n) e = _
  simp only [node, Machine.expr, hE, pure_bind, hask, Bool.false_eq_true, if_false]

/-- Only a query has operands that the reference does not evaluate. -/
theorem construct?_of_asksMore {p : Program} {e : ExprId} {E : Expr} (hE : p.expr? e = some E)
    (h : asksMore w E.form = true) : w.construct? p (.expr e) = some .query := by
  unfold asksMore at h
  split at h
  · next hash _ _ _ hcall =>
    rw [Bool.and_eq_true, decide_eq_true_eq] at h
    simp [Lowering.construct?, hE, hcall, h.1]
  · cases h

/-! ## Getters -/

section Getter

variable {getter field : DeclId} {enter : ExprId → EvalM Value} {F : Decl} (hF : m.program.decl? field = some F)
variable (hinit : F.form.field?.bind (·.initializer) = none) {G : Decl} {f : FunctionDecl}
variable (hp : m.program.Closed) (hG : m.program.decl? getter = some G) (hf : G.form = .function f)

include hF hinit in
/-- A field without an initializer is read alike whatever is entered. -/
theorem loadField_tied (enter' : ExprId → EvalM Value) (this : Option Value) :
    Tied (tie m.program).evals (· = ·) (m.loadField enter field this) (m.loadField enter' field this) := by
  refine Tie.loadField (Tie.machines_refl _ m) (fun D D' hD hD' => ?_) this
  rw [hD] at hD'
  obtain rfl := Option.some.inj hD'
  rw [hF] at hD
  obtain rfl := Option.some.inj hD
  rw [hinit]
  exact .none

include hF hinit hp hG hf in
theorem read_tied {read : ExprId} {this : Option ExprId}
    (hread : (m.program.expr? read).map (·.form) = some (.getField field this))
    (hthis : (this.map fun t => (m.program.expr? t).map (·.form)) = f.dispatchReceiver.map fun r => some (.getValue r)) :
    Tied (tie m.program).evals (· = ·) ((semantics w m).eval n read) (m.loadReceived enter f.dispatchReceiver field) := by
  cases n with
  | zero => exact Tie.left_halt (tie_exhausted _)
  | succ n =>
    obtain ⟨E, hE, hform⟩ := Option.map_eq_some_iff.1 hread
    rw [eval_node hE (by rw [hform]; rfl), hform]
    cases hr : f.dispatchReceiver with
    | none =>
      rw [hr, Option.map_none, Option.map_eq_none_iff] at hthis
      subst hthis
      exact loadField_tied hF hinit enter none
    | some r =>
      rw [hr, Option.map_some, Option.map_eq_some_iff] at hthis
      obtain ⟨t, rfl, ht⟩ := hthis
      obtain ⟨E', hE', hform'⟩ := Option.map_eq_some_iff.1 ht
      obtain ⟨R, hR⟩ := has_decl_iff.1 (hp.has_of_decl hG (n := .decl r) (by simp [hf, DeclForm.mentioned, hr]))
      have hvalue : Tied (tie m.program).evals (· = ·) ((semantics w m).eval n t) (m.getValue r) := by
        cases n with
        | zero => exact Tie.left_halt (tie_exhausted _)
        | succ n =>
          rw [eval_node hE' (by rw [hform']; rfl), hform']
          exact (getValue_agree hR).mono fun _ _ h => h.1
      have hreceiver : Tied (tie m.program).evals (· = ·) (some <$> (semantics w m).eval n t) (some <$> m.getValue r) :=
        hvalue.map fun _ _ hab => congrArg some hab
      refine .bind hreceiver fun a b hab => ?_
      subst hab
      exact loadField_tied hF hinit enter a

include hF hinit hp in
/-- The body of a getter returns what it reads. -/
theorem defaultGetter_tied (enter : ExprId → EvalM Value) (hdefault : m.program.DefaultGetter getter field)
    (hG : m.program.decl? getter = some G) (hf : G.form = .function f) : ∃ body, f.body = some body ∧ Tied (tie m.program).evals (· = ·)
      ((semantics w m).eval n body)
      (m.loadReceived enter f.dispatchReceiver field >>= fun v => throw (.ret getter v)) := by
  obtain ⟨G', f', body, result, read, this, hG', hf', hbody, hblock, hresult, hread, hthis⟩ := hdefault
  rw [hG] at hG'
  obtain rfl := Option.some.inj hG'
  rw [hf] at hf'
  obtain rfl := DeclForm.function.inj hf'
  refine ⟨body, hbody, ?_⟩
  obtain ⟨B, hB, hblock⟩ := Option.map_eq_some_iff.1 hblock
  obtain ⟨E, hE, hresult⟩ := Option.map_eq_some_iff.1 hresult
  have hreturn {n : Nat} : Tied (tie m.program).evals (· = ·) ((semantics w m).eval n result)
      (m.loadReceived enter f.dispatchReceiver field >>= fun v => throw (.ret getter v)) := by
    cases n with
    | zero => exact Tie.left_halt (tie_exhausted _)
    | succ n =>
      rw [eval_node hE (by rw [hresult]; rfl), hresult]
      show Tied _ _ (some <$> (semantics w m).eval n read >>= fun v => throw (.ret getter (v.getD .unit))) _
      rw [map_eq_pure_bind, bind_assoc]
      refine .bind (read_tied hF hinit hp hG hf hread hthis) fun a b hab => ?_
      subst hab
      exact .throw (.ret getter a)
  cases n with
  | zero => exact Tie.left_halt (tie_exhausted _)
  | succ n =>
    rw [eval_node hB (by rw [hblock]; rfl), hblock]
    show Tied _ _ ((semantics w m).eval n result >>= pure) _
    rw [bind_pure]
    exact hreturn

include hF hinit hp hG hf in
/-- **A getter under watch** ends like the getter of a deferred property. -/
theorem readProperty_tied (eval : ExprId → EvalM Value) (hdefault : m.program.DefaultGetter getter field)
    (name : String) : ∃ body, f.body = some body ∧ Tied (tie m.program).evals (· = ·)
      (assigned (m.program.inside ((semantics w m).eval n) body))
      (Reference.readProperty w m eval getter f.dispatchReceiver field name) := by
  obtain ⟨body, hbody, htied⟩ :=
    defaultGetter_tied (n := n) (w := w) hF hinit hp (m.program.inside eval) hdefault hG hf
  refine ⟨body, hbody, fun s t hst => ?_⟩
  have h := m.program.inside_tied (e := body) (tie_dangling _) (fun _ => htied) s t hst
  rcases assigned_cases (m.program.inside ((semantics w m).eval n) body) s with ⟨s', hs⟩ | ⟨hs, hnull⟩
  · rw [hs]
    exact .left ⟨_, tie_dangling _, rfl⟩
  · rw [hs]
    simp only [Reference.readProperty, bind, EStateM.bind] at h ⊢
    generalize m.program.inside ((semantics w m).eval n) body s = r at h hnull
    cases hload : m.loadReceived (m.program.inside eval) f.dispatchReceiver field t with
    | error u t' =>
      rw [hload] at h
      exact h
    | ok v t' =>
      rw [hload] at h
      replace h : Agree (tie m.program).evals (· = ·) r (.error (.ret getter v) t') := h
      generalize hu : Unwind.ret getter v = u at h
      cases h with
      | error huv hst' =>
        cases huv with
        | ret d v' =>
          cases hu
          simp only [Reference.assigned, hnull _ _ _ rfl, Bool.false_eq_true, if_false]
          exact .error (.ret getter v) hst'
        | @stop a b hstop => cases b <;> cases hu
      | left hl => exact .left hl
      | right hr =>
        obtain ⟨_, hr, _⟩ := hr
        exact hr.elim

end Getter

/-! ## Operations -/

/-- What is kept ends alike under watch and by the reference. -/
def EvalTied (w : Lowering) (m : Machine) (n k : Nat) : Prop :=
  ∀ e, w.Kept m.program e →
    Tied (tie m.program).evals (· = ·) ((semantics w m).eval n e) ((Reference.semantics w m).eval k e)

variable (h : w.Lowers m m') (hdefault : m.program.HasDefaultGetters) (ih : EvalTied w m n k)
include h ih

theorem enter_tied (e : ExprId) : Tied (tie m.program).evals (· = ·) (m.program.inside ((semantics w m).eval n) e)
    (m.program.inside ((Reference.semantics w m).eval k) e) := by
  refine m.program.inside_tied (tie_dangling _) fun he => ?_
  rw [inside, if_pos he]
  exact ih e (.of_entrance h.forest he)

theorem declare_reference {d : DeclId} (hd : .decl d ∈ m.program.nodes) : Tied (tie m.program).evals (· = ·)
    (declare m ((semantics w m).eval n) d) (Reference.declare m ((Reference.semantics w m).eval k) d) := by
  obtain ⟨D, hD⟩ := has_decl_iff.1 ((enclosed_nodes h.forest).has _ hd)
  cases hdef : D.isDeferredVariable with
  | false =>
    have hleft : declare m ((semantics w m).eval n) d = m.declare (m.program.inside ((semantics w m).eval n)) d := by
      simp only [declare, Machine.decl, hD, pure_bind, hdef, Bool.false_eq_true, if_false]
    have hright : Reference.declare m ((Reference.semantics w m).eval k) d =
        m.declare (m.program.inside ((Reference.semantics w m).eval k)) d := by
      simp only [Reference.declare, Machine.decl, hD, pure_bind, hdef, Bool.false_eq_true, if_false]
    rw [hleft, hright]
    exact Tie.declare_of_enter m (enter_tied h ih) d
  | true =>
    have hright : Reference.declare m ((Reference.semantics w m).eval k) d = EvalM.setLocal d .null := by
      simp only [Reference.declare, Machine.decl, hD, pure_bind, hdef, if_true]
    rw [hright]
    cases h.lowered.changed hd (Lowering.construct?_of_isDeferredVariable hD hdef) with
    | @var _ D' v null hD' hv hinit =>
      rw [hD] at hD'
      obtain rfl := Option.some.inj hD'
      intro s t hst
      rcases declare_cases hD hdef ((semantics w m).eval n) s with hs | ⟨hnone, hs⟩
      · rw [hs]
        exact .left ⟨_, tie_dangling _, rfl⟩
      · have hidle : m.declare (m.program.inside ((semantics w m).eval n)) d = pure () := by
          simp only [Machine.declare, Machine.decl, hD, pure_bind, hv, DeclForm.var?, Option.bind_some, hinit]
        rw [hs, hidle, EvalM.setLocal_run]
        exact .ok rfl (State.Resembles.setLocal_right hst (.inr ⟨⟨D, hD, hdef⟩, hnone, rfl⟩))

include hdefault

theorem body_reference {function : DeclId} {D : Decl} {f : FunctionDecl} (hD : m.program.decl? function = some D)
    (hf : D.form = .function f) : (tie m.program).Bodies (body m ((semantics w m).eval n) function f)
      (Reference.body w m ((Reference.semantics w m).eval k) function f) := by
  cases hguarded : m.program.guardedField? function with
  | none =>
    simp only [body, Reference.body, hguarded, Option.isSome_none, Bool.false_eq_true, if_false]
    cases f.body with
    | none => exact .none
    | some e => exact .some fun s t hst _ => enter_tied h ih e s t hst
  | some r =>
    obtain ⟨field, name⟩ := r
    obtain ⟨d, P, q, _, hn, hP, hq, hdef, hfake, hgetter, hfield, _⟩ := Lowering.guardedField?_eq_some hguarded
    have hgetter := hdefault d P q function field ((mem_nodes_iff h.forest).1 hn) hP hq hdef hfake hgetter hfield
    obtain ⟨⟨F, content, _, _, _, hF, hcontent, hinit, _⟩, _⟩ := Lowering.exists_bodyGuard h.lowered hguarded
    have hnone : F.form.field?.bind (·.initializer) = none := by simp [hcontent, DeclForm.field?, hinit]
    obtain ⟨e, he, htied⟩ := readProperty_tied (n := n) (w := w) hF hnone h.closed hD hf
      ((Reference.semantics w m).eval k) hgetter name
    simp only [body, Reference.body, hguarded, he, Option.map_some, Option.isSome_some, if_true]
    exact .some fun s t hst _ => htied s t hst

theorem invoke_reference (function : DeclId) (this extension : Option Value) (args : List Value) :
    Tied (tie m.program).runs (· = ·) (invoke m ((semantics w m).eval n) function this extension args)
      (Reference.invoke w m ((Reference.semantics w m).eval k) function this extension args) := by
  refine Tie.invokeWith (Tie.machines_refl _ m) (fun D D' f f' hD hD' hf hf' => ?_) this extension args
  rw [hD] at hD'
  obtain rfl := Option.some.inj hD'
  rw [hf] at hf'
  obtain rfl := DeclForm.function.inj hf'
  exact body_reference h hdefault ih hD hf

/-- What a node does under watch is what it does by the reference, unless it is a breach. -/
theorem performs_reference {e : ExprId} {E : Expr} (he : w.Kept m.program e) (hE : m.program.expr? e = some E) :
    (tie m.program).Performs (operations w m ((semantics w m).eval n))
      (Reference.operations w m ((Reference.semantics w m).eval k)) E.form := by
  cases hform : E.form with
  | getValue x =>
    obtain ⟨X, hX⟩ := has_decl_iff.1 (h.closed.has_of_expr hE (n := .decl x)
      (by simp [hform, ExprForm.mentioned, ExprForm.subject?]))
    exact getValue_reference hX
  | setValue d _ => exact Tie.setLocal d
  | declare d =>
    refine declare_reference h ih ((enclosed_nodes h.forest).kids_mem he.mem ?_)
    simp [kids_expr hE, hform, ExprForm.owned]
  | getField field _ =>
    exact Tie.loadField (Tie.machines_refl _ m) (Tie.initialField_of_enter m (enter_tied h ih) field)
  | setField field _ _ => exact Tie.storeField (Tie.machines_refl _ m) field
  | call callee _ _ _ =>
    intro this extension args
    cases callee with
    | declared function => exact Tie.evaluated (invoke_reference h hdefault ih function this extension args)
    | library hash =>
      show Tied _ _ (if hash = w.intrinsics.isInitializedGetter then breach else EvalM.fail (m.libraryFault hash args)) _
      split
      · exact Tie.left_halt (tie_dangling _)
      · exact Tie.fail _
  | construct cls =>
    exact Tie.instantiate (Tie.machines_refl _ m) (Tie.initialField_of_enter m (enter_tied h ih)) cls
  | _ => exact trivial

omit hdefault ih in
/-- A query that comes to an end under watch does so while its receiver is evaluated, and the reference evaluates the
same receiver. -/
theorem query_reference (ih : ∀ {j}, j ≤ k → EvalTied w m j k) (hnk : n ≤ k) {e : ExprId} {E : Expr}
    (he : w.Kept m.program e) (hE : m.program.expr? e = some E)
    (hc : w.construct? m.program (.expr e) = some .query) :
    Tied (tie m.program).evals (· = ·) ((semantics w m).eval (n + 1) e) ((Reference.semantics w m).eval (k + 1) e) := by
  cases hask : asksMore w E.form with
  | true =>
    have hbreach : (semantics w m).eval (n + 1) e = breach := by
      show node w m ((semantics w m).eval n) e = _
      simp only [node, Machine.expr, hE, pure_bind, hask, if_true]
    rw [hbreach]
    exact Tie.left_halt (tie_dangling _)
  | false =>
    cases h.lowered.changed he.mem hc with
    | @query _ reference E' N dispatch subject args property field P r ty g hE' hcall hN hform hP hr hfield =>
      rw [hE] at hE'
      obtain rfl := Option.some.inj hE'
      simp only [hcall, asksMore, decide_true, Bool.true_and, Bool.or_eq_false_iff, Bool.not_eq_false',
        Option.isSome_eq_false_iff, Option.isNone_iff_eq_none, List.isEmpty_iff] at hask
      obtain ⟨rfl, rfl⟩ := hask
      have hleft : (semantics w m).eval (n + 1) e = (semantics w m).eval n reference >>= fun _ => breach := by
        rw [eval_node hE (by simp [hcall, asksMore]), hcall]
        show (some <$> (semantics w m).eval n reference >>= fun _ =>
          if w.intrinsics.isInitializedGetter = w.intrinsics.isInitializedGetter then breach else EvalM.fail _) = _
        rw [if_pos rfl, map_eq_pure_bind, bind_assoc]
        rfl
      rw [hleft, Lowering.reference_eval_query hE (Lowering.queried?_eq hcall hN hform hP hr hfield)]
      cases n with
      | zero => exact fun s t _ => .left ⟨_, tie_exhausted _, rfl⟩
      | succ n =>
        have hreference : (semantics w m).eval (n + 1) reference =
            Operations.evalOption ((semantics w m).eval n) subject >>= fun v => pure (.reference property v) := by
          rw [eval_node hN (by rw [hform]; rfl), hform]
          cases subject <;> rfl
        have hsubject : ∀ s ∈ subject, Tied (tie m.program).evals (· = ·) ((semantics w m).eval n s)
            ((Reference.semantics w m).eval k s) := by
          intro s hs
          obtain rfl : subject = some s := hs
          exact ih (by omega) s (.subject h.forest he.mem hE hcall hN hform)
        rw [hreference, bind_assoc]
        exact .bind (Tied.evalOption hsubject) fun _ _ _ => Tie.left_halt (tie_dangling _)

omit ih in
/-- **What is kept ends alike under watch and by the reference.** -/
theorem eval_reference (hnk : n ≤ k) : EvalTied w m n k := by
  induction k generalizing n with
  | zero =>
    intro e _
    obtain rfl : n = 0 := by omega
    exact Tie.left_halt (tie_exhausted _)
  | succ k ih =>
    intro e he
    cases n with
    | zero => exact Tie.left_halt (tie_exhausted _)
    | succ n =>
      obtain ⟨E, hE⟩ := has_expr_iff.1 ((enclosed_nodes h.forest).has _ he.mem)
      by_cases hc : w.construct? m.program (.expr e) = some .query
      · exact query_reference h ih (by omega) he hE hc
      · have hask : asksMore w E.form = false :=
          Bool.eq_false_iff.2 fun hask => hc (construct?_of_asksMore hE hask)
        rw [eval_node hE hask, Lowering.reference_eval_node hE hc]
        exact Tie.evalNode_tied (performs_reference h hdefault (ih (by omega)) he hE)
          fun c hchild => ih (by omega) c (he.child h.forest hE hc hchild)

omit ih in
theorem step_reference (hnk : n ≤ k) (step : Step) :
    Tied (tie m.program).runs (· = ·) ((semantics w m).step n step) ((Reference.semantics w m).step k step) := by
  have ih := eval_reference h hdefault hnk
  cases step with
  | callFunction function args => exact invoke_reference h hdefault ih function none none args
  | callMethod function receiver args => exact invoke_reference h hdefault ih function (some receiver) none args
  | construct cls =>
    refine Tie.construct ?_ (Tie.strayReturn (Tie.machines_refl _ m))
    exact Tie.instantiate (Tie.machines_refl _ m) (Tie.initialField_of_enter m (enter_tied h ih)) cls

omit ih in
/-- **A watched run ends like the reference**, unless it halts. -/
theorem runs_reference (hnk : n ≤ k) (steps : List Step) (s : State) :
    (tie m.program).Runs ((semantics w m).run n steps s) ((Reference.semantics w m).run k steps s) := by
  have hleft (f : RuntimeFault) : ¬(tie m.program).left (.fault f) := by
    rintro (hf | hf) <;> cases hf
  have hright (f : RuntimeFault) : ¬(tie m.program).right (.fault f) := id
  exact Tie.takeSteps hleft hright (step_reference h hdefault hnk) steps (.refl (fun _ _ => .inl rfl) s)

end

end Watched

namespace Lowering

/-- **Lowering is transparent to programs that assign before use.**  Take a closed program that is a forest, whose
genuine deferred properties have the getters that they were declared with, and that has been lowered.  If the machine
that runs the original program comes to the end of some steps, and if watching it finds no breach, then a machine that
runs the lowered program gives the same answers at any depth that is about twice as deep or deeper. -/
theorem lower_transparent {l : Library} {options : LoweringOptions} {w : Lowering} (hw : ofLibrary l options = .ok w)
    {p q : Program} (hp : p.Closed) (hf : p.findShared = .ok none) (hdefault : p.HasDefaultGetters)
    {stats : LoweringStats} (h : w.lower p = (.ok stats, q)) (maxDepth : Nat) {steps : List Step} {s : State} {n : Nat}
    {answers : List Answer} (hrun : (Machine.semantics ⟨p, l, maxDepth⟩).run n steps s = .ok answers)
    (hwatched : (Watched.semantics w ⟨p, l, maxDepth⟩).run n steps s ≠ .error .dangling) :
    let machine : Machine := ⟨q, l, maxDepth⟩
    (∀ k, 2 * n + 5 ≤ k → ∃ answers', machine.semantics.run k steps s = .ok answers' ∧
      List.Forall₂ Answer.Alike answers answers') ∧
    (2 * n + 5 ≤ machine.depthBound → ∃ answers', takeSteps machine.take steps s = .ok answers' ∧
      List.Forall₂ Answer.Alike answers answers') := by
  intro machine
  have hlowers : Lowers w ⟨p, l, maxDepth⟩ machine := .of_lower hw hp hf h maxDepth
  have halike (k : Nat) (hk : 2 * n + 5 ≤ k) : ∃ answers', machine.semantics.run k steps s = .ok answers' ∧
      List.Forall₂ Answer.Alike answers answers' := by
    rcases (Watched.runs_tied w _ n steps s).of_right hrun with ⟨watched, hwatch, hsame⟩ | ⟨halt, hwatch, hhalt⟩
    · rcases (Watched.runs_reference hlowers hdefault (Nat.le_refl n) steps s).of_left hwatch with
        ⟨meant, hmeant, hreference⟩ | ⟨_, _, hfalse⟩
      · obtain ⟨answers', hrun', hlowered⟩ := hlowers.run_of_reference hk hmeant
        have hflip : List.Forall₂ (fun a b => Answer.Alike b a) watched answers :=
          hsame.imp fun _ _ h => (h.alike fun _ _ => id).symm
        have halike : List.Forall₂ Answer.Alike watched meant :=
          hreference.imp fun _ _ h => h.alike fun _ _ => id
        exact ⟨answers', hrun', Answer.forall₂_trans hflip.flip (Answer.forall₂_trans halike hlowered)⟩
      · exact hfalse.elim
    · obtain rfl := Stop.halt.inj hhalt
      exact absurd hwatch hwatched
  refine ⟨halike, fun hk => ?_⟩
  rw [← machine.run_depthBound]
  exact halike _ hk

/-- The sample program greets without asking whether anything is initialized, and the watch finds no breach. -/
theorem lower_transparent_sample :
    ofLibrary Library.standard {} = .ok Sample.lowering ∧ sample.Closed ∧ sample.findShared = .ok none ∧
      sample.HasDefaultGetters ∧
      (Sample.lowering.lower sample).1 = .ok { vars := 1, reads := 2, queries := 1, properties := 1 } ∧
      (Watched.semantics Sample.lowering ⟨sample, Library.standard, 256⟩).run 16 [.callFunction ⟨6⟩ []] {} ≠
        .error .dangling ∧
      ∃ answers answers',
        (Machine.semantics ⟨sample, Library.standard, 256⟩).run 16 [.callFunction ⟨6⟩ []] {} = .ok answers ∧
        answers.map (·.1) = [.ok (.str "ready")] ∧
        (Machine.semantics ⟨(Sample.lowering.lower sample).2, Library.standard, 256⟩).run 37 [.callFunction ⟨6⟩ []] {} =
          .ok answers' ∧ List.Forall₂ Answer.Alike answers answers' := by
  have hw : ofLibrary Library.standard {} = .ok Sample.lowering := by decide +kernel
  have hp : sample.Closed := by decide
  have hf : sample.findShared = .ok none := by decide +kernel
  have hstats : (Sample.lowering.lower sample).1 = .ok { vars := 1, reads := 2, queries := 1, properties := 1 } := by
    decide +kernel
  have hlower : Sample.lowering.lower sample =
      (.ok { vars := 1, reads := 2, queries := 1, properties := 1 }, (Sample.lowering.lower sample).2) := by
    rw [← hstats]
  have hwatched : (Watched.semantics Sample.lowering ⟨sample, Library.standard, 256⟩).run 16 [.callFunction ⟨6⟩ []] {} ≠
      .error .dangling := by
    have hvalues : ((Watched.semantics Sample.lowering ⟨sample, Library.standard, 256⟩).run 16
        [.callFunction ⟨6⟩ []] {}).map (·.map (·.1)) = .ok [.ok (.str "ready")] := by
      decide +kernel
    intro hbreach
    rw [hbreach] at hvalues
    cases hvalues
  have hvalues : ((Machine.semantics ⟨sample, Library.standard, 256⟩).run 16 [.callFunction ⟨6⟩ []] {}).map
      (·.map (·.1)) = .ok [.ok (.str "ready")] := by
    decide +kernel
  cases hrun : (Machine.semantics ⟨sample, Library.standard, 256⟩).run 16 [.callFunction ⟨6⟩ []] {} with
  | error halt =>
    rw [hrun] at hvalues
    cases hvalues
  | ok answers =>
    rw [hrun] at hvalues
    obtain ⟨answers', hrun', halike⟩ :=
      (lower_transparent hw hp hf Sample.hasDefaultGetters hlower 256 hrun hwatched).1 37 (by omega)
    exact ⟨hw, hp, hf, Sample.hasDefaultGetters, hstats, hwatched, answers, answers', rfl, Except.ok.inj hvalues, hrun', halike⟩

end Lowering

end DeferredInit
