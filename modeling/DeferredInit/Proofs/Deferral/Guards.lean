import DeferredInit.Proofs.Deferral.Reference

/-!
# What guards do

A guard that stands in the program of a machine does what the reference does in its place: the guard of a read ends
like the variable's value once it is seen to be assigned (`eval_readGuard`), and the guarded body of a getter like
the getter of a deferred property (`agree_bodyGuard`).  Guards are only so deep, so a few levels are enough.

The guarded body keeps what it has read in a variable of its own.  States are compared up to that variable, and it
is there to be read back only if a function is running.
-/

namespace DeferredInit

open Reference

/-- Nothing but null equals null. -/
theorem Value.equals_null (v : Value) : v.equals .null = v.isNull := by
  cases v <;> rfl

namespace Machine

variable (m : Machine) {w : Lowering} {span : Span} {ty : Ty} {name : String} {x getter field : DeclId}
variable {receiver : Option DeclId} {e : ExprId} {E : Expr}

/-! ## Single nodes -/

theorem eval_getValue (he : m.program.expr? e = some ⟨span, ty, .getValue x⟩) (depth : Nat) :
    m.eval (depth + 1) e = m.getValue x := by
  rw [m.eval_succ he]
  rfl

theorem eval_const {c : Constant} (he : m.program.expr? e = some ⟨span, ty, .const c⟩) (depth : Nat) :
    m.eval (depth + 1) e = pure (Value.ofConstant c) := by
  rw [m.eval_succ he]
  rfl

theorem eval_binary {op : BinaryOp} {a b : ExprId} (he : m.program.expr? e = some ⟨span, ty, .binary op a b⟩)
    (depth : Nat) : m.eval (depth + 1) e =
      (do let v ← m.eval depth a
          let v' ← m.eval depth b
          applyBinary op v v') := by
  rw [m.eval_succ he]
  rfl

theorem eval_cond {condition thenBranch : ExprId} {elseBranch : Option ExprId}
    (he : m.program.expr? e = some ⟨span, ty, .cond condition thenBranch elseBranch⟩) (depth : Nat) :
    m.eval (depth + 1) e =
      (do let taken ← truth (← m.eval depth condition)
          if taken then m.eval depth thenBranch
          else
            match elseBranch with
            | some e => m.eval depth e
            | none => return .unit) := by
  rw [m.eval_succ he]
  rfl

theorem eval_block {a b : ExprId} (he : m.program.expr? e = some ⟨span, ty, .block [a, b]⟩) (depth : Nat) :
    m.eval (depth + 1) e = m.eval depth a >>= fun _ => m.eval depth b := by
  rw [m.eval_succ he]
  show (m.eval depth a >>= fun _ => m.eval depth b >>= pure) = _
  simp only [bind_pure]

/-! ## Reports -/

/-- A report ends with the fault of an access before initialization. -/
theorem eval_report (hthrow : m.throwFunction? = some w.intrinsics.throwUninitialized)
    (r : Report w m.program span name) (depth : Nat) :
    m.eval (depth + 2) r.failure = EvalM.fail (uninitialized w name) := by
  have hargs (args : List ExprId) (h : ∀ a ∈ args, m.program.expr? a = some ⟨span, .string, .const (.str name)⟩) :
      Operations.evalList (m.eval (depth + 1)) args = (pure (args.map fun _ => .str name) : EvalM (List Value)) := by
    induction args with
    | nil => rfl
    | cons a rest ih =>
      rw [Operations.evalList, m.eval_const (h a List.mem_cons_self), ih fun b hb => h b (List.mem_cons_of_mem a hb)]
      rfl
  rw [m.eval_succ r.failure_eq]
  show (Operations.evalList (m.eval (depth + 1)) r.args >>= fun args =>
    EvalM.fail (m.libraryFault w.intrinsics.throwUninitialized args)) = _
  rw [hargs r.args r.args_eq, pure_bind, libraryFault, if_pos hthrow, uninitialized]
  have hlength := r.length_args
  cases hnames : w.options.namesInReports with
  | true =>
    rw [hnames, if_pos rfl] at hlength
    obtain ⟨a, ha⟩ := List.length_eq_one_iff.1 hlength
    rw [ha]
    rfl
  | false =>
    rw [hnames, if_neg Bool.false_ne_true] at hlength
    rw [List.eq_nil_of_length_eq_zero hlength]
    rfl

/-! ## Reads -/

/-- **The guard of a read** evaluates to what the variable holds once that is seen to be assigned. -/
theorem eval_readGuard (hthrow : m.throwFunction? = some w.intrinsics.throwUninitialized)
    (g : ReadGuard w m.program span x ty name) (he : m.program.expr? e = some E) (hE : E.form = g.form)
    (depth : Nat) : m.eval (depth + 4) e = m.getValue x >>= assigned w name := by
  obtain ⟨span', ty', form⟩ := E
  obtain rfl : form = .block [g.check, g.value] := hE
  have htest : m.eval (depth + 2) g.test = m.getValue x >>= fun v => pure (.bool v.isNull) := by
    rw [m.eval_binary g.test_eq, m.eval_getValue g.tested_eq, m.eval_const g.null_eq]
    simp only [Value.ofConstant, pure_bind, applyBinary, Value.equals_null]
  have hcheck : m.eval (depth + 3) g.check =
      m.getValue x >>= fun v => if v.isNull then EvalM.fail (uninitialized w name) else pure .unit := by
    rw [m.eval_cond g.check_eq, htest, m.eval_report hthrow g.toReport]
    simp only [bind_assoc, pure_bind, truth, Value.bool?]
  rw [m.eval_block he, hcheck, m.eval_getValue g.value_eq, bind_assoc]
  funext s
  simp only [bind, EStateM.bind]
  rcases m.getValue_run x s with ⟨v, hv⟩ | ⟨u, hu⟩
  · simp only [hv]
    cases hnull : v.isNull with
    | true =>
      simp only [assigned, hnull, if_true]
      rfl
    | false =>
      simp only [assigned, hnull, Bool.false_eq_true, if_false, pure, EStateM.pure, hv]
  · simp only [hu]

/-! ## Queries -/

/-- **What takes the place of a query** evaluates the receiver, reads the field, and compares with null. -/
theorem eval_presence {subject : Option ExprId} (g : Presence m.program span field subject ty)
    (he : m.program.expr? e = some E) (hE : E.form = g.form) (depth : Nat) : m.eval (depth + 2) e =
      (do let this ← Operations.evalOption (m.eval depth) subject
          let v ← m.loadField (m.eval depth) field this
          return .bool !v.isNull) := by
  obtain ⟨span', ty', form⟩ := E
  obtain rfl : form = .binary .ne g.value g.null := hE
  have hvalue : m.eval (depth + 1) g.value =
      Operations.evalOption (m.eval depth) subject >>= m.loadField (m.eval depth) field := by
    rw [m.eval_succ g.value_eq]
    rfl
  rw [m.eval_binary he, hvalue, m.eval_const g.null_eq]
  simp only [bind_assoc, pure_bind, Value.ofConstant, applyBinary, Value.equals_null]

/-! ## Getters -/

/-- A field that nothing is entered for is read within the same functions. -/
theorem frames_of_loadField {enter : ExprId → EvalM Value} {D : Decl} (hD : m.program.decl? field = some D)
    (hinit : D.form.field?.bind (·.initializer) = none) {this : Option Value} {s s' : State} {v : Value}
    (h : m.loadField enter field this s = .ok v s') : s'.frames = s.frames := by
  simp only [loadField, decl, hD, pure_bind] at h
  cases hstatic : D.modifiers.isStatic with
  | true =>
    simp only [hstatic, if_true, staticField, hinit, pure_bind] at h
    simp only [bind, EStateM.bind, EvalM.countRead_run, EvalM.static?_run] at h
    cases hs : s.statics.get? field with
    | none =>
      simp only [hs, EStateM.bind, EvalM.writeStatic_run] at h
      cases h
      rfl
    | some v =>
      simp only [hs] at h
      cases h
      rfl
  | false =>
    simp only [hstatic, Bool.false_eq_true, if_false, instanceOf] at h
    split at h
    · cases h
      rfl
    · cases h
    · cases h

theorem frames_of_loadReceived {enter : ExprId → EvalM Value} {D : Decl} (hD : m.program.decl? field = some D)
    (hinit : D.form.field?.bind (·.initializer) = none) {s s' : State} {v : Value}
    (h : m.loadReceived enter receiver field s = .ok v s') : s'.frames = s.frames := by
  cases receiver with
  | none => exact m.frames_of_loadField hD hinit h
  | some r =>
    rcases m.getValue_run r s with ⟨a, ha⟩ | ⟨u, hu⟩
    · simp only [loadReceived, bind, EStateM.bind, Functor.map, EStateM.map, ha] at h
      exact m.frames_of_loadField hD hinit h
    · simp only [loadReceived, bind, EStateM.bind, Functor.map, EStateM.map, hu] at h
      cases h

variable (g : BodyGuard w m.program span getter receiver field ty name)

/-- The field is read of what the getter's receiver holds. -/
theorem eval_current (depth : Nat) :
    m.eval (depth + 2) g.current = m.loadReceived (m.eval (depth + 1)) receiver field := by
  rw [m.eval_succ g.current_eq]
  have hthis := g.this_eq
  cases receiver with
  | none =>
    rw [show g.this = none from hthis]
    rfl
  | some r =>
    obtain ⟨t, ty', ht, he⟩ := hthis
    rw [ht]
    show (some <$> m.eval (depth + 1) t >>= fun this => m.loadField (m.eval (depth + 1)) field this) = _
    rw [m.eval_getValue he]
    rfl

theorem eval_declaration (depth : Nat) : m.eval (depth + 3) g.declaration =
    (do EvalM.setLocal g.held (← m.eval (depth + 2) g.current)
        return .unit) := by
  rw [m.eval_succ g.declaration_eq]
  show (m.declare (m.eval (depth + 2)) g.held >>= fun _ => pure Value.unit) = _
  simp only [declare, decl, g.held_eq, pure_bind]
  show ((m.eval (depth + 2) g.current >>= EvalM.setLocal g.held) >>= fun _ => pure Value.unit) = _
  rw [bind_assoc]

theorem eval_choice (hthrow : m.throwFunction? = some w.intrinsics.throwUninitialized) (depth : Nat) : m.eval (depth + 3) g.choice =
    (do let v ← m.getValue g.held
        if v.isNull then EvalM.fail (uninitialized w name)
        else throw (.ret getter (← m.getValue g.held))) := by
  have htest : m.eval (depth + 2) g.test = m.getValue g.held >>= fun v => pure (.bool !v.isNull) := by
    rw [m.eval_binary g.test_eq, m.eval_getValue g.tested_eq, m.eval_const g.null_eq]
    simp only [Value.ofConstant, pure_bind, applyBinary, Value.equals_null]
  have hsuccess : m.eval (depth + 2) g.success = m.getValue g.held >>= fun v => throw (.ret getter v) := by
    rw [m.eval_succ g.success_eq]
    show (some <$> m.eval (depth + 1) g.result >>= fun v => throw (.ret getter (v.getD .unit))) = _
    rw [m.eval_getValue g.result_eq, map_eq_pure_bind, bind_assoc]
    simp only [pure_bind, Option.getD_some]
  rw [m.eval_cond g.choice_eq, htest, hsuccess]
  simp only [bind_assoc, pure_bind, truth, Value.bool?, m.eval_report hthrow g.toReport]
  refine congrArg (m.getValue g.held >>= ·) (funext fun v => ?_)
  cases v.isNull <;> rfl

/-- **The guarded body of a getter** ends like the getter of a deferred property, from wherever a function runs. -/
theorem agree_bodyGuard (hthrow : m.throwFunction? = some w.intrinsics.throwUninitialized) {T : Tie}
    (hheld : ∀ a b, T.locals g.held a b) {depth : Nat} {read : EvalM Value}
    (hread : Tied T.evals (· = ·) read (m.eval (depth + 2) g.current))
    (hframes : ∀ s v s', read s = .ok v s' → s'.frames = s.frames) {s t : State} (hst : s.Resembles T.locals t)
    (ht : t.frames ≠ []) :
    Agree T.evals (· = ·) ((do let v ← read; throw (.ret getter (← assigned w name v)) : EvalM Value) s)
      (m.eval (depth + 4) g.body t) := by
  have h := hread s t hst
  rw [m.eval_block g.body_eq, m.eval_declaration g, m.eval_choice g hthrow]
  simp only [bind, EStateM.bind]
  generalize hr : read s = r, m.eval (depth + 2) g.current t = r' at h
  cases h with
  | @ok v _ s' t' hv hst' =>
    subst hv
    have hs' : t'.frames ≠ [] := by
      have hlength := (State.Resembles.frames hst).length_eq
      have hlength' := (State.Resembles.frames hst').length_eq
      rw [hframes s v s' hr] at hlength'
      intro hnil
      rw [hnil, List.length_nil] at hlength'
      exact ht (List.length_eq_zero_iff.1 (by omega))
    have hget := m.getValue_of_local? (State.local?_setLocal hs' g.held v)
    have hst'' := State.Resembles.setLocal_right hst' (hheld (s'.local? g.held) (some v))
    simp only [EvalM.setLocal_run, pure, EStateM.pure]
    rw [hget, assigned]
    cases hnull : v.isNull with
    | true =>
      simp only [hnull, if_true]
      exact Tie.fail (uninitialized w name) _ _ hst''
    | false =>
      simp only [hnull, Bool.false_eq_true, if_false, EStateM.bind, hget]
      exact .error (.ret getter v) hst''
  | error huv hst' => exact .error huv hst'
  | left hl => exact .left hl
  | right hr => exact .right hr

end Machine

end DeferredInit
