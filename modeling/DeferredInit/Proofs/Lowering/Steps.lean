import DeferredInit.Lowering.Traversal
import DeferredInit.Proofs.Lowering.Building
import DeferredInit.Proofs.Lowering.Violations

/-!
# What one rule does

`construct?` says which of the four constructs a node is, if any, and `Change` what has become of the program
when the rule of that construct has succeeded.  `rule_outcome` is the only place where the code of the rules is
looked into: in a closed program a rule leaves everything as it is, or makes the change, or reports the first of
the node's `violations`.  It does so before anything is changed, except that the getter of a property whose field
has an initializer is guarded first.
-/

namespace DeferredInit

open Program

theorem DeclForm.property?_eq_some {form : DeclForm} {q : PropertyDecl} :
    form.property? = some q ↔ form = .property q := by
  cases form <;> simp [property?]

theorem DeclForm.function?_eq_some {form : DeclForm} {f : FunctionDecl} :
    form.function? = some f ↔ form = .function f := by
  cases form <;> simp [function?]

theorem DeclForm.field?_eq_some {form : DeclForm} {f : FieldDecl} : form.field? = some f ↔ form = .field f := by
  cases form <;> simp [field?]

theorem DeclForm.var?_eq_some {form : DeclForm} {v : VariableDecl} : form.var? = some v ↔ form = .var v := by
  cases form <;> simp [var?]

/-- **The constructs that lowering changes.** -/
inductive Construct where
  /-- A deferred variable. -/
  | var
  /-- A read of a deferred variable. -/
  | read
  /-- A query whether a property is initialized. -/
  | query
  /-- A deferred property that is not inherited. -/
  | property
deriving DecidableEq, Repr

/-- Counts one more construct of a kind. -/
def Construct.count (c : Construct) (s : LoweringStats) : LoweringStats :=
  match c with
  | var => { s with vars := s.vars + 1 }
  | read => { s with reads := s.reads + 1 }
  | query => { s with queries := s.queries + 1 }
  | property => { s with properties := s.properties + 1 }

/-- A call is no reference to a property. -/
theorem Program.call_ne_reference {p : Program} {e reference : ExprId} {E N : Expr} {callee : Callee}
    {dispatch extension subject extended : Option ExprId} {args : List ExprId} {property : DeclId}
    (he : p.expr? e = some E) (hE : E.form = .call callee dispatch extension args)
    (hN : p.expr? reference = some N) (hform : N.form = .propertyRef property subject extended) : e ≠ reference := by
  rintro rfl
  rw [hN] at he
  obtain rfl := Option.some.inj he
  simp [hform] at hE

namespace Lowering

variable (w : Lowering) (p : Program)

/-- **Which construct a node is**, if it is one that lowering changes. -/
def construct? : NodeId → Option Construct
  | .decl d => do
    let D ← p.decl? d
    if D.isDeferredInit then
      match D.form with
      | .var _ => some .var
      | .property _ => if D.modifiers.isFakeOverride then none else some .property
      | _ => none
    else none
  | .expr e => do
    let E ← p.expr? e
    match E.form with
    | .getValue x => if (p.decl? x).any (·.isDeferredVariable) then some .read else none
    | .call (.library hash) _ _ _ => if hash = w.intrinsics.isInitializedGetter then some .query else none
    | _ => none

/-- **A getter has been guarded.** -/
inductive GuardsGetter (getter field : DeclId) (ty : Ty) (name : String) : Program → Prop
  | intro {G : Decl} {f : FunctionDecl} {q : Program} {g : BodyGuard w q G.span getter f.dispatchReceiver field ty name}
      {ds : List (DeclId × Decl)} {es : List (ExprId × Expr)} :
      p.decl? getter = some G → G.form = .function f → Assembles p [] q [.expr g.body] ds es →
      (∀ n ∈ g.nodes, ¬p.Has n) →
      GuardsGetter getter field ty name
        (q.setDecl getter { G with form := .function { f with body := some g.body } })

/-- **What a rule changes.**  Each kind of construct states what the rule found, what it built, and what it
overwrote. -/
inductive Change : NodeId → Construct → Program → Prop
  | var {d : DeclId} {D : Decl} {v : VariableDecl} {null : ExprId} {q : Program} :
      p.decl? d = some D → D.isDeferredInit = true → D.form = .var v →
      v.initializer = none → v.ty.isPrimitive = false →
      Assembles p [] q [.expr null] [] [(null, ⟨D.span, v.ty.makeNullable, .const .null⟩)] →
      Change (.decl d) .var (q.setDecl d (D.withInitializer null))
  | read {e : ExprId} {E : Expr} {x : DeclId} {X : Decl} {v : VariableDecl} {q : Program}
      {g : ReadGuard w q E.span x v.ty X.name} {ds : List (DeclId × Decl)} {es : List (ExprId × Expr)} :
      p.expr? e = some E → E.form = .getValue x →
      p.decl? x = some X → X.isDeferredInit = true → X.form = .var v → v.ty.isPrimitive = false →
      Assembles p [] q [.expr g.value, .expr g.check] ds es → (∀ n ∈ g.nodes, ¬p.Has n) →
      Change (.expr e) .read (q.setExpr e { E with form := g.form })
  | query {e reference : ExprId} {E N : Expr} {dispatch subject : Option ExprId} {args : List ExprId}
      {property field : DeclId} {P : Decl} {q : PropertyDecl} {ty : Ty} {q' : Program}
      {g : Presence q' E.span field subject ty} {es : List (ExprId × Expr)} :
      p.expr? e = some E →
      E.form = .call (.library w.intrinsics.isInitializedGetter) dispatch (some reference) args →
      p.expr? reference = some N → N.form = .propertyRef property subject none →
      p.decl? property = some P → P.form = .property q → q.ty.isPrimitive = false →
      q.backingField = some field →
      Assembles (p.setExpr reference { N with form := .propertyRef property none none })
        (subject.toList.map .expr) q' [.expr g.null, .expr g.value] [] es → (∀ n ∈ g.nodes, ¬p.Has n) →
      Change (.expr e) .query (q'.setExpr e ⟨E.span, .boolean, g.form⟩)
  | property {d field getter : DeclId} {D F : Decl} {q : PropertyDecl} {content : FieldDecl} {null : ExprId}
      {q₁ q₂ : Program} :
      p.decl? d = some D → D.isDeferredInit = true → D.form = .property q → D.modifiers.isFakeOverride = false →
      D.modifiers.isExtension = false → q.backingField = some field → q.getter = some getter →
      p.decl? field = some F → F.form = .field content → content.ty.isPrimitive = false →
      content.initializer = none → GuardsGetter w p getter field content.ty F.name q₁ →
      Assembles q₁ [] q₂ [.expr null] [] [(null, ⟨D.span, content.ty.makeNullable, .const .null⟩)] →
      Change (.decl d) .property (q₂.setDecl field (F.withInitializer null))

/-- **How a rule ends** at a node. -/
inductive Outcome (s : Progress) (n : NodeId) : EStateM.Result (Stop LoweringFault) Progress Unit → Prop
  /-- There is nothing to change. -/
  | idle : w.construct? s.program n = none → Outcome s n (.ok () s)
  /-- The construct is changed, and counted. -/
  | change {c : Construct} {q : Program} : Change w s.program n c q → Outcome s n (.ok () ⟨q, c.count s.stats⟩)
  /-- The node violates something. -/
  | fault {f : LoweringFault} : (w.violations s.program n).head? = some f → Outcome s n (.error (.fault f) s)
  /-- The field of a property is found to have an initializer when the getter is guarded already. -/
  | late {f : LoweringFault} {getter field : DeclId} {ty : Ty} {name : String} {q : Program} :
      (w.violations s.program n).head? = some f → GuardsGetter w s.program getter field ty name q →
      Outcome s n (.error (.fault f) { s with program := q })

end Lowering

namespace LowerM

variable {s t : Progress}

theorem bind_ok {α β : Type} {act : LowerM α} {next : α → LowerM β} {a : α} (h : act s = .ok a t) :
    (act >>= next) s = next a t := by
  simp only [bind, EStateM.bind, h]

theorem bind_error {α β : Type} {act : LowerM α} {next : α → LowerM β} {stop : Stop LoweringFault}
    (h : act s = .error stop t) : (act >>= next) s = .error stop t := by
  simp only [bind, EStateM.bind, h]

theorem build_run {α : Type} {act : BuildM α} {a : α} {q : Program} (h : act s.program = .ok a q) :
    build act s = .ok a { s with program := q } := by
  simp [build, h]

theorem decl_run {d : DeclId} {D : Decl} (h : s.program.decl? d = some D) : decl d s = .ok D s :=
  build_run (BuildM.decl_run h)

theorem expr_run {e : ExprId} {E : Expr} (h : s.program.expr? e = some E) : expr e s = .ok E s :=
  build_run (BuildM.expr_run h)

theorem fail_run {α : Type} (f : LoweringFault) : (fail f : LowerM α) s = .error (.fault f) s := rfl

theorem count_run (change : LoweringStats → LoweringStats) :
    count change s = .ok () { s with stats := change s.stats } := rfl

theorem requireReference_run {ty : Ty} (h : ty.isPrimitive = false) (name : String) (span : Span) :
    requireReference name ty span s = .ok () s := by
  rw [requireReference, if_neg (by simp [h])]
  rfl

theorem requireReference_fail {ty : Ty} (h : ty.isPrimitive = true) (name : String) (span : Span) :
    requireReference name ty span s = .error (.fault (.primitiveType name ty span)) s := by
  rw [requireReference, if_pos h]
  rfl

end LowerM

namespace Lowering

open LowerM LoweringFault

variable {w : Lowering} {s : Progress}

theorem initVariable_outcome {d : DeclId} {D : Decl} {v : VariableDecl} (hd : s.program.decl? d = some D)
    (hdef : D.isDeferredInit = true) (hv : D.form = .var v) :
    Outcome w s (.decl d) (initVariable d D v s) := by
  cases hi : v.initializer with
  | some init =>
    simp only [initVariable, hi, Option.isSome_some, if_true]
    rw [bind_error (fail_run _)]
    exact .fault (by simp [violations, hd, hdef, hv, VariableDecl.violations, hi, reportIf])
  | none =>
    cases ht : v.ty.isPrimitive with
    | true =>
      simp only [initVariable, hi, Option.isSome_none, Bool.false_eq_true, if_false]
      rw [bind_error (requireReference_fail ht _ _)]
      exact .fault (by simp [violations, hd, hdef, hv, VariableDecl.violations, Ty.violations, hi, ht, reportIf])
    | false =>
      obtain ⟨null, q, h, g⟩ := BuildM.null_assembles D.span v.ty (.start (p := s.program) (S := []))
      have hbuild : (do
          let null ← BuildM.null D.span v.ty
          BuildM.modifyDecl d (·.withInitializer null) : BuildM Unit) s.program =
            .ok () (q.setDecl d (D.withInitializer null)) := by
        simp only [bind, EStateM.bind, h, BuildM.modifyDecl_run (g.old.decl? hd)]
      simp only [initVariable, hi, Option.isSome_none, Bool.false_eq_true, if_false]
      rw [bind_ok (requireReference_run ht _ _), bind_ok (build_run hbuild), count_run]
      exact .change (.var hd hdef hv hi ht g)

theorem guardRead_outcome {e : ExprId} {E : Expr} {x : DeclId} {X : Decl} {v : VariableDecl}
    (he : s.program.expr? e = some E) (hE : E.form = .getValue x) (hx : s.program.decl? x = some X)
    (hdef : X.isDeferredInit = true) (hv : X.form = .var v) :
    Outcome w s (.expr e) (w.guardRead e E x X v s) := by
  cases ht : v.ty.isPrimitive with
  | true =>
    rw [guardRead, bind_error (requireReference_fail ht _ _)]
    exact .fault (by simp [violations, he, hE, hx, hdef, hv, Ty.violations, ht, reportIf])
  | false =>
    have hty : X.form.ty?.getD .unit = v.ty := by rw [hv]; rfl
    obtain ⟨q, g, ds, es, h, hq, hnew⟩ := guardedRead_assembles (w := w) E.span hx hty X.name
    have hbuild : (do
        let form ← w.guardedRead E.span x X.name
        discard (BuildM.replaceExpr e { E with form }) : BuildM Unit) s.program =
          .ok () (q.setExpr e { E with form := g.form }) := by
      simp only [bind, EStateM.bind, h, BuildM.discard_replaceExpr_run (hq.old.expr? he)]
    rw [guardRead, bind_ok (requireReference_run ht _ _), bind_ok (build_run hbuild), count_run]
    exact .change (.read he hE hx hdef hv ht hq hnew)

/-- Replacing a query builds the comparison and moves the receiver there. -/
theorem replaceQuery_builds {p : Program} {e reference : ExprId} {E N : Expr} {callee : Callee}
    {dispatch extension subject : Option ExprId} {args : List ExprId} {property field : DeclId} {F : Decl}
    (he : p.expr? e = some E) (hE : E.form = .call callee dispatch extension args)
    (hN : p.expr? reference = some N) (hform : N.form = .propertyRef property subject none)
    (hF : p.decl? field = some F) :
    ∃ (q : Program) (g : Presence q E.span field subject (F.form.ty?.getD .unit)) (es : List (ExprId × Expr)),
      (do
        discard (BuildM.replaceExpr reference { N with form := .propertyRef property none none })
        let form ← presence E.span field subject
        discard (BuildM.replaceExpr e ⟨E.span, .boolean, form⟩) : BuildM Unit) p =
          .ok () (q.setExpr e ⟨E.span, .boolean, g.form⟩) ∧
      Assembles (p.setExpr reference { N with form := .propertyRef property none none })
        (subject.toList.map .expr) q [.expr g.null, .expr g.value] [] es ∧ ∀ n ∈ g.nodes, ¬p.Has n := by
  have hne := call_ne_reference he hE hN hform
  obtain ⟨q, g, es, h, hq, hnew⟩ := presence_assembles E.span subject
    (p := p.setExpr reference { N with form := .propertyRef property none none }) hF rfl
  have he' := hq.old.expr? (e := e) (E := E) (by rw [expr?_setExpr _ hN, if_neg hne, he])
  refine ⟨q, g, es, ?_, hq, fun n hn => mt has_setExpr.2 (hnew n hn)⟩
  simp only [bind, EStateM.bind, BuildM.discard_replaceExpr_run hN, h, BuildM.discard_replaceExpr_run he']

theorem replaceQuery_outcome (hp : s.program.Closed) {e : ExprId} {E : Expr} {dispatch subject : Option ExprId}
    {args : List ExprId} (he : s.program.expr? e = some E)
    (hE : E.form = .call (.library w.intrinsics.isInitializedGetter) dispatch subject args) :
    Outcome w s (.expr e) (replaceQuery e E subject s) := by
  have hviolations : w.violations s.program (.expr e) = s.program.queryViolations E.span subject := by
    simp [violations, he, hE]
  unfold replaceQuery
  cases subject with
  | none => exact .fault (by simp [hviolations, queryViolations])
  | some reference =>
    obtain ⟨N, hN⟩ := has_expr_iff.1 (hp.has_of_expr he (n := .expr reference)
      (by simp [hE, ExprForm.mentioned, ExprForm.children]))
    simp only
    rw [bind_ok (expr_run hN)]
    cases hform : N.form with
    | propertyRef property receiver extension =>
      obtain ⟨P, hP⟩ := has_decl_iff.1 (hp.has_of_expr hN (n := .decl property)
        (by simp [hform, ExprForm.mentioned, ExprForm.subject?]))
      simp only
      rw [bind_ok (decl_run hP)]
      cases extension with
      | some extension => exact .fault (by simp [hviolations, queryViolations, hN, hform, hP, reportIf])
      | none =>
        simp only [Option.isSome_none, Bool.false_eq_true, if_false]
        cases hq : P.form.property? with
        | none =>
          refine .fault ?_
          simp only [hviolations, queryViolations, Option.bind_some, hN, Option.map_some, hform, hP, Option.elim_some]
          cases hPq : P.form <;> simp_all [DeclForm.property?, reportIf]
        | some q =>
          simp only
          have hPq : P.form = .property q := DeclForm.property?_eq_some.1 hq
          cases ht : q.ty.isPrimitive with
          | true =>
            rw [bind_error (requireReference_fail ht _ _)]
            exact .fault (by simp [hviolations, queryViolations, hN, hform, hP, hPq, Ty.violations, ht, reportIf])
          | false =>
            rw [bind_ok (requireReference_run ht _ _)]
            cases hf : q.backingField with
            | none =>
              exact .fault (by simp [hviolations, queryViolations, hN, hform, hP, hPq, Ty.violations, ht, hf, reportIf])
            | some field =>
              obtain ⟨F, hF⟩ := has_decl_iff.1 (hp.has_of_decl hP (n := .decl field)
                (by simp [hPq, DeclForm.mentioned, hf]))
              obtain ⟨q', g, es, hbuild, hq', hnew⟩ := replaceQuery_builds he hE hN hform hF
              simp only
              rw [bind_ok (build_run hbuild), count_run]
              exact .change (.query he hE hN hform hP hPq ht hf hq' hnew)
    | _ => exact .fault (by simp [hviolations, queryViolations, hN, hform])

/-- Guarding a getter succeeds if it is a function. -/
theorem guardGetter_run (hp : s.program.Closed) {getter field : DeclId} {G F : Decl} {f : FunctionDecl} {ty : Ty}
    (hG : s.program.decl? getter = some G) (hf : G.form = .function f) (hF : s.program.decl? field = some F)
    (hty : F.form.ty?.getD .unit = ty) (name : String) :
    ∃ q, w.guardGetter getter field name s = .ok () { s with program := q } ∧
      GuardsGetter w s.program getter field ty name q := by
  have hr : ∀ r ∈ f.dispatchReceiver, s.program.Has (.decl r) := fun r hr =>
    hp.has_of_decl hG (by simp [hf, DeclForm.mentioned, Option.mem_def.1 hr])
  obtain ⟨q, g, ds, es, h, hq, hnew⟩ :=
    guardedBody_assembles (w := w) G.span getter hF hty hr (has_of_decl? hG) name
  refine ⟨_, ?_, .intro hG hf hq hnew⟩
  have hbuild : (do
      let body ← w.guardedBody G.span getter f.dispatchReceiver field name
      BuildM.modifyDecl getter fun d => { d with form := .function { f with body := some body } } : BuildM Unit)
        s.program = .ok () (q.setDecl getter { G with form := .function { f with body := some g.body } }) := by
    simp only [bind, EStateM.bind, h, BuildM.modifyDecl_run (hq.old.decl? hG)]
  rw [guardGetter, bind_ok (decl_run hG), DeclForm.function?_eq_some.2 hf]
  exact build_run hbuild

/-- A field is no getter. -/
theorem GuardsGetter.ne {p q : Program} {getter field d : DeclId} {ty : Ty} {name : String} {D : Decl}
    {content : FieldDecl} (h : GuardsGetter w p getter field ty name q) (hd : p.decl? d = some D)
    (hD : D.form = .field content) : d ≠ getter := by
  rintro rfl
  obtain ⟨hG, hf, -, -⟩ := h
  rw [hd] at hG
  obtain rfl := Option.some.inj hG
  simp [hD] at hf

theorem GuardsGetter.decl?_of_ne {p q : Program} {getter field d : DeclId} {ty : Ty} {name : String} {D : Decl}
    (h : GuardsGetter w p getter field ty name q) (hd : p.decl? d = some D) (hne : d ≠ getter) :
    q.decl? d = some D := by
  obtain ⟨hG, -, hq, -⟩ := h
  rw [decl?_setDecl _ (hq.old.decl? hG), if_neg hne]
  exact hq.old.decl? hd

theorem guardProperty_outcome (hp : s.program.Closed) {d : DeclId} {D : Decl} {q : PropertyDecl}
    (hd : s.program.decl? d = some D) (hdef : D.isDeferredInit = true) (hq : D.form = .property q)
    (hfake : D.modifiers.isFakeOverride = false) :
    Outcome w s (.decl d) (w.guardProperty D q s) := by
  have hviolations : w.violations s.program (.decl d) = s.program.propertyViolations D q := by
    simp [violations, hd, hdef, hq, hfake]
  unfold guardProperty
  cases hext : D.modifiers.isExtension with
  | true => exact .fault (by simp [hviolations, propertyViolations, hext, reportIf])
  | false =>
    simp only [Bool.false_eq_true, if_false]
    cases hf : q.backingField with
    | none => exact .fault (by simp [hviolations, propertyViolations, hext, hf, reportIf])
    | some field =>
      cases hg : q.getter with
      | none => exact .fault (by simp [hviolations, propertyViolations, hext, hf, hg, reportIf])
      | some getter =>
        obtain ⟨F, hF⟩ := has_decl_iff.1 (hp.has_of_decl hd (n := .decl field) (by simp [hq, DeclForm.mentioned, hf]))
        obtain ⟨G, hG⟩ := has_decl_iff.1 (hp.has_of_decl hd (n := .decl getter) (by simp [hq, DeclForm.mentioned, hg]))
        simp only
        rw [bind_ok (decl_run hF)]
        -- what is violated, once the property is known to have a field and a getter
        have hparts : w.violations s.program (.decl d) = s.program.fieldViolations D field ++
            s.program.getterViolations getter ++ s.program.assignmentViolations D field := by
          simp [hviolations, propertyViolations, hext, hf, hg, reportIf]
        cases hc : F.form.field? with
        | none =>
          refine .fault ?_
          simp only [hparts, fieldViolations, hF, Option.elim_some]
          cases hcF : F.form <;> simp_all [DeclForm.field?]
        | some content =>
          have hcF := DeclForm.field?_eq_some.1 hc
          simp only
          cases ht : content.ty.isPrimitive with
          | true =>
            rw [bind_error (requireReference_fail ht _ _)]
            exact .fault (by simp [hparts, fieldViolations, hF, hcF, Ty.violations, ht, reportIf])
          | false =>
            rw [bind_ok (requireReference_run ht _ _)]
            cases hfun : G.form.function? with
            | none =>
              have hfail : w.guardGetter getter field F.name s =
                  .error (.fault (.unexpectedDecl G.name "function" G.span)) s := by
                rw [guardGetter, bind_ok (decl_run hG), hfun]
                rfl
              rw [bind_error hfail]
              exact .fault (by
                simp [hparts, fieldViolations, getterViolations, hF, hG, hcF, hfun, Ty.violations, ht, reportIf])
            | some f =>
              have hGf := DeclForm.function?_eq_some.1 hfun
              obtain ⟨q₁, hrun, hguard⟩ := guardGetter_run (w := w) hp hG hGf hF
                (show F.form.ty?.getD .unit = content.ty by rw [hcF]; rfl) F.name
              rw [bind_ok hrun]
              cases hi : content.initializer with
              | some init =>
                refine .late ?_ hguard
                simp [hparts, fieldViolations, getterViolations, assignmentViolations, hF, hG, hcF, hfun, Ty.violations,
                  ht, DeclForm.field?, hi, reportIf]
              | none =>
                obtain ⟨null, q₂, h, g⟩ := BuildM.null_assembles D.span content.ty (.start (p := q₁) (S := []))
                have hbuild : (do
                    let null ← BuildM.null D.span content.ty
                    BuildM.modifyDecl field (·.withInitializer null) : BuildM Unit) q₁ =
                      .ok () (q₂.setDecl field (F.withInitializer null)) := by
                  simp only [bind, EStateM.bind, h,
                    BuildM.modifyDecl_run (g.old.decl? (hguard.decl?_of_ne hF (hguard.ne hF hcF)))]
                simp only [Option.isSome_none, Bool.false_eq_true, if_false]
                rw [bind_ok (build_run hbuild), count_run]
                exact .change (.property hd hdef hq hfake hext hf hg hF hcF ht hi hguard g)

theorem declRule_outcome (hp : s.program.Closed) {d : DeclId} {D : Decl} (hd : s.program.decl? d = some D) :
    Outcome w s (.decl d) (w.declRule d s) := by
  rw [declRule, bind_ok (decl_run hd)]
  cases hdef : D.isDeferredInit with
  | false => exact .idle (by simp [construct?, hd, hdef])
  | true =>
    simp only [if_true]
    cases hform : D.form with
    | var v => exact initVariable_outcome hd hdef hform
    | property q =>
      simp only
      cases hfake : D.modifiers.isFakeOverride with
      | true => exact .idle (by simp [construct?, hd, hform, hfake])
      | false =>
        rw [if_neg (by simp)]
        exact guardProperty_outcome hp hd hdef hform hfake
    | _ => exact .idle (by simp [construct?, hd, hform])

theorem exprRule_outcome (hp : s.program.Closed) {e : ExprId} {E : Expr} (he : s.program.expr? e = some E) :
    Outcome w s (.expr e) (w.exprRule e s) := by
  rw [exprRule, bind_ok (expr_run he)]
  cases hform : E.form with
  | getValue x =>
    obtain ⟨X, hX⟩ := has_decl_iff.1 (hp.has_of_expr he (n := .decl x)
      (by simp [hform, ExprForm.mentioned, ExprForm.subject?]))
    simp only
    rw [bind_ok (decl_run hX)]
    cases hdef : X.isDeferredInit with
    | false => exact .idle (by simp [construct?, he, hform, hX, hdef, Decl.isDeferredVariable])
    | true =>
      simp only [if_true]
      cases hv : X.form with
      | var v => exact guardRead_outcome he hform hX hdef hv
      | _ => exact .idle (by simp [construct?, he, hform, hX, hv, Decl.isDeferredVariable, DeclForm.var?])
  | call callee dispatch extension args =>
    cases callee with
    | declared f => exact .idle (by simp [construct?, he, hform])
    | library hash =>
      by_cases hh : hash = w.intrinsics.isInitializedGetter
      · subst hh
        simp only [if_true]
        exact replaceQuery_outcome hp he hform
      · simp only [if_neg hh]
        exact .idle (by simp [construct?, he, hform, hh])
  | _ => exact .idle (by simp [construct?, he, hform])

/-- **What a rule does** to a closed program: nothing, a change, or it reports the first violation. -/
theorem rule_outcome (hp : s.program.Closed) {n : NodeId} (hn : s.program.Has n) : Outcome w s n (w.rule n s) := by
  cases n with
  | decl d =>
    obtain ⟨D, hD⟩ := has_decl_iff.1 hn
    exact declRule_outcome hp hD
  | expr e =>
    obtain ⟨E, hE⟩ := has_expr_iff.1 hn
    exact exprRule_outcome hp hE

end Lowering

end DeferredInit
