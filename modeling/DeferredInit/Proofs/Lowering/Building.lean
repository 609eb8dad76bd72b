import DeferredInit.Proofs.Lowering.Guards

/-!
# Building guards

Every builder that a rule uses succeeds where what it refers to exists.  The lemmas say what it adds and what
it leaves on the stack, in the terms of `Program.Assembles`, and describe the finished guards.
-/

namespace DeferredInit

open Program

variable {w : Lowering} {p q : Program} (span : Span) {name : String} {ty : Ty} {x getter field : DeclId}
variable {receiver : Option DeclId} {subject : Option ExprId} {D : Decl} {S T : List NodeId}
variable {ds : List (DeclId × Decl)} {es : List (ExprId × Expr)}

namespace BuildM

/-! ## Reading the program -/

theorem get_run (q : Program) : (get : BuildM Program) q = .ok q q := rfl

theorem modify_run (change : Program → Program) (q : Program) :
    (modify change : BuildM Unit) q = .ok () (change q) := rfl

theorem decl_run (h : q.decl? x = some D) : decl x q = .ok D q := by
  simp [decl, bind, EStateM.bind, get_run, h, pure, EStateM.pure]

theorem expr_run {e : ExprId} {E : Expr} (h : q.expr? e = some E) : expr e q = .ok E q := by
  simp [expr, bind, EStateM.bind, get_run, h, pure, EStateM.pure]

theorem declType_run (h : q.decl? x = some D) (hty : D.form.ty?.getD .unit = ty) : declType x q = .ok ty q := by
  simp [declType, bind, EStateM.bind, decl_run h, hty, pure, EStateM.pure]

theorem modifyDecl_run (h : q.decl? x = some D) (change : Decl → Decl) :
    modifyDecl x change q = .ok () (q.setDecl x (change D)) := by
  simp [modifyDecl, bind, EStateM.bind, decl_run h, modify_run]

theorem replaceExpr_run {e : ExprId} {E : Expr} (h : q.expr? e = some E) (new : Expr) :
    replaceExpr e new q = .ok E (q.setExpr e new) := by
  simp [replaceExpr, bind, EStateM.bind, expr_run h, modify_run, pure, EStateM.pure]

theorem discard_replaceExpr_run {e : ExprId} {E : Expr} (h : q.expr? e = some E) (new : Expr) :
    discard (replaceExpr e new) q = .ok () (q.setExpr e new) := by
  simp only [discard, Functor.discard, Functor.mapConst, Function.comp, EStateM.map, replaceExpr_run h]

/-! ## Adding nodes -/

theorem addDecl_run (D : Decl) (q : Program) : addDecl D q = .ok q.nextDecl (q.pushDecl D) := rfl

theorem addExpr_assembles (form : ExprForm) (ty : Ty) (h : Assembles p S q (form.owned.reverse ++ T) ds es)
    (hsub : ∀ d ∈ form.subject?, q.Has (.decl d)) :
    ∃ e q', addExpr span form ty q = .ok e q' ∧
      Assembles p S q' (.expr e :: T) ds ((e, ⟨span, ty, form⟩) :: es) :=
  ⟨_, _, rfl, .expr (E := ⟨span, ty, form⟩) h hsub⟩

theorem null_assembles (ty : Ty) (h : Assembles p S q T ds es) :
    ∃ e q', null span ty q = .ok e q' ∧
      Assembles p S q' (.expr e :: T) ds ((e, ⟨span, ty.makeNullable, .const .null⟩) :: es) :=
  addExpr_assembles span _ _ h (by simp [ExprForm.subject?])

theorem getValue_assembles (h : Assembles p S q T ds es) (hx : q.decl? x = some D)
    (hty : D.form.ty?.getD .unit = ty) :
    ∃ e q', getValue span x q = .ok e q' ∧
      Assembles p S q' (.expr e :: T) ds ((e, ⟨span, ty, .getValue x⟩) :: es) := by
  simp only [getValue, bind, EStateM.bind, declType_run hx hty]
  exact addExpr_assembles span _ _ h (by simp [ExprForm.subject?, has_of_decl? hx])

theorem getField_assembles (h : Assembles p S q (subject.toList.map .expr ++ T) ds es)
    (hf : q.decl? field = some D) (hty : D.form.ty?.getD .unit = ty) :
    ∃ e q', getField span field subject q = .ok e q' ∧
      Assembles p S q' (.expr e :: T) ds ((e, ⟨span, ty, .getField field subject⟩) :: es) := by
  simp only [getField, bind, EStateM.bind, declType_run hf hty]
  refine addExpr_assembles span _ _ ?_ (by simp [ExprForm.subject?, has_of_decl? hf])
  cases subject <;> exact h

theorem compareNull_assembles (op : BinaryOp) {value : ExprId} (h : Assembles p S q (.expr value :: T) ds es) :
    ∃ null test q', compareNull span op value q = .ok test q' ∧
      Assembles p S q' (.expr test :: T) ds
        ((test, ⟨span, .boolean, .binary op value null⟩) :: (null, ⟨span, .nullableAny, .const .null⟩) ::
          es) := by
  obtain ⟨null, q₁, h₁, g₁⟩ := null_assembles span .nullableAny h
  obtain ⟨test, q₂, h₂, g₂⟩ := addExpr_assembles span (.binary op value null) .boolean g₁
    (by simp [ExprForm.subject?])
  refine ⟨null, test, q₂, ?_, g₂⟩
  simp only [compareNull, binary, bind, EStateM.bind, h₁, h₂]

theorem this_assembles (h : Assembles p S q T ds es)
    (hr : ∀ r ∈ receiver, q.Has (.decl r)) :
    ∃ this reads q', BuildM.this span receiver q = .ok this q' ∧
      Assembles p S q' (this.toList.map .expr ++ T) ds (reads ++ es) ∧ this.toList = reads.map Prod.fst ∧
      ∀ q₂ : Program, (∀ t ∈ reads, q₂.expr? t.1 = some t.2) → ReadsReceiver q₂ span receiver this := by
  cases receiver with
  | none => exact ⟨none, [], q, rfl, h, rfl, fun _ _ => rfl⟩
  | some r =>
    obtain ⟨R, hR⟩ := has_decl_iff.1 (hr r rfl)
    obtain ⟨e, q₁, h₁, g₁⟩ := getValue_assembles span h hR rfl
    refine ⟨some e, [(e, _)], q₁, ?_, g₁, rfl, fun q₂ hq => ?_⟩
    · simp only [this, bind, EStateM.bind, h₁, pure, EStateM.pure]
    · exact ⟨e, _, rfl, hq _ List.mem_cons_self⟩

/-- A variable is declared under a name that nothing depends on. -/
theorem temporary_assembles {value : ExprId} {E : Expr} (h : Assembles p S q (.expr value :: T) ds es)
    (hE : q.expr? value = some E) :
    ∃ heldName held declaration q', temporary span value q = .ok (held, declaration) q' ∧
      Assembles p S q' (.expr declaration :: T)
        ((held, (Decl.var heldName E.ty span).withInitializer value) :: ds)
        ((declaration, ⟨span, .unit, .declare held⟩) :: es) := by
  have g₁ := Assembles.var ("tmp" ++ toString q.decls.size) E.ty span h
  obtain ⟨declaration, q₂, h₂, g₂⟩ := addExpr_assembles span (.declare q.nextDecl) .unit g₁
    (by simp [ExprForm.subject?, has_pushDecl])
  refine ⟨_, q.nextDecl, declaration, q₂, ?_, g₂⟩
  simp only [temporary, declare, bind, EStateM.bind, get_run, expr_run hE, addDecl_run, h₂, pure, EStateM.pure]

end BuildM

namespace Lowering

open BuildM

/-! ## Guards -/

theorem report_assembles (name : String) (h : Assembles p S q T ds es) :
    ∃ failure texts q', w.report span name q = .ok failure q' ∧
      Assembles p S q' (.expr failure :: T) ds
        ((failure, ⟨span, .nothing, .call (.library w.intrinsics.throwUninitialized) none none
          (texts.map Prod.fst)⟩) :: (texts ++ es)) ∧
      (∀ t ∈ texts, t.2 = ⟨span, .string, .const (.str name)⟩) ∧
      texts.length = if w.options.namesInReports then 1 else 0 := by
  cases hn : w.options.namesInReports with
  | false =>
    obtain ⟨failure, q₁, h₁, g₁⟩ := addExpr_assembles span
      (.call (.library w.intrinsics.throwUninitialized) none none []) .nothing h (by simp [ExprForm.subject?,
        Callee.function?])
    refine ⟨failure, [], q₁, ?_, g₁, by simp, by simp⟩
    simp only [report, hn, call, bind, EStateM.bind, pure, EStateM.pure, h₁, Bool.false_eq_true, if_false]
  | true =>
    obtain ⟨text, q₁, h₁, g₁⟩ := addExpr_assembles span (.const (.str name)) .string h
      (by simp [ExprForm.subject?])
    obtain ⟨failure, q₂, h₂, g₂⟩ := addExpr_assembles span
      (.call (.library w.intrinsics.throwUninitialized) none none [text]) .nothing g₁
      (by simp [ExprForm.subject?, Callee.function?])
    refine ⟨failure, [(text, ⟨span, .string, .const (.str name)⟩)], q₂, ?_, g₂, by simp, by simp⟩
    simp only [report, hn, call, string, bind, EStateM.bind, Functor.map, EStateM.map, List.singleton, h₁, h₂,
      if_true]

theorem guardedRead_assembles {x : DeclId} {D : Decl} (hx : p.decl? x = some D) (hty : D.form.ty?.getD .unit = ty)
    (name : String) :
    ∃ (q : Program) (g : ReadGuard w q span x ty name) (ds : List (DeclId × Decl)) (es : List (ExprId × Expr)),
      w.guardedRead span x name p = .ok g.form q ∧ Assembles p [] q [.expr g.value, .expr g.check] ds es ∧
      ∀ n ∈ g.nodes, ¬p.Has n := by
  have g₀ : Assembles p [] p [] [] [] := .start
  obtain ⟨tested, q₁, h₁, g₁⟩ := getValue_assembles span g₀ hx hty
  obtain ⟨null, test, q₂, h₂, g₂⟩ := compareNull_assembles span .eq g₁
  obtain ⟨failure, texts, q₃, h₃, g₃, ht, hl⟩ := report_assembles (w := w) span name g₂
  obtain ⟨check, q₄, h₄, g₄⟩ := addExpr_assembles span (.cond test failure none) .unit g₃
    (by simp [ExprForm.subject?])
  obtain ⟨value, q₅, h₅, g₅⟩ := getValue_assembles span g₄ (g₄.old.decl? hx) hty
  let g : ReadGuard w q₅ span x ty name :=
    { failure, args := texts.map Prod.fst, tested, null, test, check, value
      failure_eq := g₅.expr? (by simp)
      args_eq := fun a ha => by
        obtain ⟨t, hmem, rfl⟩ := List.mem_map.1 ha
        rw [← ht t hmem]
        exact g₅.expr? (by simp [hmem])
      length_args := by rw [List.length_map, hl]
      tested_eq := g₅.expr? (by simp)
      null_eq := g₅.expr? (by simp)
      test_eq := g₅.expr? (by simp)
      check_eq := g₅.expr? (by simp)
      value_eq := g₅.expr? (by simp) }
  refine ⟨q₅, g, _, _, ?_, g₅, fun n hn => g₅.fresh n ?_⟩
  · simp only [guardedRead, equalsNull, ifThen, bind, EStateM.bind, h₁, h₂, h₃, h₄, h₅, pure, EStateM.pure,
      ReadGuard.form, g]
  · simp only [ReadGuard.nodes, Report.nodes, g] at hn
    simp only [List.map_nil, List.nil_append, List.map_cons, List.map_append]
    grind

theorem guardedBody_assembles {F : Decl} (getter : DeclId) (hf : p.decl? field = some F)
    (hty : F.form.ty?.getD .unit = ty) (hr : ∀ r ∈ receiver, p.Has (.decl r))
    (hg : p.Has (.decl getter)) (name : String) :
    ∃ (q : Program) (g : BodyGuard w q span getter receiver field ty name) (ds : List (DeclId × Decl))
      (es : List (ExprId × Expr)),
      w.guardedBody span getter receiver field name p = .ok g.body q ∧ Assembles p [] q [.expr g.body] ds es ∧
      ∀ n ∈ g.nodes, ¬p.Has n := by
  have g₀ : Assembles p [] p [] [] [] := .start
  obtain ⟨this, reads, q₁, h₁, g₁, hreads, hthis⟩ := this_assembles span g₀ hr
  obtain ⟨current, q₂, h₂, g₂⟩ := getField_assembles span g₁ (g₁.old.decl? hf) hty
  obtain ⟨heldName, held, declaration, q₃, h₃, g₃⟩ := temporary_assembles span g₂ (g₂.expr? List.mem_cons_self)
  have hheld := g₃.decl? List.mem_cons_self
  obtain ⟨tested, q₄, h₄, g₄⟩ := getValue_assembles span g₃ hheld (Eq.refl ty)
  have hheld := g₄.decl? List.mem_cons_self
  obtain ⟨null, test, q₅, h₅, g₅⟩ := compareNull_assembles span .ne g₄
  have hheld := g₅.decl? List.mem_cons_self
  obtain ⟨result, q₆, h₆, g₆⟩ := getValue_assembles span g₅ hheld (Eq.refl ty)
  obtain ⟨success, q₇, h₇, g₇⟩ := addExpr_assembles span (.ret getter (some result)) .nothing g₆
    (by simp [ExprForm.subject?, g₆.old.has hg])
  obtain ⟨failure, texts, q₈, h₈, g₈, ht, hl⟩ := report_assembles (w := w) span name g₇
  obtain ⟨choice, q₉, h₉, g₉⟩ := addExpr_assembles span (.cond test success (some failure)) .nothing g₈
    (by simp [ExprForm.subject?])
  obtain ⟨body, q, h, g₁₀⟩ := addExpr_assembles span (.block [declaration, choice]) .unit g₉
    (by simp [ExprForm.subject?])
  let g : BodyGuard w q span getter receiver field ty name :=
    { failure, args := texts.map Prod.fst, this, current, held, heldName, declaration, tested, null, test, result,
      success, choice, body
      failure_eq := g₁₀.expr? (by simp)
      args_eq := fun a ha => by
        obtain ⟨t, hmem, rfl⟩ := List.mem_map.1 ha
        rw [← ht t hmem]
        exact g₁₀.expr? (by simp [hmem])
      length_args := by rw [List.length_map, hl]
      this_eq := hthis q fun t hmem => g₁₀.expr? (by simp [hmem])
      current_eq := g₁₀.expr? (by simp)
      held_eq := g₁₀.decl? (by simp)
      declaration_eq := g₁₀.expr? (by simp)
      tested_eq := g₁₀.expr? (by simp)
      null_eq := g₁₀.expr? (by simp)
      test_eq := g₁₀.expr? (by simp)
      result_eq := g₁₀.expr? (by simp)
      success_eq := g₁₀.expr? (by simp)
      choice_eq := g₁₀.expr? (by simp)
      body_eq := g₁₀.expr? (by simp) }
  refine ⟨q, g, _, _, ?_, g₁₀, fun n hn => g₁₀.fresh n ?_⟩
  · simp only [guardedBody, notEqualsNull, ifThenElse, ret, block, bind, EStateM.bind, h₁, h₂, h₃, h₄, h₅, h₆, h₇,
      h₈, h₉, h, g]
  · simp only [BodyGuard.nodes, Report.nodes, g, hreads] at hn
    simp only [List.map_cons, List.map_append, List.map_map, List.map_nil, List.cons_append, List.mem_cons,
      List.mem_append, List.append_nil, List.not_mem_nil, or_false] at hn ⊢
    grind

theorem presence_assembles (subject : Option ExprId) {F : Decl} (hf : p.decl? field = some F) (hty : F.form.ty?.getD .unit = ty) :
    ∃ (q : Program) (g : Presence q span field subject ty) (es : List (ExprId × Expr)),
      presence span field subject p = .ok g.form q ∧
      Assembles p (subject.toList.map .expr) q [.expr g.null, .expr g.value] [] es ∧ ∀ n ∈ g.nodes, ¬p.Has n := by
  have g₀ : Assembles p (subject.toList.map .expr) p (subject.toList.map .expr ++ []) [] [] := by
    rw [List.append_nil]
    exact .start
  obtain ⟨value, q₁, h₁, g₁⟩ := getField_assembles span g₀ hf hty
  obtain ⟨null, q, h₂, g₂⟩ := null_assembles span .nullableAny g₁
  let g : Presence q span field subject ty :=
    { value, null, value_eq := g₂.expr? (by simp), null_eq := g₂.expr? List.mem_cons_self }
  refine ⟨q, g, _, ?_, g₂, fun n hn => g₂.fresh n ?_⟩
  · simp only [presence, bind, EStateM.bind, h₁, h₂, pure, EStateM.pure, Presence.form, g]
  · simp only [Presence.nodes, g] at hn
    simp only [List.map_nil, List.nil_append, List.map_cons]
    grind

end Lowering

end DeferredInit
