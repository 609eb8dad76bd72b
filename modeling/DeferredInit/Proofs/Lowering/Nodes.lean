import DeferredInit.Proofs.Lowering.Building
import DeferredInit.Proofs.Lowering.Patch

/-!
# The nodes of a guard

`Program.Assembles` says of new code only that it holds together.  Here the new nodes are listed, in the order in
which they are built, as functions of the places that they get.  If these places are the handles that come next, a
builder builds just these nodes (`guardedRead_extend`, `guardedBody_extend`).
-/

namespace DeferredInit

open Program

/-! ## Builders -/

namespace BuildM

variable {q : Program} {ds : List Decl} {es : List Expr} (span : Span)

theorem addExpr_extend (form : ExprForm) (ty : Ty) :
    addExpr span form ty (q.extend ds es) =
      .ok ⟨q.exprs.size + es.length⟩ (q.extend ds (es ++ [⟨span, ty, form⟩])) := by
  have hrun : addExpr span form ty (q.extend ds es) =
      .ok (q.extend ds es).nextExpr ((q.extend ds es).pushExpr ⟨span, ty, form⟩) := rfl
  rw [hrun]
  simp [nextExpr, pushExpr, extend]

theorem addDecl_extend (D : Decl) :
    addDecl D (q.extend ds es) = .ok ⟨q.decls.size + ds.length⟩ (q.extend (ds ++ [D]) es) := by
  have hrun : addDecl D (q.extend ds es) = .ok (q.extend ds es).nextDecl ((q.extend ds es).pushDecl D) := rfl
  rw [hrun]
  simp [nextDecl, pushDecl, extend]

theorem null_extend (ty : Ty) :
    null span ty (q.extend ds es) =
      .ok ⟨q.exprs.size + es.length⟩ (q.extend ds (es ++ [⟨span, ty.makeNullable, .const .null⟩])) :=
  addExpr_extend span _ _

theorem getValue_extend {x : DeclId} {X : Decl} {ty : Ty} (hx : (q.extend ds es).decl? x = some X)
    (hty : X.form.ty?.getD .unit = ty) :
    getValue span x (q.extend ds es) =
      .ok ⟨q.exprs.size + es.length⟩ (q.extend ds (es ++ [⟨span, ty, .getValue x⟩])) := by
  simp only [getValue, bind, EStateM.bind, declType_run hx hty, addExpr_extend]

theorem getField_extend {field : DeclId} {F : Decl} {ty : Ty} (hf : (q.extend ds es).decl? field = some F)
    (hty : F.form.ty?.getD .unit = ty) (receiver : Option ExprId) :
    getField span field receiver (q.extend ds es) =
      .ok ⟨q.exprs.size + es.length⟩ (q.extend ds (es ++ [⟨span, ty, .getField field receiver⟩])) := by
  simp only [getField, bind, EStateM.bind, declType_run hf hty, addExpr_extend]

theorem compareNull_extend (op : BinaryOp) (value : ExprId) :
    compareNull span op value (q.extend ds es) =
      .ok ⟨q.exprs.size + es.length + 1⟩
        (q.extend ds (es ++ [⟨span, .nullableAny, .const .null⟩,
          ⟨span, .boolean, .binary op value ⟨q.exprs.size + es.length⟩⟩])) := by
  simp only [compareNull, binary, bind, EStateM.bind, null_extend, addExpr_extend, List.length_append, List.length_cons,
    List.length_nil, List.append_assoc, List.cons_append, List.nil_append, Nat.zero_add, Nat.add_assoc]
  rfl

theorem temporary_extend {value : ExprId} {E : Expr} (hE : (q.extend ds es).expr? value = some E) :
    temporary span value (q.extend ds es) =
      .ok (⟨q.decls.size + ds.length⟩, ⟨q.exprs.size + es.length⟩)
        (q.extend
          (ds ++ [(Decl.var (temporaryName ⟨q.decls.size + ds.length⟩) E.ty span).withInitializer value])
          (es ++ [⟨span, .unit, .declare ⟨q.decls.size + ds.length⟩⟩])) := by
  simp only [temporary, declare, bind, EStateM.bind, get_run, expr_run hE, addDecl_extend, addExpr_extend,
    size_decls_extend, temporaryName, pure, EStateM.pure]

end BuildM

namespace Lowering

open BuildM

variable (w : Lowering) (span : Span)

/-! ## Reports -/

/-- The nodes of a report: the text, if the lowering names what it reports, and the call. -/
def reportNodes (name : String) (text failure : ExprId) : List (ExprId × Expr) :=
  (if w.options.namesInReports then [(text, ⟨span, .string, .const (.str name)⟩)] else []) ++
    [(failure, ⟨span, .nothing, .call (.library w.intrinsics.throwUninitialized) none none
      (if w.options.namesInReports then [text] else [])⟩)]

variable {q : Program} {ds : List Decl} {es : List Expr}

theorem report_extend {name : String} {text failure : ExprId}
    (h : Consecutive ExprId.mk (q.exprs.size + es.length) ((w.reportNodes span name text failure).map Prod.fst)) :
    w.report span name (q.extend ds es) =
      .ok failure (q.extend ds (es ++ (w.reportNodes span name text failure).map Prod.snd)) := by
  cases hn : w.options.namesInReports with
  | false =>
    simp only [reportNodes, hn, Bool.false_eq_true, if_false, List.nil_append, List.map_cons, List.map_nil,
      Consecutive] at h ⊢
    simp only [report, hn, call, bind, EStateM.bind, pure, EStateM.pure, addExpr_extend, h.1, Bool.false_eq_true,
      if_false]
  | true =>
    simp only [reportNodes, hn, if_true, List.cons_append, List.nil_append, List.map_cons, List.map_nil,
      Consecutive] at h ⊢
    simp only [report, hn, call, string, bind, EStateM.bind, Functor.map, EStateM.map, List.singleton, addExpr_extend,
      h.1, h.2.1, if_true, List.length_append, List.length_cons, List.length_nil, List.append_assoc, List.cons_append,
      List.nil_append, Nat.zero_add, Nat.add_assoc]

/-! ## Guarded reads -/

/-- The nodes of a guarded read. -/
def readNodes (x : DeclId) (ty : Ty) (name : String) (place : Nat → ExprId) : List (ExprId × Expr) :=
  [(place 0, ⟨span, ty, .getValue x⟩), (place 1, ⟨span, .nullableAny, .const .null⟩),
    (place 2, ⟨span, .boolean, .binary .eq (place 0) (place 1)⟩)] ++
    w.reportNodes span name (place 3) (place 4) ++
    [(place 5, ⟨span, .unit, .cond (place 2) (place 4) none⟩), (place 6, ⟨span, ty, .getValue x⟩)]

/-- **Guarding a read** builds its nodes. -/
theorem guardedRead_extend {x : DeclId} {X : Decl} {ty : Ty} (hx : q.decl? x = some X)
    (hty : X.form.ty?.getD .unit = ty) {name : String} {place : Nat → ExprId}
    (h : Consecutive ExprId.mk q.exprs.size ((w.readNodes span x ty name place).map Prod.fst)) :
    w.guardedRead span x name q =
      .ok (.block [place 5, place 6]) (q.extend [] ((w.readNodes span x ty name place).map Prod.snd)) := by
  have hread (es : List Expr) := getValue_extend span (@decl?_extend q [] es _ _ hx) hty
  simp only [readNodes, List.map_append, List.map_cons, List.map_nil, consecutive_append, Consecutive,
    List.length_append, List.length_cons, List.length_nil, Nat.zero_add, Nat.reduceAdd, and_true] at h
  obtain ⟨⟨⟨h₀, h₁, h₂⟩, hreport⟩, h₅, h₆⟩ := h
  have hreport := @report_extend w span q []
    [⟨span, ty, .getValue x⟩, ⟨span, .nullableAny, .const .null⟩, ⟨span, .boolean, .binary .eq (place 0) (place 1)⟩]
    _ _ _ hreport
  rw [show w.guardedRead span x name q = w.guardedRead span x name (q.extend [] []) by rw [extend_nil]]
  simp only [guardedRead, equalsNull, bind, EStateM.bind, hread, compareNull_extend, List.nil_append,
    List.cons_append, List.length_cons, List.length_nil, Nat.zero_add, Nat.add_zero, ← h₀, ← h₁, ← h₂, hreport]
  simp only [ifThen, addExpr_extend, hread, readNodes, pure, EStateM.pure, h₅, h₆, List.length_append, List.length_map,
    List.length_cons, List.length_nil, Nat.zero_add, Nat.reduceAdd, Nat.add_comm 3, Nat.add_assoc, List.map_append,
    List.map_cons, List.map_nil, List.append_assoc, List.cons_append, List.nil_append]

/-! ## Guarded getters -/

/-- The nodes of a guarded getter's body, next to the variable `held`. -/
def bodyNodes (getter : DeclId) (receiver : Option (DeclId × Ty)) (field : DeclId) (ty : Ty) (name : String)
    (held : DeclId) (place : Nat → ExprId) : List (ExprId × Expr) :=
  receiver.toList.map (fun r => (place 0, ⟨span, r.2, .getValue r.1⟩)) ++
    [(place 1, ⟨span, ty, .getField field (receiver.map fun _ => place 0)⟩), (place 2, ⟨span, .unit, .declare held⟩),
      (place 3, ⟨span, ty, .getValue held⟩), (place 4, ⟨span, .nullableAny, .const .null⟩),
      (place 5, ⟨span, .boolean, .binary .ne (place 3) (place 4)⟩), (place 6, ⟨span, ty, .getValue held⟩),
      (place 7, ⟨span, .nothing, .ret getter (some (place 6))⟩)] ++
    w.reportNodes span name (place 8) (place 9) ++
    [(place 10, ⟨span, .nothing, .cond (place 5) (place 7) (some (place 9))⟩),
      (place 11, ⟨span, .unit, .block [place 2, place 10]⟩)]

/-- The variable that holds what a getter has read. -/
def heldVariable (span : Span) (ty : Ty) (held : DeclId) (value : ExprId) : Decl :=
  (Decl.var (temporaryName held) ty span).withInitializer value

/-- A receiver with its type. -/
def typedReceiver (q : Program) (receiver : Option DeclId) : Option (DeclId × Ty) :=
  receiver.map fun r => (r, ((q.decl? r).bind (·.form.ty?)).getD .unit)

theorem this_extend {receiver : Option DeclId} (hr : ∀ r ∈ receiver, q.Has (.decl r)) (this : ExprId)
    (h : ∀ r ∈ typedReceiver q receiver, this = ⟨q.exprs.size⟩) :
    BuildM.this span receiver (q.extend [] []) =
      .ok ((typedReceiver q receiver).map fun _ => this)
        (q.extend [] ((typedReceiver q receiver).toList.map fun r => ⟨span, r.2, .getValue r.1⟩)) := by
  cases receiver with
  | none => rfl
  | some r =>
    obtain ⟨R, hR⟩ := has_decl_iff.1 (hr r rfl)
    have hread := getValue_extend span (@decl?_extend q [] [] _ _ hR) rfl
    have hthis := h _ rfl
    simp only [BuildM.this, bind, EStateM.bind, hread, pure, EStateM.pure, typedReceiver, Option.map_some, hR,
      Option.bind_some, hthis, List.length_nil, Nat.add_zero, Option.toList_some, List.map_cons, List.map_nil,
      List.nil_append]

/-- **Guarding a getter** builds its body's nodes, and the variable. -/
theorem guardedBody_extend {getter field held : DeclId} {receiver : Option DeclId} {F : Decl} {ty : Ty}
    (hf : q.decl? field = some F) (hty : F.form.ty?.getD .unit = ty) (hr : ∀ r ∈ receiver, q.Has (.decl r))
    {name : String} {place : Nat → ExprId} (hheld : held = ⟨q.decls.size⟩)
    (h : Consecutive ExprId.mk q.exprs.size
      ((w.bodyNodes span getter (typedReceiver q receiver) field ty name held place).map Prod.fst)) :
    w.guardedBody span getter receiver field name q =
      .ok (place 11) (q.extend [heldVariable span ty held (place 1)]
        ((w.bodyNodes span getter (typedReceiver q receiver) field ty name held place).map Prod.snd)) := by
  have hthis := this_extend span hr (place 0)
  generalize typedReceiver q receiver = typed at h hthis
  simp only [bodyNodes, List.map_append, List.map_cons, List.map_nil, consecutive_append, Consecutive,
    List.length_append, List.length_cons, List.length_nil, Nat.zero_add, Nat.reduceAdd, and_true] at h
  obtain ⟨⟨⟨h₀, h₁, h₂, h₃, h₄, h₅, h₆, h₇⟩, hreport⟩, h₁₀, h₁₁⟩ := h
  have hthis := hthis fun r hr => by
    rw [Option.mem_def.1 hr] at h₀
    exact h₀.1
  subst hheld
  -- what each builder finds, whatever has been added before it
  have hget (es : List Expr) := getField_extend span (@decl?_extend q [] es _ _ hf) hty
  have hread {value : ExprId} (es : List Expr) := @getValue_extend _ _ _ span _ _ ty
    (@decl?_extend_added q [heldVariable span ty ⟨q.decls.size⟩ value] es 0) rfl
  have hdeclare := temporary_extend span (@expr?_extend_last q []
    (typed.toList.map fun r => ⟨span, r.2, .getValue r.1⟩) ⟨span, ty, .getField field (typed.map fun _ => place 0)⟩)
  have hreport := @report_extend w span q [heldVariable span ty ⟨q.decls.size⟩ (place 1)]
    (typed.toList.map (fun r => ⟨span, r.2, .getValue r.1⟩) ++
      [⟨span, ty, .getField field (typed.map fun _ => place 0)⟩, ⟨span, .unit, .declare ⟨q.decls.size⟩⟩,
        ⟨span, ty, .getValue ⟨q.decls.size⟩⟩, ⟨span, .nullableAny, .const .null⟩,
        ⟨span, .boolean, .binary .ne (place 3) (place 4)⟩, ⟨span, ty, .getValue ⟨q.decls.size⟩⟩,
        ⟨span, .nothing, .ret getter (some (place 6))⟩]) _ _ _ (by simpa using hreport)
  rw [show w.guardedBody span getter receiver field name q =
    w.guardedBody span getter receiver field name (q.extend [] []) by rw [extend_nil]]
  simp only [heldVariable, List.length_map, List.length_append, List.length_cons, List.length_nil, Nat.add_assoc,
    Nat.reduceAdd, Nat.add_zero, Nat.zero_add, List.append_assoc, List.cons_append, List.nil_append]
    at h₁ h₂ h₃ h₄ h₅ h₆ h₇ h₁₀ h₁₁ hread hdeclare hreport ⊢
  simp only [h₁, h₃, h₄, h₆] at hreport
  simp only [guardedBody, notEqualsNull, ret, bind, EStateM.bind, hthis, hget, hdeclare, hread, compareNull_extend,
    addExpr_extend, List.length_map, List.length_append, List.length_cons, List.length_nil, Nat.add_assoc,
    Nat.reduceAdd, List.append_assoc, List.cons_append, List.nil_append, hreport]
  simp only [ifThenElse, block, addExpr_extend, bodyNodes, List.length_map, List.length_append, List.length_cons,
    List.length_nil, Nat.add_assoc, Nat.reduceAdd, Nat.add_comm 7, h₁, h₂, h₃, h₄, h₅, h₆, h₇, h₁₀, h₁₁,
    List.append_assoc, List.cons_append, List.nil_append, List.map_append, List.map_cons, List.map_nil, List.map_map,
    Function.comp_def]

end Lowering

end DeferredInit
