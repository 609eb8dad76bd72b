import DeferredInit.Proofs.Lowering.Nodes
import DeferredInit.Proofs.Lowering.Order

/-!
# What the rule for a node adds and overwrites

`Lowering.After` describes what has become of a construct by what can be found in its place.  Here the same is
listed as a patch, with the places of the nodes added as parameters.  A rule that succeeds installs the patch of its
node, if the places are the handles that come next (`rule_patched`).

The patch is made of what the rule works on, the site.  Though the rule finds the program changed, the site is that
of the original program (`Finds.back`).  A patch follows its places when these are renamed (`Finds.rename_patch`).
-/

namespace DeferredInit

open Program

namespace Lowering

/-! ## Sites -/

/-- **What the rule for a construct works on.** -/
inductive Site where
  /-- A deferred variable. -/
  | var (d : DeclId) (D : Decl) (v : VariableDecl)
  /-- A read, with the type and the name of its variable. -/
  | read (e : ExprId) (E : Expr) (x : DeclId) (ty : Ty) (name : String)
  /-- A query and its reference, with the type of the property's field. -/
  | query (e reference : ExprId) (E N : Expr) (property field : DeclId) (subject : Option ExprId) (ty : Ty)
  /-- The field and the getter of a deferred property, with the type of the getter's receiver. -/
  | property (span : Span) (field getter : DeclId) (F G : Decl) (content : FieldDecl) (f : FunctionDecl)
    (receiver : Option (DeclId × Ty))

variable (w : Lowering) (p : Program)

/-- The site of a node, if it is a construct and has all the parts that its rule needs. -/
def site? (n : NodeId) : Option Site :=
  match w.construct? p n, n with
  | some .var, .decl d => do
    let D ← p.decl? d
    let v ← D.form.var?
    return .var d D v
  | some .read, .expr e => do
    let E ← p.expr? e
    let .getValue x := E.form | none
    let X ← p.decl? x
    return .read e E x (X.form.ty?.getD .unit) X.name
  | some .query, .expr e => do
    let E ← p.expr? e
    let .call _ _ (some reference) _ := E.form | none
    let N ← p.expr? reference
    let .propertyRef property subject none := N.form | none
    let P ← p.decl? property
    let r ← P.form.property?
    let field ← r.backingField
    let F ← p.decl? field
    return .query e reference E N property field subject (F.form.ty?.getD .unit)
  | some .property, .decl d => do
    let D ← p.decl? d
    let r ← D.form.property?
    let field ← r.backingField
    let getter ← r.getter
    let F ← p.decl? field
    let content ← F.form.field?
    let G ← p.decl? getter
    let f ← G.form.function?
    return .property D.span field getter F G content f (typedReceiver p f.dispatchReceiver)
  | _, _ => none

/-- Where the parts of a site come from. -/
inductive Finds : NodeId → Site → Prop
  | var {d : DeclId} {D : Decl} {v : VariableDecl} :
      w.construct? p (.decl d) = some .var → p.decl? d = some D → D.form = .var v → Finds (.decl d) (.var d D v)
  | read {e : ExprId} {E : Expr} {x : DeclId} {X : Decl} :
      w.construct? p (.expr e) = some .read → p.expr? e = some E → E.form = .getValue x → p.decl? x = some X →
      Finds (.expr e) (.read e E x (X.form.ty?.getD .unit) X.name)
  | query {e reference : ExprId} {E N : Expr} {callee : Callee} {dispatch subject : Option ExprId}
      {args : List ExprId} {property field : DeclId} {P F : Decl} {r : PropertyDecl} :
      w.construct? p (.expr e) = some .query → p.expr? e = some E →
      E.form = .call callee dispatch (some reference) args → p.expr? reference = some N →
      N.form = .propertyRef property subject none → p.decl? property = some P → P.form = .property r →
      r.backingField = some field → p.decl? field = some F →
      Finds (.expr e) (.query e reference E N property field subject (F.form.ty?.getD .unit))
  | property {d field getter : DeclId} {D F G : Decl} {r : PropertyDecl} {content : FieldDecl} {f : FunctionDecl} :
      w.construct? p (.decl d) = some .property → p.decl? d = some D → D.form = .property r →
      r.backingField = some field → r.getter = some getter → p.decl? field = some F → F.form = .field content →
      p.decl? getter = some G → G.form = .function f →
      Finds (.decl d) (.property D.span field getter F G content f (typedReceiver p f.dispatchReceiver))

variable {w p} in
theorem site?_eq_none {n : NodeId} (h : w.construct? p n = none) : w.site? p n = none := by
  simp only [site?, h]

variable {w p} in
theorem Finds.site?_eq {n : NodeId} {S : Site} (h : Finds w p n S) : w.site? p n = some S := by
  cases h with
  | var hc hd hD => simp [site?, hc, hd, hD, DeclForm.var?]
  | read hc he hE hx => simp [site?, hc, he, hE, hx]
  | query hc he hE hN hform hP hr hfield hF =>
    simp [site?, hc, he, hE, hN, hform, hP, hr, DeclForm.property?, hfield, hF]
  | property hc hd hD hfield hgetter hF hcontent hG hf =>
    simp [site?, hc, hd, hD, DeclForm.property?, hfield, hgetter, hF, hcontent, DeclForm.field?, hG, hf,
      DeclForm.function?]

variable {w p} in
theorem finds_of_site? {n : NodeId} {S : Site} (h : w.site? p n = some S) : Finds w p n S := by
  unfold site? at h
  split at h
  · next d hc =>
    simp only [Option.bind_eq_bind, Option.bind_eq_some_iff, Option.pure_def, Option.some.injEq] at h
    obtain ⟨D, hd, v, hv, rfl⟩ := h
    exact .var hc hd (DeclForm.var?_eq_some.1 hv)
  · next e hc =>
    simp only [Option.bind_eq_bind, Option.bind_eq_some_iff, Option.pure_def] at h
    obtain ⟨E, he, h⟩ := h
    split at h
    · next x hE =>
      simp only [Option.bind_eq_some_iff, Option.some.injEq] at h
      obtain ⟨X, hx, rfl⟩ := h
      exact .read hc he hE hx
    · cases h
  · next e hc =>
    simp only [Option.bind_eq_bind, Option.bind_eq_some_iff, Option.pure_def] at h
    obtain ⟨E, he, h⟩ := h
    split at h
    · next reference _ hE =>
      simp only [Option.bind_eq_some_iff] at h
      obtain ⟨N, hN, h⟩ := h
      split at h
      · next property subject hform =>
        simp only [Option.bind_eq_some_iff, Option.some.injEq] at h
        obtain ⟨P, hP, r, hr, field, hfield, F, hF, rfl⟩ := h
        exact .query hc he hE hN hform hP (DeclForm.property?_eq_some.1 hr) hfield hF
      · cases h
    · cases h
  · next d hc =>
    simp only [Option.bind_eq_bind, Option.bind_eq_some_iff, Option.pure_def, Option.some.injEq] at h
    obtain ⟨D, hd, r, hr, field, hfield, getter, hgetter, F, hF, content, hcontent, G, hG, f, hf, rfl⟩ := h
    exact .property hc hd (DeclForm.property?_eq_some.1 hr) hfield hgetter hF (DeclForm.field?_eq_some.1 hcontent) hG
      (DeclForm.function?_eq_some.1 hf)
  · cases h

/-! ## The patch of a site -/

variable (held : DeclId) (place : Nat → ExprId)

/-- What is added and overwritten for a deferred variable. -/
def varPatch (d : DeclId) (D : Decl) (v : VariableDecl) : Patch where
  newExprs := [(place 0, ⟨D.span, v.ty.makeNullable, .const .null⟩)]
  decls := [(d, D.withInitializer (place 0))]

/-- What is added and overwritten for a read of a deferred variable. -/
def readPatch (e : ExprId) (E : Expr) (x : DeclId) (ty : Ty) (name : String) : Patch where
  newExprs := w.readNodes E.span x ty name place
  exprs := [(e, { E with form := .block [place 5, place 6] })]

/-- What is added and overwritten for a query whether a property is initialized. -/
def queryPatch (e reference : ExprId) (E N : Expr) (property field : DeclId) (subject : Option ExprId) (ty : Ty) :
    Patch where
  newExprs := [(place 0, ⟨E.span, ty, .getField field subject⟩), (place 1, ⟨E.span, .nullableAny, .const .null⟩)]
  exprs := [(reference, { N with form := .propertyRef property none none }),
    (e, ⟨E.span, .boolean, .binary .ne (place 0) (place 1)⟩)]

/-- What is added and overwritten for a deferred property. -/
def propertyPatch (span : Span) (field getter : DeclId) (F G : Decl) (content : FieldDecl) (f : FunctionDecl)
    (receiver : Option (DeclId × Ty)) : Patch where
  newDecls := [(held, heldVariable G.span content.ty held (place 1))]
  newExprs := w.bodyNodes G.span getter receiver field content.ty F.name held place ++
    [(place 12, ⟨span, content.ty.makeNullable, .const .null⟩)]
  decls := [(getter, { G with form := .function { f with body := some (place 11) } }),
    (field, F.withInitializer (place 12))]

/-- The patch of a site. -/
def Site.patch : Site → Patch
  | .var d D v => varPatch place d D v
  | .read e E x ty name => w.readPatch place e E x ty name
  | .query e reference E N target field subject ty => queryPatch place e reference E N target field subject ty
  | .property span field getter F G content f receiver =>
    w.propertyPatch held place span field getter F G content f receiver

/-- **The patch of a node**; it is empty if there is nothing to change. -/
def patchAt (n : NodeId) : Patch := ((w.site? p n).map (Site.patch w held place)).getD {}

section

variable {w p held place} {n : NodeId} {S : Site}

theorem patchAt_idle (h : w.site? p n = none) : w.patchAt p held place n = {} := by
  rw [patchAt, h]
  rfl

theorem Finds.patchAt_eq (h : Finds w p n S) : w.patchAt p held place n = S.patch w held place := by
  rw [patchAt, h.site?_eq]
  rfl

end

/-! ## Rules install patches -/

section Rules

open LowerM

variable {w held place} {s t : Progress} {n : NodeId}

theorem bind_built {α β : Type} {act : BuildM α} {next : α → BuildM β} {q q' : Program} {a : α}
    {r : EStateM.Result Halt Program β} (h : act q = .ok a q') (hnext : next a q' = r) : (act >>= next) q = r := by
  simp only [bind, EStateM.bind, h, hnext]

theorem initVariable_installs {d : DeclId} {D : Decl} {v : VariableDecl} (hd : s.program.decl? d = some D)
    (hi : v.initializer = none) (ht : v.ty.isPrimitive = false)
    (hes : Consecutive ExprId.mk s.program.exprs.size ((varPatch place d D v).newExprs.map Prod.fst)) :
    ∃ q, initVariable d D v s = .ok () ⟨q, Construct.var.count s.stats⟩ ∧
      Patched s.program q (varPatch place d D v) := by
  have hadded := (Patched.refl s.program).extendExprs hes
  refine ⟨_, ?_, hadded.setDecl (has_of_decl? hd) List.not_mem_nil (D.withInitializer (place 0))⟩
  have hplace : place 0 = ⟨s.program.exprs.size⟩ := hes.1
  have hnull := @BuildM.null_extend s.program [] [] D.span v.ty
  rw [extend_nil, List.length_nil, Nat.add_zero, ← hplace] at hnull
  simp only [initVariable, hi, Option.isSome_none, Bool.false_eq_true, if_false]
  rw [bind_ok (requireReference_run ht _ _),
    bind_ok (build_run (bind_built hnull (BuildM.modifyDecl_run (decl?_extend hd) _)))]
  rfl

theorem guardRead_installs {e : ExprId} {E : Expr} {x : DeclId} {X : Decl} {v : VariableDecl}
    (he : s.program.expr? e = some E) (hx : s.program.decl? x = some X) (hv : X.form = .var v)
    (ht : v.ty.isPrimitive = false)
    (hes : Consecutive ExprId.mk s.program.exprs.size
      ((w.readPatch place e E x v.ty X.name).newExprs.map Prod.fst)) :
    ∃ q, w.guardRead e E x X v s = .ok () ⟨q, Construct.read.count s.stats⟩ ∧
      Patched s.program q (w.readPatch place e E x v.ty X.name) := by
  have hadded := (Patched.refl s.program).extendExprs hes
  refine ⟨_, ?_, hadded.setExpr (has_of_expr? he) List.not_mem_nil { E with form := .block [place 5, place 6] }⟩
  have hguard := w.guardedRead_extend E.span hx (show X.form.ty?.getD .unit = v.ty by rw [hv]; rfl) hes
  rw [guardRead, bind_ok (requireReference_run ht _ _),
    bind_ok (build_run (bind_built hguard (BuildM.discard_replaceExpr_run (expr?_extend he) _)))]
  rfl

theorem replaceQuery_installs {e reference : ExprId} {E N : Expr} {callee : Callee} {dispatch subject : Option ExprId}
    {args : List ExprId} {property field : DeclId} {P F : Decl} {r : PropertyDecl} {ty : Ty}
    (he : s.program.expr? e = some E) (hE : E.form = .call callee dispatch (some reference) args)
    (hN : s.program.expr? reference = some N) (hform : N.form = .propertyRef property subject none)
    (hP : s.program.decl? property = some P) (hr : P.form = .property r) (ht : r.ty.isPrimitive = false)
    (hfield : r.backingField = some field) (hF : s.program.decl? field = some F) (hty : F.form.ty?.getD .unit = ty)
    (hes : Consecutive ExprId.mk s.program.exprs.size
      ((queryPatch place e reference E N property field subject ty).newExprs.map Prod.fst)) :
    ∃ q, replaceQuery e E (some reference) s = .ok () ⟨q, Construct.query.count s.stats⟩ ∧
      Patched s.program q (queryPatch place e reference E N property field subject ty) := by
  have hne := call_ne_reference he hE hN hform
  -- the reference is overwritten before anything is added
  obtain ⟨q, hq⟩ : ∃ q, q = s.program.setExpr reference { N with form := .propertyRef property none none } := ⟨_, rfl⟩
  have hmoved := (Patched.refl s.program).setExpr (has_of_expr? hN) List.not_mem_nil
    { N with form := .propertyRef property none none }
  rw [← hq] at hmoved
  have hsize := hmoved.size_exprs
  rw [List.length_nil, Nat.add_zero] at hsize
  rw [← hsize] at hes
  have hadded := hmoved.extendExprs hes
  refine ⟨_, ?_, hadded.setExpr (has_of_expr? he) (by simpa [Patch.overwritten] using hne)
    ⟨E.span, .boolean, .binary .ne (place 0) (place 1)⟩⟩
  simp only [queryPatch, List.map_cons, List.map_nil, Consecutive, and_true] at hes
  obtain ⟨h₀, h₁⟩ := hes
  have hF' : q.decl? field = some F := by rw [hq]; exact hF
  have he' : q.expr? e = some E := by rw [hq, expr?_setExpr _ hN, if_neg hne, he]
  have hcurrent := @BuildM.getField_extend q [] [] E.span field F ty (by rwa [extend_nil]) hty subject
  have hnull := @BuildM.null_extend q [] [⟨E.span, ty, .getField field subject⟩] E.span .nullableAny
  rw [extend_nil, List.length_nil, Nat.add_zero, ← h₀] at hcurrent
  rw [List.length_singleton, ← h₁] at hnull
  have hpresence : presence E.span field subject q = .ok (.binary .ne (place 0) (place 1)) _ :=
    bind_built hcurrent (bind_built hnull rfl)
  have hreplaced := BuildM.discard_replaceExpr_run hN { N with form := .propertyRef property none none }
  rw [← hq] at hreplaced
  simp only [replaceQuery]
  rw [bind_ok (expr_run hN)]
  simp only [hform]
  rw [bind_ok (decl_run hP)]
  simp only [hr, DeclForm.property?, hfield, Option.isSome_none, Bool.false_eq_true, if_false]
  rw [bind_ok (requireReference_run ht _ _), bind_ok (build_run (bind_built hreplaced
    (bind_built hpresence (BuildM.discard_replaceExpr_run (expr?_extend he') _))))]
  rfl

theorem guardGetter_installs (hp : s.program.Closed) {field getter : DeclId} {F G : Decl} {content : FieldDecl}
    {f : FunctionDecl} (hF : s.program.decl? field = some F) (hcontent : F.form = .field content)
    (hG : s.program.decl? getter = some G) (hf : G.form = .function f)
    (hds : Consecutive DeclId.mk s.program.decls.size [held])
    (hes : Consecutive ExprId.mk s.program.exprs.size
      ((w.bodyNodes G.span getter (typedReceiver s.program f.dispatchReceiver) field content.ty F.name held place).map
        Prod.fst)) :
    ∃ q, w.guardGetter getter field F.name s = .ok () { s with program := q } ∧
      Patched s.program q
        { newDecls := [(held, heldVariable G.span content.ty held (place 1))]
          newExprs :=
            w.bodyNodes G.span getter (typedReceiver s.program f.dispatchReceiver) field content.ty F.name held place
          decls := [(getter, { G with form := .function { f with body := some (place 11) } })] } := by
  have hadded := @Patched.extend s.program s.program {} (.refl s.program)
    [(held, heldVariable G.span content.ty held (place 1))] _ hds hes
  refine ⟨_, ?_, hadded.setDecl (has_of_decl? hG) List.not_mem_nil
    { G with form := .function { f with body := some (place 11) } }⟩
  have hreceiver : ∀ r ∈ f.dispatchReceiver, s.program.Has (.decl r) := fun r hr =>
    hp.has_of_decl hG (by simp [hf, DeclForm.mentioned, Option.mem_def.1 hr])
  have hbody := w.guardedBody_extend G.span hF (show F.form.ty?.getD .unit = content.ty by rw [hcontent]; rfl) hreceiver
    hds.1 hes
  rw [guardGetter, bind_ok (decl_run hG), DeclForm.function?_eq_some.2 hf]
  exact build_run (bind_built hbody (BuildM.modifyDecl_run (decl?_extend hG) _))

theorem guardProperty_installs (hp : s.program.Closed) {field getter : DeclId} {D F G : Decl} {r : PropertyDecl}
    {content : FieldDecl} {f : FunctionDecl} (hext : D.modifiers.isExtension = false)
    (hfield : r.backingField = some field) (hgetter : r.getter = some getter) (hF : s.program.decl? field = some F)
    (hcontent : F.form = .field content) (ht : content.ty.isPrimitive = false) (hi : content.initializer = none)
    (hG : s.program.decl? getter = some G) (hf : G.form = .function f) {receiver : Option (DeclId × Ty)}
    (hreceiver : receiver = typedReceiver s.program f.dispatchReceiver)
    (hds : Consecutive DeclId.mk s.program.decls.size
      ((w.propertyPatch held place D.span field getter F G content f receiver).newDecls.map Prod.fst))
    (hes : Consecutive ExprId.mk s.program.exprs.size
      ((w.propertyPatch held place D.span field getter F G content f receiver).newExprs.map Prod.fst)) :
    ∃ q, w.guardProperty D r s = .ok () ⟨q, Construct.property.count s.stats⟩ ∧
      Patched s.program q (w.propertyPatch held place D.span field getter F G content f receiver) := by
  subst hreceiver
  have hne : field ≠ getter := by
    rintro rfl
    rw [hF] at hG
    obtain rfl := Option.some.inj hG
    simp [hcontent] at hf
  simp only [propertyPatch, List.map_append, consecutive_append, List.length_map] at hes
  obtain ⟨hbody, hnull⟩ := hes
  obtain ⟨q, hguard, hq⟩ := guardGetter_installs hp hF hcontent hG hf hds hbody
  have hnot : .decl field ∉ [NodeId.decl getter] := by simpa using hne
  have hF' : q.decl? field = some F := Eq.trans (hq.sameAt (n := .decl field) (has_of_decl? hF) hnot) hF
  rw [← hq.size_exprs] at hnull
  refine ⟨_, ?_, (hq.extendExprs hnull).setDecl (has_of_decl? hF) hnot (F.withInitializer (place 12))⟩
  have hplace : place 12 = ⟨q.exprs.size⟩ := hnull.1
  have hnull := @BuildM.null_extend q [] [] D.span content.ty
  rw [extend_nil, List.length_nil, Nat.add_zero, ← hplace] at hnull
  simp only [guardProperty, hext, hfield, hgetter, Bool.false_eq_true, if_false]
  rw [bind_ok (decl_run hF), DeclForm.field?_eq_some.2 hcontent]
  simp only
  rw [bind_ok (requireReference_run ht _ _), bind_ok hguard]
  simp only [hi, Option.isSome_none, Bool.false_eq_true, if_false]
  rw [bind_ok (build_run (s := ⟨q, s.stats⟩) (bind_built hnull (BuildM.modifyDecl_run (decl?_extend hF') _)))]
  rfl

/-- **A rule that succeeds installs the patch of its node**, if the places of that are the handles that come next. -/
theorem rule_patched (hp : s.program.Closed) (hn : s.program.Has n) (hrule : w.rule n s = .ok () t)
    (hds : Consecutive DeclId.mk s.program.decls.size ((w.patchAt s.program held place n).newDecls.map Prod.fst))
    (hes : Consecutive ExprId.mk s.program.exprs.size ((w.patchAt s.program held place n).newExprs.map Prod.fst)) :
    Patched s.program t.program (w.patchAt s.program held place n) := by
  have outcome := rule_outcome (w := w) hp hn
  rw [hrule] at outcome
  -- the program is known twice, from the run that is given and from the run that installs the patch
  have agree {P : Patch} {stats : LoweringStats}
      (h : ∃ q, w.rule n s = .ok () ⟨q, stats⟩ ∧ Patched s.program q P) : Patched s.program t.program P := by
    obtain ⟨q, hrun, hq⟩ := h
    rw [hrule] at hrun
    cases hrun
    exact hq
  cases outcome with
  | idle hnone =>
    rw [patchAt_idle (site?_eq_none hnone)]
    exact .refl _
  | change h =>
    have hc := h.construct?_eq
    cases h with
    | @var d D v _ _ hd hdef hD hi ht _ =>
      rw [(Finds.var hc hd hD).patchAt_eq] at hds hes ⊢
      have hstart : w.rule (.decl d) s = initVariable d D v s := by
        rw [rule, declRule, bind_ok (decl_run hd)]
        simp only [hdef, hD, if_true]
      exact agree (hstart ▸ initVariable_installs hd hi ht hes)
    | @read e E x X v _ _ _ _ he hE hx hdef hv ht _ _ =>
      have hty : X.form.ty?.getD .unit = v.ty := by rw [hv]; rfl
      rw [(Finds.read hc he hE hx).patchAt_eq, hty] at hds hes ⊢
      have hstart : w.rule (.expr e) s = w.guardRead e E x X v s := by
        rw [rule, exprRule, bind_ok (expr_run he)]
        simp only [hE]
        rw [bind_ok (decl_run hx)]
        simp only [hdef, hv, if_true]
      exact agree (hstart ▸ guardRead_installs he hx hv ht hes)
    | @query e reference E N dispatch subject args property field P r ty _ _ _ he hE hN hform hP hr ht hfield _ _ =>
      obtain ⟨F, hF⟩ := has_decl_iff.1 (hp.has_of_decl hP (n := .decl field)
        (by simp [hr, DeclForm.mentioned, hfield]))
      rw [(Finds.query hc he hE hN hform hP hr hfield hF).patchAt_eq] at hds hes ⊢
      have hstart : w.rule (.expr e) s = replaceQuery e E (some reference) s := by
        rw [rule, exprRule, bind_ok (expr_run he)]
        simp only [hE, if_true]
      exact agree (hstart ▸ replaceQuery_installs he hE hN hform hP hr ht hfield hF rfl hes)
    | @property d field getter D F r content _ _ _ hd hdef hD hfake hext hfield hgetter hF hcontent ht hi hguard _ =>
      obtain ⟨hG, hf, -, -⟩ := hguard
      rw [(Finds.property hc hd hD hfield hgetter hF hcontent hG hf).patchAt_eq] at hds hes ⊢
      have hstart : w.rule (.decl d) s = w.guardProperty D r s := by
        rw [rule, declRule, bind_ok (decl_run hd)]
        simp only [hdef, hD, if_true, hfake, Bool.false_eq_true, if_false]
      exact agree (hstart ▸ guardProperty_installs hp hext hfield hgetter hF hcontent ht hi hG hf rfl hds hes)

end Rules

/-! ## What is found in the original program -/

section Original

variable {w p held place} {q : Program} {n : NodeId} {S : Site} {ρ : Renaming}

theorem Change.finds {c : Construct} {q' : Program} (h : Change w q n c q') (hq : q.Closed) : ∃ S, Finds w q n S := by
  have hc := h.construct?_eq
  cases h with
  | var hd _ hD => exact ⟨_, .var hc hd hD⟩
  | read he hE hx => exact ⟨_, .read hc he hE hx⟩
  | @query _ _ _ _ _ _ _ _ field _ _ _ _ _ _ he hE hN hform hP hr _ hfield =>
    obtain ⟨F, hF⟩ := has_decl_iff.1 (hq.has_of_decl hP (n := .decl field)
      (by simp [hr, DeclForm.mentioned, hfield]))
    exact ⟨_, .query hc he hE hN hform hP hr hfield hF⟩
  | property hd _ hD _ _ hfield hgetter hF hcontent _ _ hguard =>
    obtain ⟨hG, hf, -, -⟩ := hguard
    exact ⟨_, .property hc hd hD hfield hgetter hF hcontent hG hf⟩

/-- A receiver has the type that it had. -/
theorem typedReceiver_eq (halike : Alike p q) {receiver : Option DeclId} (hr : ∀ r ∈ receiver, p.Has (.decl r)) :
    typedReceiver q receiver = typedReceiver p receiver := by
  refine Option.map_congr fun r hmem => ?_
  obtain ⟨R, hR⟩ := has_decl_iff.1 (hr r hmem)
  obtain ⟨R', hR', -⟩ := halike r R hR
  obtain ⟨R₀, hR₀, hty, -⟩ := halike.back_ty (hr r hmem) hR'
  simp [hR', hR₀, hty]

/-- A rule finds at a node what the original program has there. -/
theorem Finds.back (h : Finds w q n S) (hp : p.Closed) (halike : Alike p q) (hn : p.Has n) (hsame : p.SameAt q n)
    (hkids : ∀ k ∈ p.kids n, Met w p q k) : Finds w p n S := by
  have hconstruct := construct?_congr (w := w) hp halike hn hsame
  cases h with
  | var hc hd hD => exact .var (hconstruct ▸ hc) (Eq.trans hsame.symm hd) hD
  | @read e E x X hc he hE hx =>
    have he₀ : p.expr? e = some E := Eq.trans hsame.symm he
    obtain ⟨X₀, hX₀, hty, hname⟩ :=
      halike.back_ty (hp.has_of_expr he₀ (by simp [hE, ExprForm.mentioned, ExprForm.subject?])) hx
    rw [← hty, ← hname]
    exact .read (hconstruct ▸ hc) he₀ hE hX₀
  | @query e reference E N callee dispatch subject args property field P F r hc he hE hN hform hP hr hfield hF =>
    have he₀ : p.expr? e = some E := Eq.trans hsame.symm he
    have hkid : .expr reference ∈ p.kids (.expr e) := by simp [kids_expr he₀, hE, ExprForm.owned, ExprForm.children]
    have hN₀ := (hkids _ hkid).expr? hN hform
    obtain ⟨P₀, hP₀, hsk⟩ :=
      halike.back (hp.has_of_expr hN₀ (by simp [hform, ExprForm.mentioned, ExprForm.subject?])) hP
    have hr₀ : P₀.form = .property r := by
      rw [← DeclForm.skeleton_property, show P₀.form.skeleton = P.form.skeleton from (Decl.mk.inj hsk).2.2.2,
        DeclForm.skeleton_property, hr]
    obtain ⟨F₀, hF₀, hty, -⟩ := halike.back_ty (hp.has_of_decl hP₀ (by simp [hr₀, DeclForm.mentioned, hfield])) hF
    rw [← hty]
    exact .query (hconstruct ▸ hc) he₀ hE hN₀ hform hP₀ hr₀ hfield hF₀
  | @property d field getter D F G r content f hc hd hD hfield hgetter hF hcontent hG hf =>
    have hd₀ : p.decl? d = some D := Eq.trans hsame.symm hd
    have hfkid : .decl field ∈ p.kids (.decl d) := by
      simp [kids_decl hd₀, hD, DeclForm.owned, DeclForm.ownedDecls, hfield]
    have hgkid : .decl getter ∈ p.kids (.decl d) := by
      simp [kids_decl hd₀, hD, DeclForm.owned, DeclForm.ownedDecls, hgetter]
    have hF₀ := (hkids _ hfkid).decl? hF (by simp [hcontent])
    have hG₀ := (hkids _ hgkid).decl? hG (by simp [hf])
    rw [typedReceiver_eq halike fun r hr => hp.has_of_decl hG₀ (by simp [hf, DeclForm.mentioned, Option.mem_def.1 hr])]
    exact .property (hconstruct ▸ hc) hd₀ hD hfield hgetter hF₀ hcontent hG₀ hf

/-- A patch overwrites what its rule touches. -/
theorem Finds.touches (h : Finds w p n S) {k : NodeId} (hk : k ∈ (S.patch w held place).overwritten) :
    Touches w p n k := by
  cases h with
  | var hc hd hD =>
    obtain rfl : k = _ := by simpa [Site.patch, varPatch, Patch.overwritten] using hk
    exact .var hc
  | read hc he hE hx =>
    obtain rfl : k = _ := by simpa [Site.patch, readPatch, Patch.overwritten] using hk
    exact .read hc
  | query hc he hE hN hform hP hr hfield hF =>
    obtain rfl | rfl : k = _ ∨ k = _ := by simpa [Site.patch, queryPatch, Patch.overwritten] using hk
    · exact .reference hc he hE hN hform
    · exact .query hc
  | property hc hd hD hfield hgetter hF hcontent hG hf =>
    obtain rfl | rfl : k = _ ∨ k = _ := by simpa [Site.patch, propertyPatch, Patch.overwritten] using hk
    · exact .getter hc hd hD hgetter hG hf
    · exact .field hc hd hD hfield hF hcontent

/-! ## Patches under other handles -/

theorem rename_reportNodes (span : Span) (name : String) (text failure : ExprId) :
    (w.reportNodes span name text failure).map (fun x => (ρ.expr x.1, x.2.rename ρ)) =
      w.reportNodes span name (ρ.expr text) (ρ.expr failure) := by
  cases hn : w.options.namesInReports <;> simp [reportNodes, hn, Expr.rename, ExprForm.rename, Callee.rename]

theorem rename_readNodes (span : Span) {x : DeclId} (ty : Ty) (name : String) (hx : ρ.decl x = x) :
    (w.readNodes span x ty name place).map (fun x => (ρ.expr x.1, x.2.rename ρ)) =
      w.readNodes span x ty name fun k => ρ.expr (place k) := by
  simp only [readNodes, List.map_append, rename_reportNodes]
  simp [Expr.rename, ExprForm.rename, hx]

theorem rename_bodyNodes (span : Span) {getter field : DeclId} {receiver : Option (DeclId × Ty)} (ty : Ty)
    (name : String) (hgetter : ρ.decl getter = getter) (hfield : ρ.decl field = field)
    (hreceiver : ∀ r ∈ receiver, ρ.decl r.1 = r.1) :
    (w.bodyNodes span getter receiver field ty name held place).map (fun x => (ρ.expr x.1, x.2.rename ρ)) =
      w.bodyNodes span getter receiver field ty name (ρ.decl held) fun k => ρ.expr (place k) := by
  simp only [bodyNodes, List.map_append, rename_reportNodes]
  cases receiver with
  | none => simp [Expr.rename, ExprForm.rename, hgetter, hfield]
  | some r =>
    have hr := hreceiver r rfl
    simp [Expr.rename, ExprForm.rename, hgetter, hfield, hr]

theorem rename_heldVariable (span : Span) (ty : Ty) (value : ExprId) :
    (heldVariable span ty held value).renameTemporary ρ (ρ.decl held) =
      heldVariable span ty (ρ.decl held) (ρ.expr value) := rfl

/-- **A patch follows its places** when these get other handles and the nodes of the program do not. -/
theorem Finds.rename_patch (h : Finds w p n S) (hp : p.Closed) (hρ : ∀ k, p.Has k → ρ.node k = k) :
    (S.patch w held place).rename ρ = S.patch w (ρ.decl held) fun k => ρ.expr (place k) := by
  have decl {d : DeclId} (hd : p.Has (.decl d)) : ρ.decl d = d := NodeId.decl.inj (hρ _ hd)
  have expr {e : ExprId} (he : p.Has (.expr e)) : ρ.expr e = e := NodeId.expr.inj (hρ _ he)
  have whole {d : DeclId} {D : Decl} (hd : p.decl? d = some D) : D.rename ρ = D :=
    Decl.rename_eq_self fun k hk => hρ k (hp.has_of_decl hd hk)
  cases h with
  | @var d D v hc hd hD =>
    simp [Site.patch, varPatch, Patch.rename, Decl.rename_withInitializer, whole hd, decl (has_of_decl? hd), Expr.rename,
      ExprForm.rename]
  | @read e E x X hc he hE hx =>
    simp only [Site.patch, readPatch, Patch.rename, rename_readNodes _ _ _ (decl (has_of_decl? hx)), List.map_cons,
      List.map_nil, expr (has_of_expr? he)]
    rfl
  | @query e reference E N callee dispatch subject args property field P F r hc he hE hN hform hP hr hfield hF =>
    have hsubject : subject.map ρ.expr = subject := by
      cases subject with
      | none => rfl
      | some e => exact congrArg some (expr (hp.has_of_expr hN (by simp [hform, ExprForm.mentioned, ExprForm.children])))
    simp [Site.patch, queryPatch, Patch.rename, expr (has_of_expr? he), expr (has_of_expr? hN), decl (has_of_decl? hP),
      decl (has_of_decl? hF), hsubject, Expr.rename, ExprForm.rename]
  | @property d field getter D F G r content f hc hd hD hfield hgetter hF hcontent hG hf =>
    have hreceiver : ∀ r ∈ typedReceiver p f.dispatchReceiver, ρ.decl r.1 = r.1 := fun r hr => by
      obtain ⟨d, hd, rfl⟩ := Option.map_eq_some_iff.1 hr
      exact decl (hp.has_of_decl hG (by simp [hf, DeclForm.mentioned, Option.mem_def.1 hd]))
    have hbody : ({ G with form := .function { f with body := some (place 11) } } : Decl).rename ρ =
        { G with form := .function { f with body := some (ρ.expr (place 11)) } } := by
      have hG' := congrArg Decl.form (whole hG)
      simp only [Decl.rename, hf, DeclForm.rename, DeclForm.function.injEq] at hG'
      obtain ⟨-, hparams, hdispatch, hextension, -, hproperty⟩ := FunctionDecl.mk.inj hG'
      simp [Decl.rename, DeclForm.rename, hparams, hdispatch, hextension, hproperty]
    simp only [Site.patch, propertyPatch, Patch.rename, List.map_append, List.map_cons, List.map_nil,
      rename_bodyNodes _ _ _ (decl (has_of_decl? hG)) (decl (has_of_decl? hF)) hreceiver, rename_heldVariable, hbody,
      Decl.rename_withInitializer, whole hF, decl (has_of_decl? hF), decl (has_of_decl? hG)]
    rfl

end Original

/-! ## The places of a patch -/

/-- The places of a patch are different ones. -/
theorem newExprs_patchAt (n : NodeId) :
    ∃ ks : List Nat, ks.Nodup ∧ ∀ held place, (w.patchAt p held place n).newExprs.map Prod.fst = ks.map place := by
  cases hS : w.site? p n with
  | none => exact ⟨[], List.nodup_nil, fun _ _ => by rw [patchAt_idle hS]; rfl⟩
  | some S =>
    simp only [(finds_of_site? hS).patchAt_eq]
    cases S with
    | var => exact ⟨[0], by simp, fun _ _ => rfl⟩
    | query => exact ⟨[0, 1], by simp, fun _ _ => rfl⟩
    | read =>
      cases hn : w.options.namesInReports with
      | false => exact ⟨[0, 1, 2, 4, 5, 6], by simp, by simp [Site.patch, readPatch, readNodes, reportNodes, hn]⟩
      | true => exact ⟨[0, 1, 2, 3, 4, 5, 6], by simp, by simp [Site.patch, readPatch, readNodes, reportNodes, hn]⟩
    | property span field getter F G content f receiver =>
      cases hn : w.options.namesInReports with
      | false =>
        refine ⟨receiver.toList.map (fun _ => 0) ++ [1, 2, 3, 4, 5, 6, 7, 9, 10, 11, 12], ?_, ?_⟩
        · cases receiver <;> simp
        · cases receiver <;> simp [Site.patch, propertyPatch, bodyNodes, reportNodes, hn]
      | true =>
        refine ⟨receiver.toList.map (fun _ => 0) ++ [1, 2, 3, 4, 5, 6, 7, 8, 9, 10, 11, 12], ?_, ?_⟩
        · cases receiver <;> simp
        · cases receiver <;> simp [Site.patch, propertyPatch, bodyNodes, reportNodes, hn]

/-- A patch adds one declaration at most. -/
theorem newDecls_patchAt (n : NodeId) :
    (∀ held place, (w.patchAt p held place n).newDecls.map Prod.fst = []) ∨
      ∀ held place, (w.patchAt p held place n).newDecls.map Prod.fst = [held] := by
  cases hS : w.site? p n with
  | none => exact .inl fun _ _ => by rw [patchAt_idle hS]; rfl
  | some S =>
    simp only [(finds_of_site? hS).patchAt_eq]
    cases S with
    | property => exact .inr fun _ _ => rfl
    | _ => exact .inl fun _ _ => rfl

end Lowering

end DeferredInit
