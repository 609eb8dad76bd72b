import DeferredInit.Proofs.Lowering.Failure

/-!
# Where the nodes of a lowered program come from

What can be reached in a lowered program was a node of the original program already, or belongs to something that a
rule has built.  `Origin` tells these apart; it holds of the outermost declarations, and of what a node owns if it
holds of the node (`Done.origin_of_mem_kids`), so it holds of all that can be reached (`Done.origin`).

The second half says what lowering would find in the lowered program.  Declarations are the constructs they were, but
what their rules expected of them is violated now; no other construct of the original program is left, and the only
new constructs are reads, which violate nothing.
-/

namespace DeferredInit

open Program LoweringFault

variable {w : Lowering} {p q : Program} {span : Span} {name : String} {ty : Ty} {x getter field : DeclId}
variable {receiver : Option DeclId} {subject : Option ExprId} {n k : NodeId}

/-! ## What the nodes of a guard own -/

theorem Report.kids_subset (r : Report w q span name) (hn : n ∈ r.nodes) : q.kids n ⊆ r.nodes := by
  obtain ⟨e, he, rfl⟩ := List.mem_map.1 hn
  rcases List.mem_cons.1 he with rfl | he
  · simp [kids_expr r.failure_eq, ExprForm.owned, ExprForm.children, nodes]
  · simp [kids_expr (r.args_eq e he), ExprForm.owned, ExprForm.children]

theorem ReadGuard.kids_subset (g : ReadGuard w q span x ty name) (hn : n ∈ g.nodes) : q.kids n ⊆ g.nodes := by
  have hfailure : .expr g.failure ∈ g.toReport.nodes := by simp [Report.nodes]
  simp only [nodes, List.map_cons, List.map_nil, List.cons_append, List.nil_append, List.mem_cons] at hn
  rcases hn with rfl | rfl | rfl | rfl | rfl | hn
  · simp [kids_expr g.tested_eq, ExprForm.owned, ExprForm.children]
  · simp [kids_expr g.null_eq, ExprForm.owned, ExprForm.children]
  · simp [kids_expr g.test_eq, ExprForm.owned, ExprForm.children, nodes]
  · simp [kids_expr g.check_eq, ExprForm.owned, ExprForm.children, nodes, hfailure]
  · simp [kids_expr g.value_eq, ExprForm.owned, ExprForm.children]
  · exact List.subset_append_of_subset_right _ (g.toReport.kids_subset hn)

theorem BodyGuard.kids_subset (g : BodyGuard w q span getter receiver field ty name) (hn : n ∈ g.nodes) :
    q.kids n ⊆ g.nodes := by
  have hfailure : .expr g.failure ∈ g.toReport.nodes := by simp [Report.nodes]
  simp only [nodes, List.map_append, List.map_cons, List.map_nil, List.mem_cons, List.mem_append, List.not_mem_nil,
    or_false, List.cons_append] at hn
  rcases hn with rfl | (hn | rfl | rfl | rfl | rfl | rfl | rfl | rfl | rfl | rfl) | hn
  · simp [kids_decl g.held_eq, Decl.withInitializer, Decl.var, DeclForm.withInitializer, DeclForm.owned,
      DeclForm.ownedDecls, DeclForm.ownedExprs, nodes]
  · obtain ⟨t, ht, rfl⟩ := List.mem_map.1 hn
    obtain ⟨r, ty, -, he⟩ := g.this_eq.expr? (Option.mem_toList.1 ht)
    simp [kids_expr he, ExprForm.owned, ExprForm.children]
  · cases hthis : g.this <;> simp [kids_expr g.current_eq, ExprForm.owned, ExprForm.children, nodes, hthis]
  · simp [kids_expr g.declaration_eq, ExprForm.owned, nodes]
  · simp [kids_expr g.tested_eq, ExprForm.owned, ExprForm.children]
  · simp [kids_expr g.null_eq, ExprForm.owned, ExprForm.children]
  · simp [kids_expr g.test_eq, ExprForm.owned, ExprForm.children, nodes]
  · simp [kids_expr g.result_eq, ExprForm.owned, ExprForm.children]
  · simp [kids_expr g.success_eq, ExprForm.owned, ExprForm.children, nodes]
  · simp [kids_expr g.choice_eq, ExprForm.owned, ExprForm.children, nodes, hfailure]
  · simp [kids_expr g.body_eq, ExprForm.owned, ExprForm.children, nodes]
  · exact List.subset_append_of_subset_right _ (g.toReport.kids_subset hn)

theorem Presence.kids_subset (g : Presence q span field subject ty) (hn : n ∈ g.nodes) :
    q.kids n ⊆ subject.toList.map .expr := by
  simp only [nodes, List.map_cons, List.map_nil, List.mem_cons, List.not_mem_nil, or_false] at hn
  rcases hn with rfl | rfl
  · cases subject <;> simp [kids_expr g.value_eq, ExprForm.owned, ExprForm.children]
  · simp [kids_expr g.null_eq, ExprForm.owned, ExprForm.children]

/-- Whether a construct is a declaration; the others are expressions. -/
def Construct.isDeclaration : Construct → Bool
  | .var | .property => true
  | .read | .query => false

namespace Lowering

/-! ## Where nodes come from -/

/-- **Where a node of a lowered program comes from.** -/
inductive Origin (w : Lowering) (p q : Program) : NodeId → Prop
  /-- It is a node of the original program. -/
  | old {n : NodeId} : n ∈ p.nodes → Origin w p q n
  /-- It is what storage holds before it is assigned. -/
  | null {e : ExprId} {span : Span} {ty : Ty} : q.expr? e = some ⟨span, ty, .const .null⟩ → Origin w p q (.expr e)
  /-- It belongs to the guard of a read. -/
  | read {n : NodeId} {e : ExprId} {E : Expr} {x : DeclId} {ty : Ty} {name : String}
      {g : ReadGuard w q E.span x ty name} :
      .expr e ∈ p.nodes → w.construct? p (.expr e) = some .read → p.expr? e = some E → E.form = .getValue x →
      q.expr? e = some { E with form := g.form } → n ∈ g.nodes → Origin w p q n
  /-- It belongs to what has taken the place of a query. -/
  | query {n : NodeId} {span : Span} {field : DeclId} {subject : Option ExprId} {ty : Ty}
      {g : Presence q span field subject ty} :
      (∀ s, subject = some s → .expr s ∈ p.nodes) → n ∈ g.nodes → Origin w p q n
  /-- It belongs to the guarded body of a getter. -/
  | getter {n d : NodeId} {span : Span} {getter field : DeclId} {receiver : Option DeclId} {ty : Ty} {name : String}
      {g : BodyGuard w q span getter receiver field ty name} :
      d ∈ p.nodes → w.construct? p d = some .property → (∀ r, receiver = some r → .decl r ∈ p.nodes) →
      n ∈ g.nodes → Origin w p q n

/-- Storage owns its initializer and nothing else. -/
theorem kids_withInitializer {d : DeclId} {D : Decl} {e : ExprId} (hd : q.decl? d = some (D.withInitializer e))
    (hD : (∃ v, D.form = .var v) ∨ ∃ f, D.form = .field f) : q.kids (.decl d) = [.expr e] := by
  rcases hD with ⟨v, hv⟩ | ⟨f, hf⟩
  · simp [kids_decl hd, Decl.withInitializer, hv, DeclForm.withInitializer, DeclForm.owned, DeclForm.ownedDecls,
      DeclForm.ownedExprs]
  · simp [kids_decl hd, Decl.withInitializer, hf, DeclForm.withInitializer, DeclForm.owned, DeclForm.ownedDecls,
      DeclForm.ownedExprs]

section

variable {s : Progress} (hf : p.IsForest) (h : Done w p p.nodes s)
include hf h

/-- A node that a rule has changed owns nodes of the original program, and what the rule has built. -/
theorem Done.origin_of_touches {m : NodeId} (hm : m ∈ p.nodes) (htouch : Touches w p m n) (hn : n ∈ p.nodes)
    (hk : k ∈ s.program.kids n) : Origin w p s.program k := by
  have hL := enclosed_nodes hf
  cases htouch with
  | var hc =>
    cases h.lowered.changed hm hc with
    | var _ hD _ _ hnull hq =>
      rw [kids_withInitializer hq (.inl ⟨_, hD⟩), List.mem_singleton] at hk
      exact hk ▸ .null hnull
  | read hc =>
    cases h.lowered.changed hm hc with
    | @read e E x X ty name g he hE _ _ _ _ hq =>
      simp only [kids_expr hq, ReadGuard.form, ExprForm.owned, ExprForm.children] at hk
      refine .read hm hc he hE hq ?_
      simp only [List.map_cons, List.map_nil, List.mem_cons, List.not_mem_nil, or_false] at hk
      rcases hk with rfl | rfl <;> simp [ReadGuard.nodes]
  | query hc =>
    -- the receiver moves here from the reference, and was the reference's own
    cases h.lowered.changed hm hc with
    | @query e reference E N dispatch subject args property field P r ty g he hE hN hform _ _ _ _ hq _ =>
      simp only [kids_expr hq, Presence.form, ExprForm.owned, ExprForm.children, List.map_cons, List.map_nil] at hk
      refine .query (g := g) (fun t ht => ?_) hk
      have hreference : .expr reference ∈ p.nodes :=
        hL.kids_mem hm (by simp [kids_expr he, hE, ExprForm.owned, ExprForm.children])
      exact hL.kids_mem hreference (by simp [kids_expr hN, hform, ExprForm.owned, ExprForm.children, ht])
  | reference hc he hE _ _ =>
    obtain ⟨N, property, hN, hform⟩ := (h.lowered.changed hm hc).reference he hE
    simp [kids_expr hN, hform, ExprForm.owned, ExprForm.children] at hk
  | field hc hd hD hfield =>
    obtain ⟨field', _, F, _, content, _, null, _, hfield', -, -, hcontent, -, hnull, hq, -⟩ :=
      (h.lowered.changed hm hc).parts hd hD
    obtain rfl := Option.some.inj (hfield.symm.trans hfield')
    rw [kids_withInitializer hq (.inr ⟨_, hcontent⟩), List.mem_singleton] at hk
    exact hk ▸ .null hnull
  | getter hc hd hD hgetter =>
    obtain ⟨_, getter', _, G, _, f, _, g, -, hgetter', -, -, -, -, -, hG, hfun, -, hq⟩ :=
      (h.lowered.changed hm hc).parts hd hD
    obtain rfl := Option.some.inj (hgetter.symm.trans hgetter')
    have hown {m : NodeId} (hm : m ∈ f.dispatchReceiver.toList.map NodeId.decl ++
        f.extensionReceiver.toList.map .decl ++ f.params.map .decl) : m ∈ p.nodes :=
      hL.kids_mem hn (by
        simp only [kids_decl hG, hfun, DeclForm.owned, DeclForm.ownedDecls, List.map_append]
        exact List.mem_append_left _ hm)
    simp only [kids_decl hq, DeclForm.owned, DeclForm.ownedDecls, DeclForm.ownedExprs, Option.toList_some,
      List.map_cons, List.map_nil, List.mem_append, List.mem_singleton, List.map_append] at hk
    rcases hk with hk | rfl
    · exact .old (hown (by simpa only [List.mem_append] using hk))
    · refine .getter (g := g) hm hc (fun r hr => hown ?_) (by simp [BodyGuard.nodes])
      simp [hr]

/-- A node of the original program owns nodes of the original program, and what its rule has built. -/
theorem Done.origin_of_mem_kids_old (hn : n ∈ p.nodes) (hk : k ∈ s.program.kids n) : Origin w p s.program k := by
  by_cases htouch : ∃ m ∈ p.nodes, Touches w p m n
  · obtain ⟨m, hm, htouch⟩ := htouch
    exact h.origin_of_touches hf hm htouch hn hk
  · have hL := enclosed_nodes hf
    have hsame := h.lowered.untouched (hL.has n hn) fun m hm hmn => htouch ⟨m, hm, hmn⟩
    exact .old (hL.kids_mem hn (hsame.kids_eq ▸ hk))

/-- What a node owns comes from where the node comes from, or from the original program. -/
theorem Done.origin_of_mem_kids (hn : Origin w p s.program n) (hk : k ∈ s.program.kids n) :
    Origin w p s.program k := by
  cases hn with
  | old hn => exact h.origin_of_mem_kids_old hf hn hk
  | null he => simp [kids_expr he, ExprForm.owned, ExprForm.children] at hk
  | @read _ e E x ty name g hmem hc he hE hq hn => exact .read hmem hc he hE hq (g.kids_subset hn hk)
  | @query _ span field subject ty g hsubject hn =>
    obtain ⟨t, ht, rfl⟩ := List.mem_map.1 (g.kids_subset hn hk)
    exact .old (hsubject t (Option.mem_toList.1 ht))
  | @getter _ d span getter field receiver ty name g hd hc hr hn =>
    exact .getter (g := g) hd hc hr (g.kids_subset hn hk)

/-- **All that can be reached in a lowered program** comes from the original program or was built by a rule. -/
theorem Done.origin (hn : s.program.Reachable n) : Origin w p s.program n := by
  induction hn with
  | outermost hn =>
    rw [outermost, h.lowered.topLevel_eq] at hn
    exact .old ((mem_nodes_iff hf).2 (.outermost hn))
  | owned _ hk ih => exact h.origin_of_mem_kids hf ih hk

end

/-! ## Constructs of a lowered program -/

theorem construct?_decl_isDeclaration {d : DeclId} {c : Construct} (h : w.construct? p (.decl d) = some c) :
    c.isDeclaration = true := by
  cases hd : p.decl? d with
  | none => simp [construct?, hd] at h
  | some D =>
    simp only [construct?, hd, Option.bind_eq_bind, Option.bind_some] at h
    cases hform : D.form <;> grind [Construct.isDeclaration]

theorem construct?_expr_isDeclaration {e : ExprId} {c : Construct} (h : w.construct? p (.expr e) = some c) :
    c.isDeclaration = false := by
  cases he : p.expr? e with
  | none => simp [construct?, he] at h
  | some E =>
    simp only [construct?, he, Option.bind_eq_bind, Option.bind_some] at h
    cases hform : E.form with
    | call callee _ _ _ => cases callee <;> grind [Construct.isDeclaration]
    | _ => grind [Construct.isDeclaration]

/-- A declaration is the construct it was, since modifiers and kinds of declarations never change. -/
theorem construct?_decl (halike : Alike p q) {d : DeclId} (hd : p.Has (.decl d)) :
    w.construct? q (.decl d) = w.construct? p (.decl d) := by
  obtain ⟨D, hD⟩ := has_decl_iff.1 hd
  obtain ⟨D', hD', hsk⟩ := halike d D hD
  obtain ⟨-, -, hmod, hform⟩ := Decl.mk.inj hsk
  have hdef : D'.isDeferredInit = D.isDeferredInit := congrArg Modifiers.isDeferredInit hmod
  simp only [construct?, hD, hD', Option.bind_eq_bind, Option.bind_some, hdef, hmod]
  cases D.isDeferredInit with
  | false => rfl
  | true => cases hD : D.form <;> cases hD' : D'.form <;> simp_all [DeclForm.skeleton]

section

variable {s : Progress} (hp : p.Closed) (h : Done w p p.nodes s)
include hp h

/-- **Declarations are the constructs they were**, and of the other constructs of the original program none is
left. -/
theorem Done.construct?_old (hn : n ∈ p.nodes) (hhas : p.Has n) :
    w.construct? s.program n = (w.construct? p n).filter (·.isDeclaration) := by
  cases n with
  | decl d =>
    rw [construct?_decl h.alike hhas]
    cases hc : w.construct? p (.decl d) with
    | none => rfl
    | some c => rw [Option.filter_some, construct?_decl_isDeclaration hc, if_pos rfl]
  | expr e =>
    cases hc : w.construct? p (.expr e) with
    | some c =>
      rw [Option.filter_some, construct?_expr_isDeclaration hc]
      cases h.lowered.changed hn hc with
      | read _ _ _ _ _ _ hq => simp [construct?, hq, ReadGuard.form]
      | query _ _ _ _ _ _ _ _ hq _ => simp [construct?, hq, Presence.form]
    | none =>
      -- no construct itself, it may still be the reference of a query
      by_cases htouch : ∃ m ∈ p.nodes, Touches w p m (.expr e)
      · obtain ⟨m, hm, htouch⟩ := htouch
        cases htouch with
        | read h' | query h' => simp [hc] at h'
        | reference hc' he hE _ _ =>
          obtain ⟨N, property, hN, hform⟩ := (h.lowered.changed hm hc').reference he hE
          simp [construct?, hN, hform]
      · have hsame := h.lowered.untouched hhas fun m hm hmn => htouch ⟨m, hm, hmn⟩
        rw [construct?_congr hp h.alike hhas hsame, hc]
        rfl

end

section

variable (hw : w.intrinsics.throwUninitialized ≠ w.intrinsics.isInitializedGetter)
include hw

theorem construct?_report (r : Report w q span name) (hn : n ∈ r.nodes) : w.construct? q n = none := by
  obtain ⟨e, he, rfl⟩ := List.mem_map.1 hn
  rcases List.mem_cons.1 he with rfl | he
  · simp [construct?, r.failure_eq, hw]
  · simp [construct?, r.args_eq e he]

/-- A guarded read is guarded by reads of the same variable. -/
theorem construct?_readGuard (g : ReadGuard w q span x ty name) (hn : n ∈ g.nodes) :
    n = .expr g.tested ∨ n = .expr g.value ∨ w.construct? q n = none := by
  simp only [ReadGuard.nodes, List.map_cons, List.map_nil, List.cons_append, List.nil_append, List.mem_cons] at hn
  rcases hn with rfl | rfl | rfl | rfl | rfl | hn
  · exact .inl rfl
  · simp [construct?, g.null_eq]
  · simp [construct?, g.test_eq]
  · simp [construct?, g.check_eq]
  · exact .inr (.inl rfl)
  · exact .inr (.inr (construct?_report hw g.toReport hn))

/-- A guarded body reads a receiver, and a variable of its own that is not deferred. -/
theorem construct?_bodyGuard (g : BodyGuard w q span getter receiver field ty name) (hn : n ∈ g.nodes) :
    (∃ t, g.this = some t ∧ n = .expr t) ∨ w.construct? q n = none := by
  have hheld : ¬((Decl.var g.heldName ty span).withInitializer g.current).isDeferredInit := by
    have hnone : ¬Modifiers.none.isDeferredInit := by decide
    simpa [Decl.withInitializer, Decl.var, Decl.isDeferredInit] using hnone
  simp only [BodyGuard.nodes, List.map_append, List.map_cons, List.map_nil, List.mem_cons, List.mem_append,
    List.not_mem_nil, or_false, List.cons_append] at hn
  rcases hn with rfl | (hn | rfl | rfl | rfl | rfl | rfl | rfl | rfl | rfl | rfl) | hn
  · simp [construct?, g.held_eq, hheld]
  · obtain ⟨t, ht, rfl⟩ := List.mem_map.1 hn
    exact .inl ⟨t, Option.mem_toList.1 ht, rfl⟩
  · simp [construct?, g.current_eq]
  · simp [construct?, g.declaration_eq]
  · simp [construct?, g.tested_eq, g.held_eq, Decl.isDeferredVariable, hheld]
  · simp [construct?, g.null_eq]
  · simp [construct?, g.test_eq]
  · simp [construct?, g.result_eq, g.held_eq, Decl.isDeferredVariable, hheld]
  · simp [construct?, g.success_eq]
  · simp [construct?, g.choice_eq]
  · simp [construct?, g.body_eq]
  · exact .inr (construct?_report hw g.toReport hn)

end

theorem construct?_presence (g : Presence q span field subject ty) (hn : n ∈ g.nodes) : w.construct? q n = none := by
  simp only [Presence.nodes, List.map_cons, List.map_nil, List.mem_cons, List.not_mem_nil, or_false] at hn
  rcases hn with rfl | rfl
  · simp [construct?, g.value_eq]
  · simp [construct?, g.null_eq]

/-! ## Violations of a lowered program -/

/-- A read violates nothing if the variable can hold null. -/
theorem violations_getValue (halike : Alike p q) {t : ExprId} {E : Expr} (ht : q.expr? t = some E)
    (hform : E.form = .getValue x) (hx : p.Has (.decl x))
    (hty : ∀ X v, p.decl? x = some X → X.isDeferredInit = true → X.form = .var v → v.ty.isPrimitive = false) :
    w.violations q (.expr t) = [] := by
  obtain ⟨X, hX⟩ := has_decl_iff.1 hx
  obtain ⟨X', hX', hsk⟩ := halike x X hX
  obtain ⟨-, -, hmod, hskel⟩ := Decl.mk.inj hsk
  have hX'ty : ∀ v, X'.isDeferredInit = true → X'.form = .var v → v.ty.isPrimitive = false := by
    intro v hdef hv
    cases hv' : X.form with
    | var v' =>
      have := hty X v' hX (by simpa [Decl.isDeferredInit, hmod] using hdef) hv'
      simp_all [DeclForm.skeleton]
    | _ => simp_all [DeclForm.skeleton]
  simp only [violations, ht, Option.elim_some, hform, hX']
  cases hdef : X'.isDeferredInit with
  | false => rfl
  | true =>
    cases hv : X'.form with
    | var v => simp [Ty.violations, hX'ty v hdef hv, reportIf]
    | _ => rfl

section

variable {s : Progress} (h : Done w p p.nodes s)
include h

/-- A deferred variable has an initializer now. -/
theorem Done.violations_var (hn : n ∈ p.nodes) (hc : w.construct? p n = some .var) (hok : w.violations p n = []) :
    ∃ name span, w.violations s.program n = [.initializerPresent name span] := by
  cases h.lowered.changed hn hc with
  | @var d D v null hd hD hi _ _ hq =>
    have hdef : D.isDeferredInit = true := by
      cases hdef : D.isDeferredInit with
      | true => rfl
      | false => simp [construct?, hd, hdef] at hc
    have hty : v.ty.violations D.name D.span = [] := by
      simpa [violations, hd, hdef, hD, VariableDecl.violations, hi, reportIf] using hok
    refine ⟨D.name, D.span, ?_⟩
    have hdef' : (D.withInitializer null).isDeferredInit = true := hdef
    have hform : (D.withInitializer null).form = .var { v with initializer := some null } := by
      rw [Decl.withInitializer, hD]
      rfl
    simp only [violations, hq, Option.elim_some, hdef', hform, VariableDecl.violations, Option.isSome_some, reportIf,
      if_true]
    exact congrArg (_ :: ·) hty

/-- The field of a deferred property has an initializer now. -/
theorem Done.violations_property (hn : n ∈ p.nodes) (hc : w.construct? p n = some .property)
    (hok : w.violations p n = []) : ∃ name span, w.violations s.program n = [.fieldInitialized name span] := by
  cases h.lowered.changed hn hc with
  | @property d field getter D F G r content f null g hd hD hfield hgetter hF hcontent hi _ _ hq hG hfun _ hq' =>
    obtain ⟨hdef, hfake⟩ : D.isDeferredInit = true ∧ D.modifiers.isFakeOverride = false := by
      simp only [construct?, hd, Option.bind_eq_bind, Option.bind_some, hD] at hc
      cases hdef : D.isDeferredInit <;> cases hfake : D.modifiers.isFakeOverride <;> simp_all
    have hok' : D.modifiers.isExtension = false ∧ content.ty.isPrimitive = false := by
      simp only [violations, hd, Option.elim_some, hdef, hD, hfake, propertyViolations, hfield, hgetter, fieldViolations,
        hF, hcontent, Ty.violations, reportIf] at hok
      cases hext : D.modifiers.isExtension <;> cases hty : content.ty.isPrimitive <;> simp_all
    obtain ⟨D', hD', hsk⟩ := h.alike d D hd
    obtain ⟨hname, hspan, hmod, hform⟩ := Decl.mk.inj hsk
    have hr : D'.form = .property r := by rw [← DeclForm.skeleton_property, hform, DeclForm.skeleton_property, hD]
    refine ⟨D'.name, D'.span, ?_⟩
    have hcontent' : (F.withInitializer null).form = .field { content with initializer := some null } := by
      rw [Decl.withInitializer, hcontent]
      rfl
    have hdef' : D'.isDeferredInit = true := by rwa [Decl.isDeferredInit, hmod]
    simp [violations, hD', hdef', hmod, hfake, hr, propertyViolations, hok'.1, hfield, hgetter, fieldViolations, hq,
      hcontent', Ty.violations, hok'.2, getterViolations, hq', DeclForm.function?, assignmentViolations,
      DeclForm.field?, reportIf]

/-- **A declaration that has been lowered is assigned where it is declared**, and it violates nothing else. -/
theorem Done.violations_of_declaration (hn : n ∈ p.nodes)
    (hc : w.construct? p n = some .var ∨ w.construct? p n = some .property) (hok : w.violations p n = []) :
    ∃ name span, w.violations s.program n = [.initializerPresent name span] ∨
      w.violations s.program n = [.fieldInitialized name span] := by
  rcases hc with hc | hc
  · obtain ⟨name, span, h⟩ := h.violations_var hn hc hok
    exact ⟨name, span, .inl h⟩
  · obtain ⟨name, span, h⟩ := h.violations_property hn hc hok
    exact ⟨name, span, .inr h⟩

end

section

variable {s : Progress} (hw : w.intrinsics.throwUninitialized ≠ w.intrinsics.isInitializedGetter) (hp : p.Closed)
variable (hf : p.IsForest) (hok : ∀ n ∈ p.nodes, w.violations p n = []) (h : Done w p p.nodes s)
include hw hp hf hok h

/-- **Only declarations that have been lowered violate anything afterwards.** -/
theorem Done.violations_reachable (hn : s.program.Reachable n) :
    w.violations s.program n = [] ∨
      n ∈ p.nodes ∧ (w.construct? p n = some .var ∨ w.construct? p n = some .property) := by
  cases h.origin hf hn with
  | old hn =>
    have hc := h.construct?_old hp hn ((enclosed_nodes hf).has n hn)
    cases hc' : w.construct? p n with
    | none =>
      rw [hc'] at hc
      exact .inl (violations_eq_nil hc)
    | some c =>
      cases c with
      | var => exact .inr ⟨hn, .inl rfl⟩
      | property => exact .inr ⟨hn, .inr rfl⟩
      | read | query =>
        rw [hc'] at hc
        exact .inl (violations_eq_nil hc)
  | null he => exact .inl (violations_eq_nil (by simp [construct?, he]))
  | @read _ e E x ty name g hmem hc he hE hq hn =>
    have hx : p.Has (.decl x) := hp.has_of_expr he (by simp [hE, ExprForm.mentioned, ExprForm.subject?])
    have hty : ∀ X v, p.decl? x = some X → X.isDeferredInit = true → X.form = .var v → v.ty.isPrimitive = false := by
      intro X v hX hdef hv
      simpa [violations, he, hE, hX, hdef, hv, Ty.violations, reportIf] using hok _ hmem
    rcases construct?_readGuard hw g hn with rfl | rfl | hnone
    · exact .inl (violations_getValue h.alike g.tested_eq rfl hx hty)
    · exact .inl (violations_getValue h.alike g.value_eq rfl hx hty)
    · exact .inl (violations_eq_nil hnone)
  | @query _ span field subject ty g _ hn => exact .inl (violations_eq_nil (construct?_presence g hn))
  | @getter _ d span getter field receiver ty name g hd hc hr hn =>
    rcases construct?_bodyGuard hw g hn with ⟨t, ht, rfl⟩ | hnone
    · obtain ⟨r, ty, hreceiver, he⟩ := g.this_eq.expr? ht
      have hmem := hr r hreceiver
      have hty : ∀ X v, p.decl? r = some X → X.isDeferredInit = true → X.form = .var v → v.ty.isPrimitive = false := by
        intro X v hX hdef hv
        have hviolations := hok _ hmem
        simp only [violations, hX, Option.elim_some, hdef, hv, VariableDecl.violations, Ty.violations, reportIf,
          List.append_eq_nil_iff] at hviolations
        simpa using hviolations.2
      exact .inl (violations_getValue h.alike he rfl ((enclosed_nodes hf).has _ hmem) hty)
    · exact .inl (violations_eq_nil hnone)

end

end Lowering

end DeferredInit
