import DeferredInit.Program.Ownership

/-!
# Closed programs

A node refers to other nodes, and it owns some of those that it refers to.  In a **closed** program every
handle that is stored anywhere belongs to a node, so that nothing that follows handles meets a dangling one.
Every node of a closed program therefore owns a definite list of nodes (`Program.kids`), all of which exist.
-/

namespace DeferredInit

/-- The nodes that a declaration refers to, those that it owns among them. -/
def DeclForm.mentioned : DeclForm → List NodeId
  | var v => v.initializer.toList.map .expr
  | property q =>
    (q.owner.toList ++ q.backingField.toList ++ q.getter.toList ++ q.setter.toList).map .decl
  | field f => (f.owner.toList ++ f.property.toList).map .decl ++ f.initializer.toList.map .expr
  | function f =>
    (f.dispatchReceiver.toList ++ f.extensionReceiver.toList ++ f.params ++ f.property.toList).map .decl ++
      f.body.toList.map .expr
  | parameter _ => []
  | cls c => c.members.map .decl

/-- The declaration that a call refers to. -/
def Callee.function? : Callee → Option DeclId
  | declared function => some function
  | library _ => none

/-- The declaration that an expression refers to. -/
def ExprForm.subject? : ExprForm → Option DeclId
  | getValue d | setValue d _ | getField d _ | setField d _ _ | propertyRef d _ _ | declare d | ret d _
  | construct d => some d
  | call callee _ _ _ => callee.function?
  | const _ | block _ | cond _ _ _ | binary _ _ _ => none

/-- The nodes that an expression refers to, those that it owns among them. -/
def ExprForm.mentioned (form : ExprForm) : List NodeId :=
  form.subject?.toList.map .decl ++ form.children.map .expr

theorem DeclForm.mem_mentioned_of_mem_owned {form : DeclForm} {n : NodeId} (h : n ∈ form.owned) :
    n ∈ form.mentioned := by
  cases form <;> grind [owned, mentioned, ownedDecls, ownedExprs]

/-- An expression owns its operands and what it declares. -/
theorem ExprForm.owned_eq (form : ExprForm) :
    form.owned = form.children.map .expr ++ form.declared?.toList.map .decl := by
  cases form <;> simp [owned, children, declared?]

theorem ExprForm.mem_mentioned_of_mem_owned {form : ExprForm} {n : NodeId} (h : n ∈ form.owned) :
    n ∈ form.mentioned := by
  rw [owned_eq, List.mem_append] at h
  rw [mentioned, List.mem_append]
  rcases h with h | h
  · exact .inr h
  · cases form <;> simp_all [declared?, subject?]

namespace Program

/-- Some node has the handle. -/
def Has (p : Program) : NodeId → Prop
  | .decl d => d.index < p.decls.size
  | .expr e => e.index < p.exprs.size

instance (p : Program) : DecidablePred p.Has
  | .decl d => inferInstanceAs (Decidable (d.index < p.decls.size))
  | .expr e => inferInstanceAs (Decidable (e.index < p.exprs.size))

/-- **A closed program**: all handles that it stores belong to nodes. -/
def Closed (p : Program) : Prop :=
  (∀ d ∈ p.topLevel, p.Has (.decl d)) ∧ (∀ D ∈ p.decls, ∀ n ∈ D.form.mentioned, p.Has n) ∧
    ∀ E ∈ p.exprs, ∀ n ∈ E.form.mentioned, p.Has n

instance (p : Program) : Decidable p.Closed := inferInstanceAs (Decidable (_ ∧ _))

/-- The nodes that a node owns; a handle that no node has owns none. -/
def kids (p : Program) (n : NodeId) : List NodeId := (p.owned? n).getD []

variable {p : Program}

theorem has_decl_iff {d : DeclId} : p.Has (.decl d) ↔ ∃ D, p.decl? d = some D := by
  rw [← Option.isSome_iff_exists, isSome_decl?_iff]; rfl

theorem has_expr_iff {e : ExprId} : p.Has (.expr e) ↔ ∃ E, p.expr? e = some E := by
  rw [← Option.isSome_iff_exists, isSome_expr?_iff]; rfl

theorem has_of_decl? {d : DeclId} {D : Decl} (h : p.decl? d = some D) : p.Has (.decl d) :=
  has_decl_iff.2 ⟨D, h⟩

theorem has_of_expr? {e : ExprId} {E : Expr} (h : p.expr? e = some E) : p.Has (.expr e) :=
  has_expr_iff.2 ⟨E, h⟩

theorem not_has_of_decl? {d : DeclId} (h : p.decl? d = none) : ¬p.Has (.decl d) := by
  rw [has_decl_iff, h]
  rintro ⟨D, hD⟩
  cases hD

theorem not_has_of_expr? {e : ExprId} (h : p.expr? e = none) : ¬p.Has (.expr e) := by
  rw [has_expr_iff, h]
  rintro ⟨E, hE⟩
  cases hE

theorem owned?_eq_some_iff {n : NodeId} {ns : List NodeId} :
    p.owned? n = some ns ↔ p.Has n ∧ p.kids n = ns := by
  cases n with
  | decl d =>
    rw [has_decl_iff, kids]
    cases h : p.decl? d <;> simp [owned?, h]
  | expr e =>
    rw [has_expr_iff, kids]
    cases h : p.expr? e <;> simp [owned?, h]

theorem owned?_eq_some {n : NodeId} (h : p.Has n) : p.owned? n = some (p.kids n) :=
  owned?_eq_some_iff.2 ⟨h, rfl⟩

theorem has_of_owned? {n : NodeId} {ns : List NodeId} (h : p.owned? n = some ns) : p.Has n :=
  (owned?_eq_some_iff.1 h).1

theorem kids_decl {d : DeclId} {D : Decl} (h : p.decl? d = some D) : p.kids (.decl d) = D.form.owned := by
  simp [kids, owned?, h]

theorem kids_expr {e : ExprId} {E : Expr} (h : p.expr? e = some E) : p.kids (.expr e) = E.form.owned := by
  simp [kids, owned?, h]

/-- Only nodes own nodes. -/
theorem has_of_mem_kids {n k : NodeId} (h : k ∈ p.kids n) : p.Has n := by
  rw [kids] at h
  cases hn : p.owned? n with
  | none => rw [hn] at h; exact absurd h List.not_mem_nil
  | some ns => exact has_of_owned? hn

namespace Closed

theorem has_of_topLevel (hp : p.Closed) {d : DeclId} (hd : d ∈ p.topLevel) : p.Has (.decl d) :=
  hp.1 d hd

theorem has_of_decl (hp : p.Closed) {d : DeclId} {D : Decl} (hd : p.decl? d = some D) {n : NodeId}
    (hn : n ∈ D.form.mentioned) : p.Has n :=
  hp.2.1 D (Array.mem_of_getElem? hd) n hn

theorem has_of_expr (hp : p.Closed) {e : ExprId} {E : Expr} (he : p.expr? e = some E) {n : NodeId}
    (hn : n ∈ E.form.mentioned) : p.Has n :=
  hp.2.2 E (Array.mem_of_getElem? he) n hn

theorem has_of_ownedExprs (hp : p.Closed) {d : DeclId} {D : Decl} (hd : p.decl? d = some D) {e : ExprId}
    (he : e ∈ D.form.ownedExprs) : p.Has (.expr e) :=
  hp.has_of_decl hd (DeclForm.mem_mentioned_of_mem_owned (List.mem_append_right _ (List.mem_map_of_mem he)))

theorem has_of_ownedDecls (hp : p.Closed) {d k : DeclId} {D : Decl} (hd : p.decl? d = some D)
    (hk : k ∈ D.form.ownedDecls) : p.Has (.decl k) :=
  hp.has_of_decl hd (DeclForm.mem_mentioned_of_mem_owned (List.mem_append_left _ (List.mem_map_of_mem hk)))

theorem has_of_children (hp : p.Closed) {e c : ExprId} {E : Expr} (he : p.expr? e = some E) (hc : c ∈ E.form.children) :
    p.Has (.expr c) :=
  hp.has_of_expr he (List.mem_append_right _ (List.mem_map_of_mem hc))

/-- What a node of a closed program owns exists. -/
theorem has_of_mem_kids (hp : p.Closed) {n k : NodeId} (hk : k ∈ p.kids n) : p.Has k := by
  have hn := Program.has_of_mem_kids hk
  cases n with
  | decl d =>
    obtain ⟨D, hD⟩ := has_decl_iff.1 hn
    rw [kids_decl hD] at hk
    exact hp.has_of_decl hD (DeclForm.mem_mentioned_of_mem_owned hk)
  | expr e =>
    obtain ⟨E, hE⟩ := has_expr_iff.1 hn
    rw [kids_expr hE] at hk
    exact hp.has_of_expr hE (ExprForm.mem_mentioned_of_mem_owned hk)

end Closed

end Program

end DeferredInit
