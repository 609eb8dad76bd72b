import DeferredInit.Proofs.Lowering.Forest
import DeferredInit.Proofs.Program.Alike

/-!
# What lowering leaves behind

`Lowered w p done q` describes a program `q` that has come of `p` by lowering the nodes `done`: what stands in
the place of every construct among them (`After`), and that all other nodes are as they were.  Everything is said
in terms of the original program, although rules read the program as it is when they are applied.  That makes
no difference, since a node is changed only by its own rule or that of its owner (`Touches`), and since what
rules read of other nodes is never changed (`Decl.skeleton`).
-/

namespace DeferredInit

open Program

namespace Lowering

variable (w : Lowering) (p q : Program)

/-- **Which nodes the rule for a node overwrites.** -/
inductive Touches : NodeId → NodeId → Prop
  | var {d : DeclId} : w.construct? p (.decl d) = some .var → Touches (.decl d) (.decl d)
  | read {e : ExprId} : w.construct? p (.expr e) = some .read → Touches (.expr e) (.expr e)
  | query {e : ExprId} : w.construct? p (.expr e) = some .query → Touches (.expr e) (.expr e)
  | reference {e reference : ExprId} {E N : Expr} {callee : Callee} {dispatch subject extension : Option ExprId}
      {args : List ExprId} {property : DeclId} :
      w.construct? p (.expr e) = some .query → p.expr? e = some E →
      E.form = .call callee dispatch (some reference) args → p.expr? reference = some N →
      N.form = .propertyRef property subject extension → Touches (.expr e) (.expr reference)
  | field {d field : DeclId} {D F : Decl} {q : PropertyDecl} {content : FieldDecl} :
      w.construct? p (.decl d) = some .property → p.decl? d = some D → D.form = .property q →
      q.backingField = some field → p.decl? field = some F → F.form = .field content →
      Touches (.decl d) (.decl field)
  | getter {d getter : DeclId} {D G : Decl} {q : PropertyDecl} {f : FunctionDecl} :
      w.construct? p (.decl d) = some .property → p.decl? d = some D → D.form = .property q →
      q.getter = some getter → p.decl? getter = some G → G.form = .function f →
      Touches (.decl d) (.decl getter)

/-- **What a construct of `p` has become in `q`.**  Whatever had to be built for it is new. -/
inductive After : NodeId → Construct → Prop
  /-- A deferred variable starts out holding null. -/
  | var {d : DeclId} {D : Decl} {v : VariableDecl} {null : ExprId} :
      p.decl? d = some D → D.form = .var v → v.initializer = none →
      ¬p.Has (.expr null) → q.expr? null = some ⟨D.span, v.ty.makeNullable, .const .null⟩ →
      q.decl? d = some (D.withInitializer null) → After (.decl d) .var
  /-- A read of a deferred variable is guarded in its own place, with its own position and type. -/
  | read {e : ExprId} {E : Expr} {x : DeclId} {X : Decl} {ty : Ty} {name : String}
      {g : ReadGuard w q E.span x ty name} :
      p.expr? e = some E → E.form = .getValue x →
      p.decl? x = some X → X.form.ty? = some ty → X.name = name →
      (∀ n ∈ g.nodes, ¬p.Has n) → q.expr? e = some { E with form := g.form } → After (.expr e) .read
  /-- A query is a comparison of the property's field with null, in its own place.  The receiver of the field is
  the one that the reference was bound to; the reference has lost it, and nothing else. -/
  | query {e reference : ExprId} {E N : Expr} {dispatch subject : Option ExprId} {args : List ExprId}
      {property field : DeclId} {P : Decl} {r : PropertyDecl} {ty : Ty} {g : Presence q E.span field subject ty} :
      p.expr? e = some E →
      E.form = .call (.library w.intrinsics.isInitializedGetter) dispatch (some reference) args →
      p.expr? reference = some N → N.form = .propertyRef property subject none →
      p.decl? property = some P → P.form = .property r → r.backingField = some field →
      (∀ n ∈ g.nodes, ¬p.Has n) → q.expr? e = some ⟨E.span, .boolean, g.form⟩ →
      q.expr? reference = some { N with form := .propertyRef property none none } → After (.expr e) .query
  /-- The field of a deferred property starts out holding null, and the getter is guarded. -/
  | property {d field getter : DeclId} {D F G : Decl} {r : PropertyDecl} {content : FieldDecl} {f : FunctionDecl}
      {null : ExprId} {g : BodyGuard w q G.span getter f.dispatchReceiver field content.ty F.name} :
      p.decl? d = some D → D.form = .property r → r.backingField = some field → r.getter = some getter →
      p.decl? field = some F → F.form = .field content → content.initializer = none →
      ¬p.Has (.expr null) → q.expr? null = some ⟨D.span, content.ty.makeNullable, .const .null⟩ →
      q.decl? field = some (F.withInitializer null) →
      p.decl? getter = some G → G.form = .function f → (∀ n ∈ g.nodes, ¬p.Has n) →
      q.decl? getter = some { G with form := .function { f with body := some g.body } } →
      After (.decl d) .property

/-- **What has been lowered**: `q` is `p` with the constructs among the nodes `done` changed, and nothing else. -/
structure Lowered (done : NodeId → Prop) : Prop where
  name_eq : q.name = p.name
  topLevel_eq : q.topLevel = p.topLevel
  has : ∀ {n}, p.Has n → q.Has n
  changed : ∀ {n c}, done n → w.construct? p n = some c → After w p q n c
  untouched : ∀ {n}, p.Has n → (∀ m, done m → ¬Touches w p m n) → p.SameAt q n

end Lowering

/-! ## Nodes that stay the same -/

namespace Program

variable {p q r : Program} {n : NodeId}

namespace SameAt

theorem refl (p : Program) (n : NodeId) : p.SameAt p n := by
  cases n <;> rfl

theorem trans (h : p.SameAt q n) (h' : q.SameAt r n) : p.SameAt r n := by
  cases n with
  | decl d => exact Eq.trans h' h
  | expr e => exact Eq.trans h' h

theorem kids_eq (h : p.SameAt q n) : q.kids n = p.kids n := by
  cases n with
  | decl d => simp [kids, owned?, show q.decl? d = p.decl? d from h]
  | expr e => simp [kids, owned?, show q.expr? e = p.expr? e from h]

end SameAt

theorem Extends.sameAt (h : Extends p q) (hn : p.Has n) : p.SameAt q n := by
  cases n with
  | decl d => exact h.decl?_eq d hn
  | expr e => exact h.expr?_eq e hn

theorem sameAt_setDecl {d : DeclId} (hd : p.Has (.decl d)) (D : Decl) (hne : n ≠ .decl d) :
    p.SameAt (p.setDecl d D) n := by
  obtain ⟨old, hold⟩ := has_decl_iff.1 hd
  cases n with
  | decl d' => exact (decl?_setDecl _ hold _ _).trans (if_neg fun h => hne (congrArg _ h))
  | expr e => rfl

theorem sameAt_setExpr {e : ExprId} (he : p.Has (.expr e)) (E : Expr) (hne : n ≠ .expr e) :
    p.SameAt (p.setExpr e E) n := by
  obtain ⟨old, hold⟩ := has_expr_iff.1 he
  cases n with
  | decl d => rfl
  | expr e' => exact (expr?_setExpr _ hold _ _).trans (if_neg fun h => hne (congrArg _ h))

end Program

namespace Lowering

variable {w : Lowering} {p q : Program} {n m : NodeId} {c : Construct} {R L : List NodeId}

/-! ## What a rule overwrites -/

namespace Touches

theorem construct?_isSome (h : Touches w p n m) : (w.construct? p n).isSome := by
  cases h <;> simp_all

/-- A rule overwrites its own node or one that this node owns.  No other rule is about the latter. -/
theorem own_or_kid (h : Touches w p n m) :
    m = n ∧ w.construct? p n ≠ some .property ∨ m ∈ p.kids n ∧ w.construct? p m = none := by
  cases h with
  | var h | read h | query h => exact .inl ⟨rfl, by simp [h]⟩
  | reference _ he hE hr hN =>
    refine .inr ⟨?_, ?_⟩
    · simp [kids_expr he, hE, ExprForm.owned, ExprForm.children]
    · simp [construct?, hr, hN]
  | field _ hd hD hq hf hF =>
    refine .inr ⟨?_, ?_⟩
    · simp [kids_decl hd, hD, DeclForm.owned, DeclForm.ownedDecls, hq]
    · simp [construct?, hf, hF]
  | getter _ hd hD hq hg hG =>
    refine .inr ⟨?_, ?_⟩
    · simp [kids_decl hd, hD, DeclForm.owned, DeclForm.ownedDecls, hq]
    · simp [construct?, hg, hG]

/-- **No two rules overwrite the same node.** -/
theorem unique {a : NodeId} (hL : Enclosed p R L) (ha : a ∈ L) (hn : n ∈ L) (ham : Touches w p a m)
    (hnm : Touches w p n m) : a = n := by
  have hasome := ham.construct?_isSome
  have hnsome := hnm.construct?_isSome
  rcases ham.own_or_kid with ⟨rfl, -⟩ | ⟨hka, hma⟩ <;> rcases hnm.own_or_kid with ⟨rfl, -⟩ | ⟨hkn, hmn⟩
  · rfl
  · simp [hmn] at hasome
  · simp [hma] at hnsome
  · exact hL.owner_unique ha hn hka hkn

theorem has (h : Touches w p n m) (hL : Enclosed p R L) (hn : n ∈ L) : p.Has m := by
  rcases h.own_or_kid with ⟨rfl, -⟩ | ⟨hk, -⟩
  · exact hL.has m hn
  · exact hL.has m (hL.kids_mem hn hk)

end Touches

theorem GuardsGetter.sameAt {getter field : DeclId} {ty : Ty} {name : String}
    (h : GuardsGetter w p getter field ty name q) (hm : p.Has m) (hne : m ≠ .decl getter) : p.SameAt q m := by
  obtain ⟨hG, -, hq, -⟩ := h
  exact (hq.old.sameAt hm).trans (sameAt_setDecl (hq.old.has (has_of_decl? hG)) _ hne)

theorem GuardsGetter.alike {getter field : DeclId} {ty : Ty} {name : String}
    (h : GuardsGetter w p getter field ty name q) : Alike p q := by
  obtain ⟨hG, hf, hq, -⟩ := h
  refine (Alike.of_extends hq.old).trans (.setDecl (hq.old.decl? hG) ?_)
  simp [Decl.skeleton, hf, DeclForm.skeleton]

namespace Change

theorem construct?_eq (h : Change w p n c q) : w.construct? p n = some c := by
  cases h with
  | var hd hdef hform => simp [construct?, hd, hdef, hform]
  | read he hE hx hdef hv => simp [construct?, he, hE, hx, hdef, hv, Decl.isDeferredVariable, DeclForm.var?]
  | query he hE => simp [construct?, he, hE]
  | property hd hdef hform hfake => simp [construct?, hd, hdef, hform, hfake]

/-- **A rule changes no other node** than those it touches. -/
theorem sameAt (h : Change w p n c q) (hm : p.Has m) (hnot : ¬Touches w p n m) : p.SameAt q m := by
  have hc := h.construct?_eq
  cases h with
  | var hd _ _ _ _ hq =>
    have hne : m ≠ _ := fun h => hnot (h ▸ .var hc)
    exact (hq.old.sameAt hm).trans (sameAt_setDecl (hq.old.has (has_of_decl? hd)) _ hne)
  | read he _ _ _ _ _ hq _ =>
    have hne : m ≠ _ := fun h => hnot (h ▸ .read hc)
    exact (hq.old.sameAt hm).trans (sameAt_setExpr (hq.old.has (has_of_expr? he)) _ hne)
  | query he hE hN hform _ _ _ _ hq _ =>
    have hne : m ≠ _ := fun h => hnot (h ▸ .query hc)
    have hne' : m ≠ _ := fun h => hnot (h ▸ .reference hc he hE hN hform)
    exact ((sameAt_setExpr (has_of_expr? hN) _ hne').trans (hq.old.sameAt (has_setExpr.2 hm))).trans
      (sameAt_setExpr (hq.old.has (has_setExpr.2 (has_of_expr? he))) _ hne)
  | @property d field getter _ _ _ _ _ _ _ hd _ hform _ _ hfield hgetter hF hcontent _ _ hguard hq =>
    have hne : m ≠ .decl field := fun h => hnot (h ▸ .field hc hd hform hfield hF hcontent)
    have hne' : m ≠ .decl getter := fun h => by
      obtain ⟨hG, hf, -, -⟩ := hguard
      exact hnot (h ▸ .getter hc hd hform hgetter hG hf)
    have hF' := has_of_decl? (hguard.decl?_of_ne hF (hguard.ne hF hcontent))
    exact ((hguard.sameAt hm hne').trans (hq.old.sameAt (hguard.preserves.has hm))).trans
      (sameAt_setDecl (hq.old.has hF') _ hne)

/-- A rule changes nothing but initializers and bodies in declarations. -/
theorem alike (h : Change w p n c q) : Alike p q := by
  cases h with
  | var hd _ _ _ _ hq =>
    exact (Alike.of_extends hq.old).trans (.setDecl (hq.old.decl? hd) (Decl.skeleton_withInitializer _ _))
  | read _ _ _ _ _ _ hq _ => exact fun _ D hD => ⟨D, hq.old.decl? hD, rfl⟩
  | query _ _ _ _ _ _ _ _ hq _ => exact fun _ D hD => ⟨D, hq.old.decl? hD, rfl⟩
  | property _ _ _ _ _ _ _ hF hcontent _ _ hguard hq =>
    have hF₁ := hguard.decl?_of_ne hF (hguard.ne hF hcontent)
    exact (hguard.alike.trans (.of_extends hq.old)).trans
      (.setDecl (hq.old.decl? hF₁) (Decl.skeleton_withInitializer _ _))

end Change

/-! ## What has become of a construct -/

namespace After

/-- What has become of a construct stays, if the rest of the lowering leaves it and what was built for it alone. -/
theorem carry {q' : Program} (h : After w p q n c) (hc : w.construct? p n = some c)
    (hsame : ∀ m, q.Has m → Touches w p n m ∨ ¬p.Has m → q.SameAt q' m) : After w p q' n c := by
  have expr {e : ExprId} {E : Expr} (he : q.expr? e = some E) (hm : Touches w p n (.expr e) ∨ ¬p.Has (.expr e)) :
      q'.expr? e = some E := Eq.trans (hsame (.expr e) (has_of_expr? he) hm) he
  have decl {d : DeclId} {D : Decl} (hd : q.decl? d = some D) (hm : Touches w p n (.decl d) ∨ ¬p.Has (.decl d)) :
      q'.decl? d = some D := Eq.trans (hsame (.decl d) (has_of_decl? hd) hm) hd
  cases h with
  | var hd hD hi hnew hnull hvar => exact .var hd hD hi hnew (expr hnull (.inr hnew)) (decl hvar (.inl (.var hc)))
  | @read e E x X ty name g he hE hx hty hname hnew hread =>
    exact .read (g := g.carry fun m hm => hsame m (g.has m hm) (.inr (hnew m hm))) he hE hx hty hname hnew
      (expr hread (.inl (.read hc)))
  | @query e reference E N dispatch subject args property field P r ty g he hE hN hform hP hr hf hnew hquery href =>
    exact .query (g := g.carry fun m hm => hsame m (g.has m hm) (.inr (hnew m hm))) he hE hN hform hP hr hf hnew
      (expr hquery (.inl (.query hc))) (expr href (.inl (.reference hc he hE hN hform)))
  | @property d field getter D F G r content f null g hd hD hf hg hF hcontent hi hnew hnull hfield hG hfun hnew'
      hgetter =>
    exact .property (g := g.carry fun m hm => hsame m (g.has m hm) (.inr (hnew' m hm))) hd hD hf hg hF hcontent hi
      hnew (expr hnull (.inr hnew)) (decl hfield (.inl (.field hc hd hD hf hF hcontent))) hG hfun hnew'
      (decl hgetter (.inl (.getter hc hd hD hg hG hfun)))

/-- What has become of a deferred property, told from its own parts. -/
theorem parts {d : DeclId} {D : Decl} {r : PropertyDecl} (h : After w p q (.decl d) .property)
    (hd : p.decl? d = some D) (hD : D.form = .property r) :
    ∃ (field getter : DeclId) (F G : Decl) (content : FieldDecl) (f : FunctionDecl) (null : ExprId)
      (g : BodyGuard w q G.span getter f.dispatchReceiver field content.ty F.name),
      r.backingField = some field ∧ r.getter = some getter ∧ p.decl? field = some F ∧ F.form = .field content ∧
        content.initializer = none ∧ q.expr? null = some ⟨D.span, content.ty.makeNullable, .const .null⟩ ∧
        q.decl? field = some (F.withInitializer null) ∧ p.decl? getter = some G ∧ G.form = .function f ∧
        (∀ n ∈ g.nodes, ¬p.Has n) ∧
        q.decl? getter = some { G with form := .function { f with body := some g.body } } := by
  cases h with
  | @property _ field getter D' F G r' content f null g hd' hD' hfield hgetter hF hcontent hinit _ hnull hq hG hf hnew
      hq' =>
    obtain rfl := Option.some.inj (hd.symm.trans hd')
    obtain rfl := DeclForm.property.inj (hD.symm.trans hD')
    exact ⟨field, getter, F, G, content, f, null, g, hfield, hgetter, hF, hcontent, hinit, hnull, hq, hG, hf, hnew, hq'⟩

/-- The reference of a query has no receivers afterwards. -/
theorem reference {e reference : ExprId} {E : Expr} {callee : Callee} {dispatch : Option ExprId} {args : List ExprId}
    (h : After w p q (.expr e) .query) (he : p.expr? e = some E)
    (hE : E.form = .call callee dispatch (some reference) args) :
    ∃ N property, q.expr? reference = some N ∧ N.form = .propertyRef property none none := by
  cases h with
  | query he' hE' _ _ _ _ _ _ _ href =>
    obtain rfl := Option.some.inj (he.symm.trans he')
    obtain ⟨-, -, hreference, -⟩ := ExprForm.call.inj (hE.symm.trans hE')
    obtain rfl := Option.some.inj hreference
    exact ⟨_, _, href, rfl⟩

/-- A declaration that has been changed by its own rule is a variable. -/
theorem form_decl {d : DeclId} (h : After w p q (.decl d) c) (hc : c ≠ .property) :
    ∃ D v, q.decl? d = some D ∧ D.form = .var v := by
  cases h with
  | var _ hD _ _ _ hvar => exact ⟨_, _, hvar, by rw [Decl.withInitializer, hD]; rfl⟩
  | property => exact absurd rfl hc

/-- An expression that has been changed by its own rule is no reference to a property. -/
theorem form_expr {e : ExprId} (h : After w p q (.expr e) c) :
    ∃ E, q.expr? e = some E ∧ ∀ property dispatch extension, E.form ≠ .propertyRef property dispatch extension := by
  cases h with
  | read _ _ _ _ _ _ hread => exact ⟨_, hread, fun _ _ _ => nofun⟩
  | query _ _ _ _ _ _ _ _ hquery _ => exact ⟨_, hquery, fun _ _ _ => nofun⟩

end After

end Lowering

end DeferredInit
