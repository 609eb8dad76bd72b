import DeferredInit.Proofs.Deferral.Reference

/-!
# What is evaluated before and after lowering

A query is the only construct whose place in the program changes while it is lowered: its reference loses the
receiver, and nothing but that receiver is evaluated any longer.  Every other expression is evaluated in the lowered
program where it was evaluated before.  `Kept` says which these are: bodies and initializers are, and so are the
operands of what is kept, except for those of a query, of which only the receiver is.

What the reference finds in the original program (`guardedField?`, `queried?`) is what the rules of lowering found.
-/

namespace DeferredInit

open Program

namespace Lowering

variable {w : Lowering} {p q : Program} {n : NodeId} {e : ExprId} {E : Expr}

/-- **An expression that is evaluated before and after.**  No rule overwrites it but its own. -/
structure Kept (w : Lowering) (p : Program) (e : ExprId) : Prop where
  mem : .expr e ∈ p.nodes
  own : ∀ n ∈ p.nodes, Touches w p n (.expr e) → n = .expr e

theorem mem_entrances_iff : e ∈ p.entrances ↔
    ∃ d D, .decl d ∈ p.nodes ∧ p.decl? d = some D ∧ e ∈ D.form.ownedExprs := by
  rw [entrances, List.mem_flatMap]
  constructor
  · rintro ⟨n, hn, he⟩
    cases n with
    | expr _ => exact absurd he List.not_mem_nil
    | decl d =>
      cases hd : p.decl? d with
      | none => simp [hd] at he
      | some D => exact ⟨d, D, hn, hd, by simpa [hd] using he⟩
  · rintro ⟨d, D, hd, hD, he⟩
    exact ⟨.decl d, hd, by simpa [hD] using he⟩

/-- A declaration is a construct if it is deferred, and a variable or a genuine property. -/
theorem construct?_decl_eq_some {d : DeclId} {c : Construct} : w.construct? p (.decl d) = some c ↔
    ∃ D, p.decl? d = some D ∧ D.isDeferredInit = true ∧ ((∃ v, D.form = .var v) ∧ c = .var ∨
      (∃ r, D.form = .property r) ∧ D.modifiers.isFakeOverride = false ∧ c = .property) := by
  simp only [construct?, Option.bind_eq_bind, Option.bind_eq_some_iff]
  refine exists_congr fun D => and_congr_right fun _ => ?_
  cases hdef : D.isDeferredInit with
  | false => simp
  | true => cases hD : D.form <;> cases hfake : D.modifiers.isFakeOverride <;> simp [eq_comm]

theorem construct?_of_isDeferredVariable {d : DeclId} {D : Decl} (hD : p.decl? d = some D)
    (hdef : D.isDeferredVariable = true) : w.construct? p (.decl d) = some .var := by
  rw [Decl.isDeferredVariable, Bool.and_eq_true, Option.isSome_iff_exists] at hdef
  obtain ⟨v, hv⟩ := hdef.2
  exact construct?_decl_eq_some.2 ⟨D, hD, hdef.1, .inl ⟨⟨v, DeclForm.var?_eq_some.1 hv⟩, rfl⟩⟩

/-- A declaration is no query. -/
theorem construct?_decl_ne_query (d : DeclId) : w.construct? p (.decl d) ≠ some .query := by
  intro h
  obtain ⟨_, _, _, ⟨_, hc⟩ | ⟨_, _, hc⟩⟩ := construct?_decl_eq_some.1 h <;> cases hc

/-- An expression that is a construct is a read or a query. -/
theorem construct?_expr {c : Construct} (h : w.construct? p (.expr e) = some c) : c = .read ∨ c = .query := by
  simp only [construct?, Option.bind_eq_bind, Option.bind_eq_some_iff] at h
  obtain ⟨E, -, h⟩ := h
  split at h
  · split at h
    · exact .inl (Option.some.inj h).symm
    · cases h
  · split at h
    · exact .inr (Option.some.inj h).symm
    · cases h
  · cases h

namespace Kept

theorem of_kid (hf : p.IsForest) (hn : n ∈ p.nodes) (hk : .expr e ∈ p.kids n) (hc : w.construct? p n ≠ some .query) :
    Kept w p e := by
  have hL := enclosed_nodes hf
  refine ⟨hL.kids_mem hn hk, fun a ha hae => ?_⟩
  rcases hae.own_or_kid with ⟨rfl, -⟩ | ⟨hka, -⟩
  · rfl
  · obtain rfl := hL.owner_unique ha hn hka hk
    generalize hm : NodeId.expr e = m at hae
    cases hae with
    | var => cases hm
    | read | query => rfl
    | reference hq => exact absurd hq hc
    | field => cases hm
    | getter => cases hm

theorem of_entrance (hf : p.IsForest) (he : e ∈ p.entrances) : Kept w p e := by
  obtain ⟨d, D, hd, hD, he⟩ := mem_entrances_iff.1 he
  refine of_kid hf hd ?_ (construct?_decl_ne_query d)
  rw [kids_decl hD, DeclForm.owned]
  exact List.mem_append_right _ (List.mem_map_of_mem he)

theorem child (hf : p.IsForest) (he : Kept w p e) (hE : p.expr? e = some E)
    (hc : w.construct? p (.expr e) ≠ some .query) {c : ExprId} (hchild : c ∈ E.form.children) : Kept w p c := by
  refine of_kid hf he.mem ?_ hc
  rw [kids_expr hE, ExprForm.owned_eq]
  exact List.mem_append_left _ (List.mem_map_of_mem hchild)

/-- The receiver that the reference of a query is bound to. -/
theorem subject (hf : p.IsForest) {reference s : ExprId} {N : Expr} {callee : Callee}
    {dispatch extended : Option ExprId} {args : List ExprId} {property : DeclId} (he : .expr e ∈ p.nodes)
    (hE : p.expr? e = some E) (hcall : E.form = .call callee dispatch (some reference) args)
    (hN : p.expr? reference = some N) (hform : N.form = .propertyRef property (some s) extended) : Kept w p s := by
  have href : .expr reference ∈ p.nodes := by
    refine (enclosed_nodes hf).kids_mem he ?_
    simp [kids_expr hE, hcall, ExprForm.owned, ExprForm.children]
  refine of_kid hf href ?_ ?_
  · simp [kids_expr hN, hform, ExprForm.owned, ExprForm.children]
  · simp [construct?, hN, hform]

/-- What is kept and is no construct is as it was. -/
theorem expr?_eq (he : Kept w p e) (hE : p.expr? e = some E) (h : Lowered w p q (· ∈ p.nodes))
    (hc : w.construct? p (.expr e) = none) : q.expr? e = some E := by
  have hsame : p.SameAt q (.expr e) := by
    refine h.untouched (has_of_expr? hE) fun n hn hne => ?_
    obtain rfl := he.own n hn hne
    have hsome := hne.construct?_isSome
    rw [hc] at hsome
    cases hsome
  exact Eq.trans hsame hE

end Kept

/-! ## What the reference finds -/

/-- A field that has been given null. -/
def GivenNull (p q : Program) (field : DeclId) : Prop :=
  ∃ F content null span ty, p.decl? field = some F ∧ F.form = .field content ∧ content.initializer = none ∧
    q.expr? null = some ⟨span, ty, .const .null⟩ ∧ q.decl? field = some (F.withInitializer null)

/-- The getter that the reference guards is that of a genuine deferred property. -/
theorem guardedField?_eq_some {getter field : DeclId} {name : String} (h : p.guardedField? getter = some (field, name)) :
    ∃ d D r F, .decl d ∈ p.nodes ∧ p.decl? d = some D ∧ D.form = .property r ∧ D.isDeferredInit = true ∧
      D.modifiers.isFakeOverride = false ∧ r.getter = some getter ∧ r.backingField = some field ∧
      p.decl? field = some F ∧ F.name = name := by
  obtain ⟨n, hn, hfound⟩ := List.exists_of_findSome?_eq_some h
  cases n with
  | expr _ => cases hfound
  | decl d =>
    simp only [Option.bind_eq_bind, Option.bind_eq_some_iff, DeclForm.property?_eq_some] at hfound
    obtain ⟨D, hD, r, hr, hfound⟩ := hfound
    split at hfound
    · next hgenuine =>
      obtain ⟨hdef, hfake, hgetter⟩ := hgenuine
      simp only [Option.bind_eq_some_iff, Option.pure_def, Option.some.injEq, Prod.mk.injEq] at hfound
      obtain ⟨_, hfield, F, hF, rfl, rfl⟩ := hfound
      exact ⟨d, D, r, F, hn, hD, hr, hdef, Bool.eq_false_iff.2 hfake, hgetter, hfield, hF, rfl⟩
    · cases hfound

/-- What the reference guards, lowering has guarded: the body of the getter, over a field that it has given null. -/
theorem exists_bodyGuard (h : Lowered w p q (· ∈ p.nodes)) {getter field : DeclId} {name : String}
    (hguarded : p.guardedField? getter = some (field, name)) :
    GivenNull p q field ∧ ∃ (G : Decl) (ty : Ty) (f : FunctionDecl)
      (g : BodyGuard w q G.span getter f.dispatchReceiver field ty name),
      p.decl? getter = some G ∧ G.form = .function f ∧ (∀ n ∈ g.nodes, ¬p.Has n) ∧
      q.decl? getter = some { G with form := .function { f with body := some g.body } } := by
  obtain ⟨d, D, r, F, hn, hD, hr, hdef, hfake, hgetter, hfield, hF, rfl⟩ := guardedField?_eq_some hguarded
  have hc : w.construct? p (.decl d) = some .property :=
    construct?_decl_eq_some.2 ⟨D, hD, hdef, .inr ⟨⟨r, hr⟩, hfake, rfl⟩⟩
  obtain ⟨field', getter', F', G, content, f, null, g, hfield', hgetter', hF', hcontent, hinit, hnull, hq, hG, hf, hnew,
    hq'⟩ := (h.changed hn hc).parts hD hr
  obtain rfl := Option.some.inj (hgetter.symm.trans hgetter')
  obtain rfl := Option.some.inj (hfield.symm.trans hfield')
  obtain rfl := Option.some.inj (hF.symm.trans hF')
  exact ⟨⟨F, content, null, _, _, hF, hcontent, hinit, hnull, hq⟩, G, content.ty, f, g, hG, hf, hnew, hq'⟩

/-- Every getter whose body lowering has guarded is one that the reference guards. -/
theorem guardedField?_ne_none (h : Lowered w p q (· ∈ p.nodes)) {d getter : DeclId} {D : Decl} {r : PropertyDecl}
    (hd : .decl d ∈ p.nodes) (hc : w.construct? p (.decl d) = some .property) (hD : p.decl? d = some D)
    (hr : D.form = .property r) (hgetter : r.getter = some getter) : p.guardedField? getter ≠ none := by
  intro hnone
  have hnone := List.findSome?_eq_none_iff.1 hnone _ hd
  obtain ⟨D', hD', hdef, ⟨_, hvar⟩ | ⟨_, hfake, _⟩⟩ := construct?_decl_eq_some.1 hc
  · cases hvar
  rw [hD] at hD'
  obtain rfl := Option.some.inj hD'
  obtain ⟨field, _, F, _, _, _, _, _, hfield, -, hF, -⟩ := (h.changed hd hc).parts hD hr
  simp [hD, hr, DeclForm.property?, hdef, hfake, hgetter, hfield, hF] at hnone

/-- **The declarations that rules overwrite**: deferred variables, fields that are given null, and getters that are
guarded. -/
theorem decl_of_touches (h : Lowered w p q (· ∈ p.nodes)) {d : DeclId} {D : Decl} (hD : p.decl? d = some D)
    (hn : n ∈ p.nodes) (ht : Touches w p n (.decl d)) :
    D.isDeferredVariable = true ∨ GivenNull p q d ∨ (∃ f, D.form = .function f) ∧ p.guardedField? d ≠ none := by
  generalize hm : NodeId.decl d = m at ht
  cases ht with
  | var hc =>
    cases hm
    obtain ⟨D', hD', hdef, ⟨⟨v, hv⟩, _⟩ | ⟨_, _, hprop⟩⟩ := construct?_decl_eq_some.1 hc
    · rw [hD] at hD'
      obtain rfl := Option.some.inj hD'
      simp [Decl.isDeferredVariable, hdef, hv, DeclForm.var?]
    · cases hprop
  | read | query | reference => cases hm
  | field hc hd hr hq _ _ =>
    cases hm
    obtain ⟨field', _, F, _, content, _, null, _, hfield', -, hF, hcontent, hinit, hnull, hq', -⟩ :=
      (h.changed hn hc).parts hd hr
    obtain rfl := Option.some.inj (hq.symm.trans hfield')
    exact .inr (.inl ⟨F, content, null, _, _, hF, hcontent, hinit, hnull, hq'⟩)
  | getter hc hd hr hq hg hG =>
    cases hm
    rw [hD] at hg
    obtain rfl := Option.some.inj hg
    exact .inr (.inr ⟨⟨_, hG⟩, guardedField?_ne_none h hn hc hd hr hq⟩)

/-- Only a query asks. -/
theorem construct?_of_queried? (hE : p.expr? e = some E) {r : DeclId × Option ExprId}
    (h : w.queried? p E.form = some r) : w.construct? p (.expr e) = some .query := by
  unfold queried? at h
  split at h
  · next hash _ reference _ hcall =>
    simp only [Option.bind_eq_bind, Option.bind_eq_some_iff] at h
    obtain ⟨N, -, h⟩ := h
    split at h
    · split at h
      · next hhash => simp [construct?, hE, hcall, hhash]
      · cases h
    · cases h
  · cases h

/-- A query asks for the field of the property, of the receiver that the reference is bound to. -/
theorem queried?_eq {reference : ExprId} {N : Expr} {dispatch subject : Option ExprId} {args : List ExprId}
    {property field : DeclId} {P : Decl} {r : PropertyDecl}
    (hE : E.form = .call (.library w.intrinsics.isInitializedGetter) dispatch (some reference) args)
    (hN : p.expr? reference = some N) (hform : N.form = .propertyRef property subject none)
    (hP : p.decl? property = some P) (hr : P.form = .property r) (hfield : r.backingField = some field) :
    w.queried? p E.form = some (field, subject) := by
  simp [queried?, hE, hN, hform, hP, hr, DeclForm.property?, hfield]

end Lowering

end DeferredInit
