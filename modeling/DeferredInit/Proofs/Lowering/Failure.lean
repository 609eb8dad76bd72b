import DeferredInit.Proofs.Lowering.Order

/-!
# When lowering fails

Lowering looks for violations in a program that it has already begun to change.  In a forest this makes no
difference: what a rule looks at in its own node and in those that this node owns has not been changed yet, except
by their own rules, and what it looks at elsewhere is never changed (`violations_congr`).  So lowering fails exactly
if a node that can be reached violates something in the original program, and it reports the first violation, node
by node in postorder and in the order of `violations` within a node (`lower_result`).
-/

namespace DeferredInit

open Program LoweringFault

namespace Lowering

variable {w : Lowering} {p q : Program} {n : NodeId} {c : Construct} {R L A : List NodeId}

/-! ## Constructs that violate nothing -/

/-- Only constructs violate anything. -/
theorem violations_eq_nil (h : w.construct? p n = none) : w.violations p n = [] := by
  cases n with
  | decl d =>
    cases hd : p.decl? d with
    | none => simp [violations, hd]
    | some D =>
      simp only [construct?, hd, Option.bind_eq_bind, Option.bind_some] at h
      simp only [violations, hd, Option.elim_some]
      cases hdef : D.isDeferredInit with
      | false => rfl
      | true =>
        cases hform : D.form <;> simp_all
  | expr e =>
    cases he : p.expr? e with
    | none => simp [violations, he]
    | some E =>
      simp only [construct?, he, Option.bind_eq_bind, Option.bind_some] at h
      simp only [violations, he, Option.elim_some]
      cases hform : E.form with
      | getValue x =>
        cases hx : p.decl? x with
        | none => simp [hx]
        | some X =>
          cases hdef : X.isDeferredInit with
          | false => simp [hx, hdef]
          | true => cases hv : X.form <;> simp_all [Decl.isDeferredVariable, DeclForm.var?]
      | call callee _ _ _ => cases callee <;> simp_all
      | _ => rfl

/-- A rule that makes its change has found nothing violated. -/
theorem Change.violations_eq_nil (h : Change w p n c q) : w.violations p n = [] := by
  cases h with
  | var hd hdef hform hinit hty =>
    simp [violations, hd, hdef, hform, VariableDecl.violations, Ty.violations, hinit, hty, reportIf]
  | read he hE hx hdef hv hty => simp [violations, he, hE, hx, hdef, hv, Ty.violations, hty, reportIf]
  | query he hE hN hform hP hq hty hfield =>
    simp [violations, he, hE, queryViolations, hN, hform, hP, hq, Ty.violations, hty, hfield, reportIf]
  | property hd hdef hform hfake hext hfield hgetter hF hcontent hty hinit hguard =>
    obtain ⟨hG, hf, -, -⟩ := hguard
    simp [violations, hd, hdef, hform, hfake, propertyViolations, hext, hfield, hgetter, fieldViolations, hF, hcontent,
      Ty.violations, hty, getterViolations, hG, hf, DeclForm.function?, assignmentViolations, DeclForm.field?, hinit,
      reportIf]

/-! ## Violations while lowering -/

/-- A declaration that a rule comes upon is as it was, or a variable that has been given null. -/
theorem Met.decl?_eq {d : DeclId} (h : Met w p q (.decl d)) : q.decl? d = p.decl? d ∨
    ∃ D v null, p.decl? d = some D ∧ D.form = .var v ∧ q.decl? d = some (D.withInitializer null) := by
  rcases h with h | ⟨c, hc, h⟩
  · exact .inl h
  · cases h with
    | var hd hD _ _ _ hvar => exact .inr ⟨_, _, _, hd, hD, hvar⟩
    | property => exact absurd rfl hc

/-- An expression that a rule comes upon is as it was, or it was no reference to a property and is none now. -/
theorem Met.expr?_eq {e : ExprId} (h : Met w p q (.expr e)) : q.expr? e = p.expr? e ∨
    ∃ E E', p.expr? e = some E ∧ q.expr? e = some E' ∧
      (∀ property dispatch extension, E.form ≠ .propertyRef property dispatch extension) ∧
      ∀ property dispatch extension, E'.form ≠ .propertyRef property dispatch extension := by
  rcases h with h | ⟨c, -, h⟩
  · exact .inl h
  · cases h with
    | read he hE _ _ _ _ hq => exact .inr ⟨_, _, he, hq, by simp [hE], nofun⟩
    | query he hE _ _ _ _ _ _ hq _ => exact .inr ⟨_, _, he, hq, by simp [hE], nofun⟩

theorem Met.fieldViolations_eq {field : DeclId} (h : Met w p q (.decl field)) (D : Decl) :
    q.fieldViolations D field = p.fieldViolations D field := by
  rcases h.decl?_eq with h | ⟨F, v, null, hF, hv, hq⟩
  · simp only [fieldViolations, h]
  · simp [fieldViolations, hF, hv, hq, Decl.withInitializer, DeclForm.withInitializer]

theorem Met.getterViolations_eq {getter : DeclId} (h : Met w p q (.decl getter)) :
    q.getterViolations getter = p.getterViolations getter := by
  rcases h.decl?_eq with h | ⟨G, v, null, hG, hv, hq⟩
  · simp only [getterViolations, h]
  · simp [getterViolations, hG, hv, hq, Decl.withInitializer, DeclForm.withInitializer, DeclForm.function?]

theorem Met.assignmentViolations_eq {field : DeclId} (h : Met w p q (.decl field)) (D : Decl) :
    q.assignmentViolations D field = p.assignmentViolations D field := by
  rcases h.decl?_eq with h | ⟨F, v, null, hF, hv, hq⟩
  · simp only [assignmentViolations, h]
  · simp [assignmentViolations, hF, hv, hq, Decl.withInitializer, DeclForm.withInitializer, DeclForm.field?]

/-- What a query violates is said by its reference, and by nothing about the property that ever changes. -/
theorem Met.queryViolations_eq (hp : p.Closed) (halike : Alike p q) {reference : ExprId}
    (h : Met w p q (.expr reference)) (span : Span) :
    q.queryViolations span (some reference) = p.queryViolations span (some reference) := by
  rcases h.expr?_eq with h | ⟨N, N', hN, hN', hform, hform'⟩
  · simp only [queryViolations, Option.bind_some, h]
    cases hN : p.expr? reference with
    | none => rfl
    | some N =>
      cases hform : N.form with
      | propertyRef property dispatch extension =>
        obtain ⟨P, hP⟩ := has_decl_iff.1 (hp.has_of_expr hN (n := .decl property)
          (by simp [hform, ExprForm.mentioned, ExprForm.subject?]))
        obtain ⟨P', hP', hsk⟩ := halike property P hP
        obtain ⟨hname, -, -, hskel⟩ := Decl.mk.inj hsk
        have hprop : ∀ r, P'.form = .property r ↔ P.form = .property r := fun r => by
          rw [← DeclForm.skeleton_property, hskel, DeclForm.skeleton_property]
        simp only [Option.map_some, hform, hP, hP', Option.elim_some, hname]
        cases hr : P.form with
        | property r => rw [(hprop r).2 hr]
        | _ => cases hr' : P'.form <;> simp_all
      | _ => simp [hform]
  · simp only [queryViolations, Option.bind_some, hN, hN', Option.map_some]
    cases hE : N.form <;> cases hE' : N'.form <;> simp_all

/-- **Lowering changes no violation** of a node that it has still to come to. -/
theorem violations_congr (hp : p.Closed) (halike : Alike p q) (hn : p.Has n) (hsame : p.SameAt q n)
    (hkids : ∀ k ∈ p.kids n, Met w p q k) : w.violations q n = w.violations p n := by
  cases n with
  | decl d =>
    obtain ⟨D, hD⟩ := has_decl_iff.1 hn
    simp only [violations, show q.decl? d = p.decl? d from hsame, hD, Option.elim_some]
    cases hform : D.form with
    | property r =>
      -- the parts come before the property, so they may have been met
      have hmet (k : DeclId) (hk : k ∈ D.form.ownedDecls) : Met w p q (.decl k) := hkids _ (by
        rw [kids_decl hD, DeclForm.owned]
        exact List.mem_append_left _ (List.mem_map_of_mem hk))
      have hfield : r.backingField.elim [] (q.fieldViolations D) = r.backingField.elim [] (p.fieldViolations D) := by
        cases h : r.backingField with
        | none => rfl
        | some field => exact (hmet field (by simp [hform, DeclForm.ownedDecls, h])).fieldViolations_eq D
      have hgetter : r.getter.elim [] q.getterViolations = r.getter.elim [] p.getterViolations := by
        cases h : r.getter with
        | none => rfl
        | some getter => exact (hmet getter (by simp [hform, DeclForm.ownedDecls, h])).getterViolations_eq
      have hassignment : r.backingField.elim [] (q.assignmentViolations D) =
          r.backingField.elim [] (p.assignmentViolations D) := by
        cases h : r.backingField with
        | none => rfl
        | some field => exact (hmet field (by simp [hform, DeclForm.ownedDecls, h])).assignmentViolations_eq D
      cases D.isDeferredInit with
      | false => rfl
      | true => simp only [propertyViolations, hfield, hgetter, hassignment]
    | _ => cases D.isDeferredInit <;> rfl
  | expr e =>
    obtain ⟨E, hE⟩ := has_expr_iff.1 hn
    simp only [violations, show q.expr? e = p.expr? e from hsame, hE, Option.elim_some]
    cases hform : E.form with
    | getValue x =>
      obtain ⟨X, hX⟩ := has_decl_iff.1 (hp.has_of_expr hE (n := .decl x)
        (by simp [hform, ExprForm.mentioned, ExprForm.subject?]))
      obtain ⟨X', hX', hsk⟩ := halike x X hX
      obtain ⟨hname, -, hmod, hskel⟩ := Decl.mk.inj hsk
      simp only [hX, hX', Option.elim_some, hname, Decl.isDeferredInit, hmod]
      cases X.modifiers.isDeferredInit with
      | false => rfl
      | true => cases hv : X.form <;> cases hv' : X'.form <;> simp_all [DeclForm.skeleton]
    | call callee dispatch subject args =>
      cases callee with
      | declared _ => rfl
      | library hash =>
        cases subject with
        | none => rfl
        | some reference =>
          have hreference : .expr reference ∈ p.kids (.expr e) := by
            simp [kids_expr hE, hform, ExprForm.owned, ExprForm.children]
          simp only [(hkids _ hreference).queryViolations_eq hp halike]
    | _ => rfl

/-! ## The first violation -/

section Traversal

variable {s : Progress} {C : List NodeId}

/-- Lowering nodes one after the other stops at the first violation, and at nothing else. -/
theorem Done.forM_rule (hp : p.Closed) (hN : Postorder p R (A ++ (L ++ C))) (hd : (A ++ (L ++ C)).Nodup)
    (h : Done w p A s) :
    match (L.flatMap (w.violations p)).head? with
    | none => ∃ t, L.forM w.rule s = .ok () t
    | some f => ∃ t, L.forM w.rule s = .error (.fault f) t := by
  -- the nodes `A` are done; nothing that is violated further on has been changed by that
  induction L generalizing A s with
  | nil => exact ⟨s, rfl⟩
  | cons n L ih =>
    have hnA : n ∉ A := fun hmem => (List.nodup_append.1 hd).2.2 n hmem n List.mem_cons_self rfl
    have hL := hN.enclosed hd
    have hA := hN.kids_subset_left hd
    have hn : n ∈ A ++ (n :: L ++ C) := by simp
    have hhas := hL.has n hn
    have hviolations : w.violations s.program n = w.violations p n :=
      violations_congr hp h.alike hhas (h.sameAt hA hhas hnA) fun k hk =>
        h.met hL (List.subset_append_left A _) hn hnA hk
    have hcons : A ++ (n :: L ++ C) = (A ++ [n]) ++ (L ++ C) := by simp
    have hnext {t : Progress} (ht : w.rule n s = .ok () t) :
        (n :: L).forM w.rule s = L.forM w.rule t ∧ Done w p (A ++ [n]) t := by
      rw [forM_cons, LowerM.bind_ok ht]
      exact ⟨rfl, h.step hp hL (List.subset_append_left A _) hA hn hnA ht⟩
    have outcome := rule_outcome (w := w) (h.preserves.closed hp) (h.preserves.has hhas)
    rw [List.flatMap_cons, List.head?_append, ← hviolations]
    generalize hrule : w.rule n s = r at outcome
    cases outcome with
    | idle hnone =>
      obtain ⟨hforM, ht⟩ := hnext hrule
      rw [violations_eq_nil hnone, hforM]
      exact ih (hcons ▸ hN) (hcons ▸ hd) ht
    | change hchange =>
      obtain ⟨hforM, ht⟩ := hnext hrule
      rw [hchange.violations_eq_nil, hforM]
      exact ih (hcons ▸ hN) (hcons ▸ hd) ht
    | fault hf | late hf =>
      rw [hf]
      exact ⟨_, by rw [forM_cons, LowerM.bind_error hrule]⟩

end Traversal

/-- The first violation of a forest is how its lowering ends. -/
theorem lower_first (hp : p.Closed) (hf : p.IsForest) :
    match (p.nodes.flatMap (w.violations p)).head? with
    | none => ∃ stats, (w.lower p).1 = .ok stats
    | some f => (w.lower p).1 = .error (.fault f) := by
  obtain ⟨hL, hd⟩ := postorder_nodes hf
  have hN : Postorder p p.outermost ([] ++ (p.nodes ++ [])) := by rwa [List.append_nil]
  have h := (Done.nil w p).forM_rule hp hN (by rwa [List.append_nil])
  rw [← lowerAll_eq hp hf] at h
  split at h
  · next =>
    obtain ⟨t, ht⟩ := h
    rw [lower, ht]
    exact ⟨t.stats, rfl⟩
  · next =>
    obtain ⟨t, ht⟩ := h
    rw [lower, ht]

/-- A forest that violates nothing is lowered to the end. -/
theorem lower_ok (hp : p.Closed) (hf : p.IsForest) (h : ∀ n, p.Reachable n → w.violations p n = []) :
    ∃ stats, (w.lower p).1 = .ok stats := by
  have hfirst := lower_first (w := w) hp hf
  have hnil : p.nodes.flatMap (w.violations p) = [] :=
    List.flatMap_eq_nil_iff.2 fun n hn => h n ((mem_nodes_iff hf).1 hn)
  rwa [hnil] at hfirst

/-- A forest that violates something is rejected, for something that it violates. -/
theorem lower_error (hp : p.Closed) (hf : p.IsForest) (hn : p.Reachable n) (h : w.violations p n ≠ []) :
    ∃ m f, p.Reachable m ∧ f ∈ w.violations p m ∧ (w.lower p).1 = .error (.fault f) := by
  have hfirst := lower_first (w := w) hp hf
  cases hall : p.nodes.flatMap (w.violations p) with
  | nil => exact absurd (List.flatMap_eq_nil_iff.1 hall n ((mem_nodes_iff hf).2 hn)) h
  | cons f rest =>
    rw [hall] at hfirst
    obtain ⟨m, hm, hmf⟩ := List.mem_flatMap.1 (hall ▸ List.mem_cons_self : f ∈ p.nodes.flatMap (w.violations p))
    exact ⟨m, f, (mem_nodes_iff hf).1 hm, hmf, hfirst⟩

/-- A forest is lowered to the end exactly if none of its nodes violates anything. -/
theorem lower_fails_iff (hp : p.Closed) (hf : p.IsForest) :
    (∃ stop, (w.lower p).1 = .error stop) ↔ ∃ n, p.Reachable n ∧ w.violations p n ≠ [] := by
  constructor
  · rintro ⟨stop, hstop⟩
    by_contra hnone
    obtain ⟨stats, hstats⟩ := lower_ok (w := w) hp hf fun n hn => not_not.1 fun h => hnone ⟨n, hn, h⟩
    rw [hstats] at hstop
    cases hstop
  · rintro ⟨n, hn, h⟩
    obtain ⟨m, f, -, -, hlower⟩ := lower_error hp hf hn h
    exact ⟨_, hlower⟩

/-- **Lowering stops at the first violation**, and at nothing else.  A closed program that is a forest is lowered to
the end, unless a node that can be reached violates something.  Then the lowering ends with a fault, which is the
first violation of the original program: that of the first node in postorder to violate anything, and of its
violations the first. -/
theorem lower_result (hp : p.Closed) (hf : p.findShared = .ok none) :
    ((∃ stop, (w.lower p).1 = .error stop) ↔ ∃ n, p.Reachable n ∧ w.violations p n ≠ []) ∧
      Postorder p p.outermost p.nodes ∧ p.nodes.Nodup ∧ (∀ n, n ∈ p.nodes ↔ p.Reachable n) ∧
      match (p.nodes.flatMap (w.violations p)).head? with
      | none => ∃ stats, (w.lower p).1 = .ok stats
      | some f => (w.lower p).1 = .error (.fault f) := by
  have hforest := findShared_eq_none_iff.1 hf
  obtain ⟨hL, hd⟩ := postorder_nodes hforest
  exact ⟨lower_fails_iff hp hforest, hL, hd, fun n => mem_nodes_iff hforest, lower_first hp hforest⟩

/-- The sample program with its class last, its property an extension, and a number as its deferred variable. -/
def faultySample : Program :=
  { sample with
    decls := (sample.decls.modify 1 fun D => { D with modifiers := D.modifiers ∪ .extension }).modify 7 fun D =>
      { D with form := .var { ty := .int } }
    topLevel := [⟨5⟩, ⟨6⟩, ⟨0⟩] }

/-- There the variable, its two reads and the property violate something, in this order.  The variable is reported. -/
theorem lower_result_faultySample :
    faultySample.Closed ∧ faultySample.findShared = .ok none ∧
      faultySample.nodes.flatMap (Sample.lowering.violations faultySample) =
        [.primitiveType "x" .int ⟨6, 3, 1⟩, .primitiveType "x" .int ⟨8, 3, 1⟩, .primitiveType "x" .int ⟨9, 10, 1⟩,
          .extensionProperty "name" ⟨2, 3, 4⟩] ∧
      (Sample.lowering.lower faultySample).1 = .error (.fault (.primitiveType "x" .int ⟨6, 3, 1⟩)) := by
  have hp : faultySample.Closed := by decide
  have hf : faultySample.findShared = .ok none := by decide +kernel
  have hviolations : faultySample.nodes.flatMap (Sample.lowering.violations faultySample) =
      [.primitiveType "x" .int ⟨6, 3, 1⟩, .primitiveType "x" .int ⟨8, 3, 1⟩, .primitiveType "x" .int ⟨9, 10, 1⟩,
        .extensionProperty "name" ⟨2, 3, 4⟩] := by
    decide +kernel
  have h := (lower_result (w := Sample.lowering) hp hf).2.2.2.2
  rw [hviolations] at h
  exact ⟨hp, hf, hviolations, h⟩

end Lowering

end DeferredInit
