import DeferredInit.Proofs.Lowering.Failure
import DeferredInit.Proofs.Lowering.Numbered
import DeferredInit.Proofs.Machine.Renamed

/-!
# Names in reports

Lowering can be told to have each report tell a name.  Nothing else that it does depends on that: a lowering with
names fails like one without, counts the same (`lower_named_fst`), and installs the same patches, except that each
report has a text for an argument (`Site.newExprs_patch`).

The texts are nodes of their own, so all expressions that are added later have other handles.  Declarations have the
same ones.  `Program.ReportsNamed` says how the two lowered programs are related.
-/

namespace DeferredInit

open Program

namespace Program

/-- **An expression, and what it is with names in reports**: the same up to handles, or a report that has a name. -/
inductive SameOrNamed (throw : SymbolHash) (σ : ExprId → ExprId) (q q' : Program) (e : ExprId) (E : Expr) : Prop
  | same : q'.expr? (σ e) = some (E.rename (.onExprs σ)) → SameOrNamed throw σ q q' e E
  | named {text : ExprId} {span : Span} {ty : Ty} {name : String} : q.exprs.size < q'.exprs.size →
      E.form = .call (.library throw) none none [] →
      q'.expr? (σ e) = some { E with form := .call (.library throw) none none [text] } →
      q'.expr? text = some ⟨span, ty, .const (.str name)⟩ → SameOrNamed throw σ q q' e E

/-- **A program, and what it is with names in reports.** -/
structure ReportsNamed (throw : SymbolHash) (σ : ExprId → ExprId) (q q' : Program) : Prop where
  size_le : q.exprs.size ≤ q'.exprs.size
  decl? : ∀ d, q'.decl? d = (q.decl? d).map (·.rename (.onExprs σ))
  expr? : ∀ e E, q.expr? e = some E → SameOrNamed throw σ q q' e E

end Program

/-- A node that a patch adds, next to the same patch with names in reports. -/
inductive Patch.KeptOrNamed (throw : SymbolHash) (P P' : Patch) : ExprId → Expr → Prop
  | kept {e : ExprId} {E : Expr} : (e, E) ∈ P'.newExprs → KeptOrNamed throw P P' e E
  | named {e text : ExprId} {span : Span} {name : String} : P.newExprs.length < P'.newExprs.length →
      (e, ⟨span, .nothing, .call (.library throw) none none [text]⟩) ∈ P'.newExprs →
      (text, ⟨span, .string, .const (.str name)⟩) ∈ P'.newExprs →
      KeptOrNamed throw P P' e ⟨span, .nothing, .call (.library throw) none none []⟩

namespace Lowering

/-- The lowering whose reports tell no names. -/
def plain (i : Intrinsics) : Lowering := { intrinsics := i, options := { namesInReports := false } }

/-- The lowering whose reports tell names. -/
def named (i : Intrinsics) : Lowering := { intrinsics := i, options := { namesInReports := true } }

variable {i : Intrinsics} {p q q' : Program} {L : List NodeId}

/-! ## Results -/

theorem violations_named : (named i).violations p = (plain i).violations p := by
  funext n
  cases n <;> rfl

theorem construct?_named : (named i).construct? p = (plain i).construct? p := by
  funext n
  cases n <;> rfl

/-- **A lowering with names ends like one without**: with the same fault or the same statistics. -/
theorem lower_named_fst (hp : p.Closed) (hf : p.IsForest) : ((named i).lower p).1 = ((plain i).lower p).1 := by
  have hplain := lower_first (w := plain i) hp hf
  have hnamed := lower_first (w := named i) hp hf
  rw [violations_named] at hnamed
  cases hfirst : (p.nodes.flatMap ((plain i).violations p)).head? with
  | some fault =>
    rw [hfirst] at hplain hnamed
    rw [hplain, hnamed]
  | none =>
    rw [hfirst] at hplain hnamed
    obtain ⟨stats, hplain⟩ := hplain
    obtain ⟨stats', hnamed⟩ := hnamed
    have hdone := done_of_lower hp hf (Prod.ext hplain rfl : (plain i).lower p = (.ok stats, ((plain i).lower p).2))
    have hdone' := done_of_lower hp hf (Prod.ext hnamed rfl : (named i).lower p = (.ok stats', ((named i).lower p).2))
    have hstats : stats' = stats := LoweringStats.ext_tally fun c => by
      rw [hdone.tally c, hdone'.tally c, construct?_named]
    rw [hplain, hnamed, hstats]

/-! ## Patches -/

section Patches

variable {held : DeclId} {place : Nat → ExprId} {n : NodeId} {e : ExprId} {E : Expr}

theorem site?_named (n : NodeId) : (named i).site? p n = (plain i).site? p n := rfl

theorem length_reportNodes (w : Lowering) (span : Span) (name : String) (text failure : ExprId) :
    (w.reportNodes span name text failure).length = if w.options.namesInReports then 2 else 1 := by
  unfold reportNodes
  split <;> rfl

/-- **A patch holds one report at most**, and lowerings differ in nothing else. -/
theorem Site.newExprs_patch (S : Site) (held : DeclId) (place : Nat → ExprId) :
    (∃ es, ∀ w, (S.patch w held place).newExprs = es) ∨ ∃ A B span name text failure,
      ∀ w, (S.patch w held place).newExprs = A ++ w.reportNodes span name text failure ++ B := by
  cases S with
  | var => exact .inl ⟨_, fun _ => rfl⟩
  | read => exact .inr ⟨_, _, _, _, _, _, fun _ => rfl⟩
  | query => exact .inl ⟨_, fun _ => rfl⟩
  | property => exact .inr ⟨_, _, _, _, _, _, fun _ => List.append_assoc _ _ _⟩

/-- Patches with names are those without, apart from the expressions added. -/
theorem patchAt_named : (named i).patchAt p held place n =
    { (plain i).patchAt p held place n with newExprs := ((named i).patchAt p held place n).newExprs } := by
  cases hS : (plain i).site? p n with
  | none => rw [patchAt_idle hS, patchAt_idle ((site?_named n).trans hS)]
  | some S =>
    rw [(finds_of_site? hS).patchAt_eq, (finds_of_site? ((site?_named n).trans hS)).patchAt_eq]
    cases S <;> rfl

theorem length_newExprs_patchAt_le :
    ((plain i).patchAt p held place n).newExprs.length ≤ ((named i).patchAt p held place n).newExprs.length := by
  cases hS : (plain i).site? p n with
  | none => rw [patchAt_idle hS, patchAt_idle ((site?_named n).trans hS)]
  | some S =>
    rw [(finds_of_site? hS).patchAt_eq, (finds_of_site? ((site?_named n).trans hS)).patchAt_eq]
    obtain ⟨es, h⟩ | ⟨A, B, span, name, text, failure, h⟩ := S.newExprs_patch held place
    · rw [h, h]
    · simp [h, length_reportNodes, plain, named]

theorem keptOrNamed (he : (e, E) ∈ ((plain i).patchAt p held place n).newExprs) :
    Patch.KeptOrNamed i.throwUninitialized ((plain i).patchAt p held place n) ((named i).patchAt p held place n) e E := by
  cases hS : (plain i).site? p n with
  | none =>
    rw [patchAt_idle hS] at he
    cases he
  | some S =>
    rw [(finds_of_site? hS).patchAt_eq] at he ⊢
    rw [(finds_of_site? ((site?_named n).trans hS)).patchAt_eq]
    obtain ⟨es, h⟩ | ⟨A, B, span, name, text, failure, h⟩ := S.newExprs_patch held place
    · rw [h] at he
      exact .kept (by rwa [h])
    · rw [h, List.mem_append, List.mem_append] at he
      rcases he with (he | he) | he
      · exact .kept (by simp [h, he])
      · obtain ⟨rfl, rfl⟩ : e = failure ∧ E = ⟨span, .nothing, .call (.library i.throwUninitialized) none none []⟩ := by
          simpa [reportNodes, plain] using he
        refine @Patch.KeptOrNamed.named _ _ _ _ text _ name ?_ ?_ ?_
        · simp [h, length_reportNodes, plain, named]
        · simp [h, reportNodes, named]
        · simp [h, reportNodes, named]
      · exact .kept (by simp [h, he])

end Patches

/-! ## Lowered programs -/

theorem newDecls_named : (named i).newDecls p L = (plain i).newDecls p L := by
  simp only [newDecls, patch]
  exact congrArg (List.flatMap · L) (funext fun n => by rw [patchAt_named])

theorem length_newExprs_cons (w : Lowering) (p : Program) (n : NodeId) (L : List NodeId) :
    (w.newExprs p (n :: L)).length = (w.patch p n).newExprs.length + (w.newExprs p L).length := by
  simp [newExprs]

theorem length_newExprs_le : ((plain i).newExprs p L).length ≤ ((named i).newExprs p L).length := by
  induction L with
  | nil => exact Nat.le_refl 0
  | cons n L ih =>
    rw [length_newExprs_cons, length_newExprs_cons]
    exact Nat.add_le_add length_newExprs_patchAt_le ih

/-- With names there are more expressions, if any report has got one. -/
theorem length_newExprs_lt {a : NodeId} (ha : a ∈ L)
    (hlt : ((plain i).patch p a).newExprs.length < ((named i).patch p a).newExprs.length) :
    ((plain i).newExprs p L).length < ((named i).newExprs p L).length := by
  induction L with
  | nil => cases ha
  | cons n L ih =>
    rw [length_newExprs_cons, length_newExprs_cons]
    rcases List.mem_cons.1 ha with rfl | ha
    · exact Nat.add_lt_add_of_lt_of_le hlt length_newExprs_le
    · exact Nat.add_lt_add_of_le_of_lt length_newExprs_patchAt_le (ih ha)

/-- From the expressions of the program without names to those of the program with names. -/
def namedExpr (i : Intrinsics) (p : Program) (L : List NodeId) (e : ExprId) : ExprId :=
  ((named i).numbering p L).expr ((slotOf (plain i) p L).expr e)

theorem leads_named : Leads (plain i) p L (named i) L (.onExprs (namedExpr i p L)) where
  node_eq k hk := by
    cases k with
    | decl d =>
      show NodeId.decl ⟨number p.decls.size ((plain i).newDecls p L) d.index⟩ =
        .decl ⟨number p.decls.size ((named i).newDecls p L) d.index⟩
      rw [newDecls_named]
    | expr e => exact congrArg (((named i).numbering p L).node ·) (slotOf_numbering hk)
  stands hD := by
    cases hD with
    | kept hD hnot => exact .kept hD fun a ha => by rw [patch, patchAt_named]; exact hnot a ha
    | changed ha hD => exact .changed ha (by rw [patch, patchAt_named]; exact hD)
  added hD := by
    obtain ⟨a, ha, hD⟩ := hD
    exact ⟨a, ha, by rw [patch, patchAt_named]; exact hD⟩

/-- **The two lowered programs differ in names**, and in handles of expressions. -/
theorem Numbered.reportsNamed (h : Numbered (plain i) p L L q) (h' : Numbered (named i) p L L q') (hp : p.Closed)
    (hq : q.Closed) (hL : L.Nodup) : ReportsNamed i.throwUninitialized (namedExpr i p L) q q' where
  size_le := by
    rw [h.size_exprs, h'.size_exprs]
    exact Nat.add_le_add_left length_newExprs_le _
  decl? d := by
    cases hD : q.decl? d with
    | none =>
      have hsize : q'.decls.size = q.decls.size := by rw [h.size_decls, h'.size_decls, newDecls_named]
      rw [Option.map_none]
      refine Array.getElem?_eq_none ?_
      rw [hsize]
      exact Array.getElem?_eq_none_iff.1 hD
    | some D =>
      by_cases hd : p.Has (.decl d)
      · exact leads_named.decl? h h' hp hq hL hd hD
      · obtain ⟨hname, htemporary⟩ := leads_named.temporary h h' hp hq hL hd hD
        rw [show (Renaming.onExprs (namedExpr i p L)).decl d = d from rfl, ← hname] at htemporary
        exact htemporary
  expr? e E hE := by
    obtain ⟨e₀, E₀, rfl, hE₀, rfl⟩ := h.exists_expr hp hL hE
    -- only a report is not the same on both sides, and all reports are among the nodes added
    have hkept (hstands : ExprStands (named i) p L e₀ E₀) :
        SameOrNamed i.throwUninitialized (namedExpr i p L) q q' (((plain i).numbering p L).expr e₀)
          (E₀.rename ((plain i).numbering p L)) :=
      .same (leads_named.expr? h h' hp hq hE hstands)
    cases hE₀ with
    | kept hE₀ hnot => exact hkept (.kept hE₀ fun a ha => by rw [patch, patchAt_named]; exact hnot a ha)
    | @installed a ha hmem =>
      rcases List.mem_append.1 hmem with hmem | hmem
      · have hplaced : Placed (plain i) p L (.expr e₀) := h.has_iff.1 (has_of_expr? hE)
        have hhandle : namedExpr i p L (((plain i).numbering p L).expr e₀) = ((named i).numbering p L).expr e₀ :=
          NodeId.expr.inj (leads_named.node_eq (.expr e₀) hplaced)
        cases keptOrNamed hmem with
        | kept hmem' => exact hkept (.installed ha (List.mem_append_left _ hmem'))
        | named hlt hcall htext =>
          refine .named ?_ rfl ?_ (h'.expr?_of_stands hp (.installed ha (List.mem_append_left _ htext)))
          · rw [h.size_exprs, h'.size_exprs]
            exact Nat.add_lt_add_left (length_newExprs_lt ha hlt) _
          · rw [hhandle, h'.expr?_of_stands hp (.installed ha (List.mem_append_left _ hcall))]
            rfl
      · exact hkept (.installed ha (List.mem_append_right _ (by rw [patch, patchAt_named]; exact hmem)))

/-- Lowering with names and without leads to programs that differ in names. -/
theorem reportsNamed_of_lower (hp : p.Closed) (hf : p.IsForest) {s t : LoweringStats}
    (h : (plain i).lower p = (.ok s, q)) (h' : (named i).lower p = (.ok t, q')) :
    ReportsNamed i.throwUninitialized (namedExpr i p p.nodes) q q' :=
  (numbered_of_lower hp hf h).reportsNamed (numbered_of_lower hp hf h') hp
    ((done_of_lower hp hf h).preserves.closed hp) (nodup_nodes hf)

end Lowering

end DeferredInit
