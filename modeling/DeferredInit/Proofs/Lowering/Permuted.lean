import DeferredInit.Proofs.Lowering.Failure
import DeferredInit.Proofs.Lowering.Numbered

/-!
# The order of the outermost declarations

A rule may look up a declaration that lies elsewhere in the program, before or after the rule of that declaration has
been applied.  Nothing comes of that: in whatever order the outermost declarations are lowered, the same patches are
installed, and only the handles of the nodes added differ, and with them the names of temporaries
(`lower_permuted`).
-/

namespace DeferredInit

open Program
open scoped List

namespace Program

/-- The program with its outermost declarations given anew. -/
def withTopLevel (p : Program) (topLevel : List DeclId) : Program := { p with topLevel }

variable {p : Program} {topLevel : List DeclId}

theorem kids_withTopLevel (n : NodeId) : (p.withTopLevel topLevel).kids n = p.kids n := by
  cases n <;> rfl

theorem below_withTopLevel (depth : Nat) : (p.withTopLevel topLevel).below depth = p.below depth := by
  induction depth with
  | zero => rfl
  | succ depth ih =>
    funext n
    rw [below, below, ih, kids_withTopLevel]

/-- The nodes of a forest are only ordered by the outermost declarations. -/
theorem nodes_withTopLevel (h : topLevel ~ p.topLevel) : (p.withTopLevel topLevel).nodes ~ p.nodes := by
  rw [nodes, nodes, below_withTopLevel]
  exact (h.map NodeId.decl).flatMap_right _

theorem Closed.withTopLevel (hp : p.Closed) (h : topLevel ~ p.topLevel) : (p.withTopLevel topLevel).Closed :=
  ⟨fun d hd => hp.1 d (h.mem_iff.1 hd), hp.2⟩

theorem IsForest.withTopLevel (hp : p.IsForest) (h : topLevel ~ p.topLevel) :
    (p.withTopLevel topLevel).IsForest := by
  obtain ⟨L, hL⟩ := hp
  have hmore : Enclosed (p.withTopLevel topLevel) p.outermost L := hL.congr hL.has fun n _ => kids_withTopLevel n
  exact ⟨L, hmore.mono (h.map NodeId.decl).subperm⟩

/-! ## Programs with other handles -/

/-- **Two programs that have come of one are the same** up to the order of the outermost declarations, the handles
of the nodes added, and the names of the temporaries among them. -/
structure Renumbered (p : Program) (σ : Renaming) (q q' : Program) : Prop where
  bijective_decl : Function.Bijective σ.decl
  bijective_expr : Function.Bijective σ.expr
  fixed : ∀ n, p.Has n → σ.node n = n
  name_eq : q'.name = q.name
  topLevel_perm : q'.topLevel ~ q.topLevel
  has_iff : ∀ n, q'.Has (σ.node n) ↔ q.Has n
  decl? : ∀ d D, p.Has (.decl d) → q.decl? d = some D → q'.decl? d = some (D.rename σ)
  temporary : ∀ d D, ¬p.Has (.decl d) → q.decl? d = some D →
    D.name = temporaryName d ∧ q'.decl? (σ.decl d) = some { D.rename σ with name := temporaryName (σ.decl d) }
  expr? : ∀ e E, q.expr? e = some E → q'.expr? (σ.expr e) = some (E.rename σ)

end Program

namespace Lowering

variable {w : Lowering} {p q q' : Program} {topLevel : List DeclId} {L L' : List NodeId}

/-! ## Statistics -/

/-- A forest is lowered to the end exactly if none of its nodes violates anything. -/
theorem exists_ok_iff (hp : p.Closed) (hf : p.IsForest) :
    (∃ stats, (w.lower p).1 = .ok stats) ↔ ∀ n ∈ p.nodes, w.violations p n = [] := by
  have hfirst := lower_first (w := w) hp hf
  rw [← List.flatMap_eq_nil_iff]
  cases hall : p.nodes.flatMap (w.violations p) with
  | nil =>
    rw [hall] at hfirst
    exact iff_of_true hfirst rfl
  | cons f rest =>
    rw [hall] at hfirst
    refine iff_of_false (fun ⟨stats, h⟩ => ?_) (List.cons_ne_nil _ _)
    simp only [List.head?_cons] at hfirst
    rw [hfirst] at h
    cases h

/-- A lowering of the same nodes in another order counts the same. -/
theorem Done.stats_eq {s t : Progress} (h : Done w p L s) (h' : Done w (p.withTopLevel topLevel) L' t) (hperm : L' ~ L) :
    t.stats = s.stats := by
  refine LoweringStats.ext_tally fun c => ?_
  rw [h.tally, h'.tally]
  exact hperm.countP_eq _

/-! ## Two orders -/

/-- From the numbers of one order to those of another. -/
def renumbering (w : Lowering) (p : Program) (L L' : List NodeId) : Renaming where
  decl d := ⟨renumber p.decls.size (w.newDecls p L) (w.newDecls p L') d.index⟩
  expr e := ⟨renumber p.exprs.size (w.newExprs p L) (w.newExprs p L') e.index⟩

theorem renumbering_numbering {k : NodeId} (hk : Placed w p L k) :
    (renumbering w p L L').node ((w.numbering p L).node k) = (w.numbering p L').node k := by
  cases k with
  | decl d => exact congrArg (fun i => NodeId.decl ⟨i⟩) (renumber_number hk)
  | expr e => exact congrArg (fun i => NodeId.expr ⟨i⟩) (renumber_number hk)

section Perm

variable (hperm : L' ~ L)
include hperm

theorem newDecls_perm : w.newDecls p L' ~ w.newDecls p L := hperm.flatMap_right _

theorem newExprs_perm : w.newExprs p L' ~ w.newExprs p L := hperm.flatMap_right _

theorem placed_perm {k : NodeId} : Placed w p L' k ↔ Placed w p L k := by
  cases k with
  | decl d => exact or_congr_right (newDecls_perm hperm).mem_iff
  | expr e => exact or_congr_right (newExprs_perm hperm).mem_iff

theorem DeclStands.perm {d : DeclId} {D : Decl} (h : DeclStands w p L d D) : DeclStands w p L' d D := by
  cases h with
  | kept hD hnot => exact .kept hD fun a ha => hnot a (hperm.mem_iff.1 ha)
  | changed ha hD => exact .changed (hperm.mem_iff.2 ha) hD

theorem DeclAdded.perm {d : DeclId} {D : Decl} (h : DeclAdded w p L d D) : DeclAdded w p L' d D := by
  obtain ⟨a, ha, hD⟩ := h
  exact ⟨a, hperm.mem_iff.2 ha, hD⟩

theorem ExprStands.perm {e : ExprId} {E : Expr} (h : ExprStands w p L e E) : ExprStands w p L' e E := by
  cases h with
  | kept hE hnot => exact .kept hE fun a ha => hnot a (hperm.mem_iff.1 ha)
  | installed ha hE => exact .installed (hperm.mem_iff.2 ha) hE

theorem renumbering_renumbering (hL : L.Nodup) (k : NodeId) :
    (renumbering w p L' L).node ((renumbering w p L L').node k) = k := by
  cases k with
  | decl d =>
    exact congrArg (fun i => NodeId.decl ⟨i⟩)
      (renumber_renumber (newDecls_perm hperm) (nodup_newDecls hL) (fun i => le_of_mem_newDecls) d.index)
  | expr e =>
    exact congrArg (fun i => NodeId.expr ⟨i⟩)
      (renumber_renumber (newExprs_perm hperm) (nodup_newExprs hL) (fun i => le_of_mem_newExprs) e.index)

end Perm

theorem leads_renumbering (hperm : L' ~ L) : Leads w p L w L' (renumbering w p L L') where
  node_eq _ := renumbering_numbering
  stands hD := hD.perm hperm
  added hD := hD.perm hperm

/-- **Installing the same patches in two orders** makes the same program, up to handles. -/
theorem Numbered.renumbered (h : Numbered w p L L q) (h' : Numbered w p L' L' q') (hp : p.Closed) (hq : q.Closed)
    (hL : L.Nodup) (hperm : L' ~ L) (hname : q'.name = q.name) (htop : q'.topLevel ~ q.topLevel) :
    Renumbered p (renumbering w p L L') q q' := by
  have hL' : L'.Nodup := hperm.nodup_iff.2 hL
  -- `σ` has an inverse, which is the renumbering the other way round
  obtain ⟨σ, hσ⟩ : ∃ σ, σ = renumbering w p L L' := ⟨_, rfl⟩
  have hleads : Leads w p L w L' σ := hσ ▸ leads_renumbering hperm
  have hback (k : NodeId) : (renumbering w p L' L).node (σ.node k) = k := hσ ▸ renumbering_renumbering hperm hL k
  have hforth (k : NodeId) : σ.node ((renumbering w p L' L).node k) = k :=
    hσ ▸ renumbering_renumbering hperm.symm hL' k
  rw [← hσ]
  refine ⟨?_, ?_, fun k => hleads.fixed, hname, htop, fun k => ?_, fun d D hd hD => ?_,
    fun d D => hleads.temporary h h' hp hq hL, fun e E hE => ?_⟩
  · refine Function.bijective_iff_has_inverse.2 ⟨(renumbering w p L' L).decl, fun d => ?_, fun d => ?_⟩
    · exact NodeId.decl.inj (hback (.decl d))
    · exact NodeId.decl.inj (hforth (.decl d))
  · refine Function.bijective_iff_has_inverse.2 ⟨(renumbering w p L' L).expr, fun e => ?_, fun e => ?_⟩
    · exact NodeId.expr.inj (hback (.expr e))
    · exact NodeId.expr.inj (hforth (.expr e))
  · constructor
    · intro hk
      obtain ⟨hplaced, hnumber⟩ := h'.numbering_slotOf hL' hk
      have hplaced := (placed_perm hperm).1 hplaced
      rw [← hleads.node_eq _ hplaced] at hnumber
      rw [← hback k, ← hnumber, hback]
      exact h.has_iff.2 hplaced
    · intro hk
      obtain ⟨hplaced, hnumber⟩ := h.numbering_slotOf hL hk
      rw [← hnumber, hleads.node_eq _ hplaced]
      exact h'.has_iff.2 ((placed_perm hperm).2 hplaced)
  · exact hleads.decl? h h' hp hq hL hd hD
  · obtain ⟨e₀, E₀, rfl, hE₀, rfl⟩ := h.exists_expr hp hL hE
    exact hleads.expr? h h' hp hq hE (hE₀.perm hperm)

/-- What is violated is not a matter of the order either. -/
theorem exists_ok_withTopLevel (hp : p.Closed) (hf : p.IsForest) (h : topLevel ~ p.topLevel) :
    (∃ stats, (w.lower (p.withTopLevel topLevel)).1 = .ok stats) ↔ ∃ stats, (w.lower p).1 = .ok stats := by
  rw [exists_ok_iff hp hf, exists_ok_iff (hp.withTopLevel h) (hf.withTopLevel h)]
  have hviolations (n : NodeId) : w.violations (p.withTopLevel topLevel) n = w.violations p n := by
    cases n <;> rfl
  simp only [hviolations, (nodes_withTopLevel h).mem_iff]

/-- Two orders that are both lowered to the end lead to the same. -/
theorem renumbered_of_lower (hp : p.Closed) (hf : p.IsForest) (h : topLevel ~ p.topLevel) {s t : LoweringStats}
    (hs : (w.lower p).1 = .ok s) (ht : (w.lower (p.withTopLevel topLevel)).1 = .ok t) :
    t = s ∧ ∃ σ, Renumbered p σ (w.lower p).2 (w.lower (p.withTopLevel topLevel)).2 := by
  have hp' := hp.withTopLevel h
  have hf' := hf.withTopLevel h
  have hnodes := nodes_withTopLevel h
  have hdone := done_of_lower hp hf (Prod.ext hs rfl : w.lower p = (.ok s, (w.lower p).2))
  have hdone' := done_of_lower hp' hf'
    (Prod.ext ht rfl : w.lower (p.withTopLevel topLevel) = (.ok t, (w.lower (p.withTopLevel topLevel)).2))
  have hnumbered := numbered_of_lower hp hf (Prod.ext hs rfl : w.lower p = (.ok s, (w.lower p).2))
  obtain ⟨h₁, h₂, h₃, h₄, h₅⟩ := numbered_of_lower hp' hf'
    (Prod.ext ht rfl : w.lower (p.withTopLevel topLevel) = (.ok t, (w.lower (p.withTopLevel topLevel)).2))
  -- nothing that a patch is made of depends on which declarations are outermost
  have hnumbered' : Numbered w p (p.withTopLevel topLevel).nodes (p.withTopLevel topLevel).nodes
      (w.lower (p.withTopLevel topLevel)).2 := ⟨h₁, h₂, h₃, h₄, h₅⟩
  refine ⟨hdone.stats_eq hdone' hnodes, _, hnumbered.renumbered hnumbered' hp (hdone.preserves.closed hp)
    (nodup_nodes hf) hnodes ?_ ?_⟩
  · exact hdone'.preserves.name_eq.trans hdone.preserves.name_eq.symm
  · rw [show (w.lower (p.withTopLevel topLevel)).2.topLevel = topLevel from hdone'.preserves.topLevel_eq,
      show (w.lower p).2.topLevel = p.topLevel from hdone.preserves.topLevel_eq]
    exact h

/-- **Lowering does not depend on the order of declarations.**  If the outermost declarations of a closed program that
is a forest are permuted, it is lowered to the end just when it was before, with the same statistics.  The two lowered
programs are then the same, up to the order of their outermost declarations, the handles of the nodes added, and the
names of the temporaries among them. -/
theorem lower_permuted (hp : p.Closed) (hf : p.findShared = .ok none) (h : topLevel ~ p.topLevel) :
    (∀ stats, (w.lower (p.withTopLevel topLevel)).1 = .ok stats ↔ (w.lower p).1 = .ok stats) ∧
      ∀ stats, (w.lower p).1 = .ok stats →
        (w.lower p).2.topLevel = p.topLevel ∧ (w.lower (p.withTopLevel topLevel)).2.topLevel = topLevel ∧
          ∃ σ, Renumbered p σ (w.lower p).2 (w.lower (p.withTopLevel topLevel)).2 := by
  have hforest := findShared_eq_none_iff.1 hf
  have hok := exists_ok_withTopLevel (w := w) hp hforest h
  refine ⟨fun stats => ⟨fun ht => ?_, fun hs => ?_⟩, fun stats hs => ?_⟩
  · obtain ⟨s, hs⟩ := hok.1 ⟨stats, ht⟩
    rw [hs, (renumbered_of_lower hp hforest h hs ht).1]
  · obtain ⟨t, ht⟩ := hok.2 ⟨stats, hs⟩
    rw [ht, (renumbered_of_lower hp hforest h hs ht).1]
  · obtain ⟨t, ht⟩ := hok.2 ⟨stats, hs⟩
    refine ⟨(lower_preserves hp).topLevel_eq, (lower_preserves (hp.withTopLevel h)).topLevel_eq, ?_⟩
    exact (renumbered_of_lower hp hforest h hs ht).2

/-- The sample program can be read backwards: then a query and the reads of a variable come before the class. -/
theorem lower_permuted_sample :
    sample.Closed ∧ sample.findShared = .ok none ∧ [⟨6⟩, ⟨5⟩, ⟨0⟩] ~ sample.topLevel ∧
      (Sample.lowering.lower sample).1 = .ok { vars := 1, reads := 2, queries := 1, properties := 1 } ∧
      (Sample.lowering.lower (sample.withTopLevel [⟨6⟩, ⟨5⟩, ⟨0⟩])).1 =
        .ok { vars := 1, reads := 2, queries := 1, properties := 1 } ∧
      ∃ σ, Renumbered sample σ (Sample.lowering.lower sample).2
        (Sample.lowering.lower (sample.withTopLevel [⟨6⟩, ⟨5⟩, ⟨0⟩])).2 := by
  have hp : sample.Closed := by decide
  have hf : sample.findShared = .ok none := by decide +kernel
  have hperm : [⟨6⟩, ⟨5⟩, ⟨0⟩] ~ sample.topLevel := by decide
  have hstats : (Sample.lowering.lower sample).1 = .ok { vars := 1, reads := 2, queries := 1, properties := 1 } := by
    decide +kernel
  have h := lower_permuted (w := Sample.lowering) hp hf hperm
  exact ⟨hp, hf, hperm, hstats, (h.1 _).2 hstats, (h.2 _ hstats).2.2⟩

end Lowering

end DeferredInit
