import DeferredInit.Proofs.Lowering.Sites
import Mathlib.Data.Nat.Pairing

/-!
# Programs numbered by their lowering

The nodes that a lowering adds get handles in the order in which nodes are lowered.  To compare lowerings that go in
different orders, every node added is first given a handle that depends on nothing but its place: the node for
which it is built, and how far into the building (`heldSlot`, `exprSlot`).  These slots lie behind the handles of the
original program, with gaps between them.

A lowering that succeeds leaves the patches of all nodes, so placed, behind; only the slots are numbered in the order
in which the nodes were lowered (`numbering`, `numbered_of_lower`).
-/

namespace DeferredInit

open Program

/-- A number for each node. -/
def NodeId.code : NodeId → Nat
  | .decl d => 2 * d.index
  | .expr e => 2 * e.index + 1

theorem NodeId.code_inj {n m : NodeId} (h : n.code = m.code) : n = m := by
  cases n <;> cases m <;> simp only [code] at h <;> grind [DeclId, ExprId]

namespace Lowering

variable (w : Lowering) (p : Program)

/-! ## Slots -/

/-- The slot of the variable that is added for a node. -/
def heldSlot (n : NodeId) : DeclId := ⟨p.decls.size + n.code⟩

/-- The slot of an expression that is added for a node. -/
def exprSlot (n : NodeId) (k : Nat) : ExprId := ⟨p.exprs.size + Nat.pair n.code k⟩

/-- The patch of a node, placed in its slots. -/
def patch (n : NodeId) : Patch := w.patchAt p (heldSlot p n) (exprSlot p n) n

/-- The slots of the declarations that are added for some nodes. -/
def newDecls (L : List NodeId) : List Nat := L.flatMap fun n => ((w.patch p n).newDecls.map Prod.fst).map DeclId.index

/-- The slots of the expressions that are added for some nodes. -/
def newExprs (L : List NodeId) : List Nat := L.flatMap fun n => ((w.patch p n).newExprs.map Prod.fst).map ExprId.index

/-- **The numbers of the slots**, where nodes are lowered in an order. -/
def numbering (L : List NodeId) : Renaming where
  decl d := ⟨number p.decls.size (w.newDecls p L) d.index⟩
  expr e := ⟨number p.exprs.size (w.newExprs p L) e.index⟩

section

variable {w p} {q : Program} {n k : NodeId} {i : Nat} {L A R : List NodeId}

theorem numbering_of_has (h : p.Has n) : (w.numbering p L).node n = n := by
  cases n with
  | decl d => exact congrArg (fun i => NodeId.decl ⟨i⟩) (number_of_lt h)
  | expr e => exact congrArg (fun i => NodeId.expr ⟨i⟩) (number_of_lt h)

theorem map_newDecls_patch (n : NodeId) : ((w.patch p n).newDecls.map Prod.fst).map DeclId.index = [] ∨
    ((w.patch p n).newDecls.map Prod.fst).map DeclId.index = [p.decls.size + n.code] := by
  rw [patch]
  refine (w.newDecls_patchAt p n).imp (fun h => ?_) fun h => ?_ <;> rw [h] <;> rfl

theorem map_newExprs_patch (n : NodeId) : ∃ ks : List Nat, ks.Nodup ∧
    ((w.patch p n).newExprs.map Prod.fst).map ExprId.index = ks.map fun k => p.exprs.size + Nat.pair n.code k := by
  obtain ⟨ks, hks, h⟩ := w.newExprs_patchAt p n
  refine ⟨ks, hks, ?_⟩
  rw [patch, h, List.map_map]
  rfl

theorem mem_newDecls (h : i ∈ w.newDecls p L) : ∃ n ∈ L, i = p.decls.size + n.code := by
  obtain ⟨n, hn, h⟩ := List.mem_flatMap.1 h
  rcases map_newDecls_patch (w := w) (p := p) n with heq | heq <;> rw [heq] at h
  · cases h
  · exact ⟨n, hn, List.mem_singleton.1 h⟩

theorem mem_newExprs (h : i ∈ w.newExprs p L) : ∃ n ∈ L, ∃ k, i = p.exprs.size + Nat.pair n.code k := by
  obtain ⟨n, hn, h⟩ := List.mem_flatMap.1 h
  obtain ⟨ks, -, heq⟩ := map_newExprs_patch (w := w) (p := p) n
  rw [heq] at h
  obtain ⟨k, -, rfl⟩ := List.mem_map.1 h
  exact ⟨n, hn, k, rfl⟩

theorem le_of_mem_newDecls (h : i ∈ w.newDecls p L) : p.decls.size ≤ i := by
  obtain ⟨n, -, rfl⟩ := mem_newDecls h
  exact Nat.le_add_right _ _

theorem le_of_mem_newExprs (h : i ∈ w.newExprs p L) : p.exprs.size ≤ i := by
  obtain ⟨n, -, k, rfl⟩ := mem_newExprs h
  exact Nat.le_add_right _ _

theorem index_mem_newDecls (hn : n ∈ L) {x : DeclId × Decl} (hx : x ∈ (w.patch p n).newDecls) :
    x.1.index ∈ w.newDecls p L :=
  List.mem_flatMap.2 ⟨n, hn, List.mem_map_of_mem (List.mem_map_of_mem hx)⟩

theorem index_mem_newExprs (hn : n ∈ L) {x : ExprId × Expr} (hx : x ∈ (w.patch p n).newExprs) :
    x.1.index ∈ w.newExprs p L :=
  List.mem_flatMap.2 ⟨n, hn, List.mem_map_of_mem (List.mem_map_of_mem hx)⟩

/-- No slot is used twice. -/
theorem nodup_newDecls (hL : L.Nodup) : (w.newDecls p L).Nodup := by
  refine List.nodup_flatMap.2 ⟨fun n _ => ?_, hL.imp fun {n m} hne i hn hm => hne ?_⟩
  · rcases map_newDecls_patch (w := w) (p := p) n with heq | heq <;> rw [heq] <;> simp
  · obtain ⟨n', hn', rfl⟩ := mem_newDecls (L := [n]) (by simpa [newDecls] using hn)
    obtain ⟨m', hm', h⟩ := mem_newDecls (L := [m]) (by simpa [newDecls] using hm)
    rw [List.mem_singleton.1 hn', List.mem_singleton.1 hm'] at h
    exact NodeId.code_inj (Nat.add_left_cancel h)

theorem nodup_newExprs (hL : L.Nodup) : (w.newExprs p L).Nodup := by
  refine List.nodup_flatMap.2 ⟨fun n _ => ?_, hL.imp fun {n m} hne i hn hm => hne ?_⟩
  · obtain ⟨ks, hks, heq⟩ := map_newExprs_patch (w := w) (p := p) n
    rw [heq]
    exact hks.map fun k k' h => (Nat.pair_eq_pair.1 (Nat.add_left_cancel h)).2
  · obtain ⟨n', hn', k, rfl⟩ := mem_newExprs (L := [n]) (by simpa [newExprs] using hn)
    obtain ⟨m', hm', k', h⟩ := mem_newExprs (L := [m]) (by simpa [newExprs] using hm)
    rw [List.mem_singleton.1 hn', List.mem_singleton.1 hm'] at h
    exact NodeId.code_inj (Nat.pair_eq_pair.1 (Nat.add_left_cancel h)).1

/-- Numbers in the middle of a list of slots are consecutive. -/
theorem consecutive_number {size : Nat} {A B C : List Nat} {α : Type} (handle : Nat → α) (hd : (A ++ (B ++ C)).Nodup)
    (hnew : ∀ i ∈ A ++ (B ++ C), size ≤ i) :
    Consecutive handle (size + A.length) (B.map fun i => handle (number size (A ++ (B ++ C)) i)) := by
  refine consecutive_iff.2 fun j hj => ?_
  rw [List.length_map] at hj
  have hlt : A.length + j < (A ++ (B ++ C)).length := by simp; omega
  have hget : (A ++ (B ++ C))[A.length + j] = B[j] := by simp [hj]
  rw [List.getElem_map, ← hget, number_getElem hd hnew, Nat.add_assoc]

theorem overwritten_touches {held : DeclId} {place : Nat → ExprId}
    (h : k ∈ (w.patchAt p held place n).overwritten) : Touches w p n k := by
  cases hS : w.site? p n with
  | none =>
    rw [patchAt_idle hS] at h
    cases h
  | some S =>
    have hfinds := finds_of_site? hS
    rw [hfinds.patchAt_eq] at h
    exact hfinds.touches h

/-- Only nodes that exist are overwritten. -/
theorem has_of_overwritten {held : DeclId} {place : Nat → ExprId}
    (h : k ∈ (w.patchAt p held place n).overwritten) : p.Has k := by
  cases hS : w.site? p n with
  | none =>
    rw [patchAt_idle hS] at h
    cases h
  | some S =>
    have hfinds := finds_of_site? hS
    rw [hfinds.patchAt_eq] at h
    cases hfinds with
    | var _ hd =>
      obtain rfl : k = _ := by simpa [Site.patch, varPatch, Patch.overwritten] using h
      exact has_of_decl? hd
    | read _ he =>
      obtain rfl : k = _ := by simpa [Site.patch, readPatch, Patch.overwritten] using h
      exact has_of_expr? he
    | query _ he _ hN =>
      obtain rfl | rfl : k = _ ∨ k = _ := by simpa [Site.patch, queryPatch, Patch.overwritten] using h
      · exact has_of_expr? hN
      · exact has_of_expr? he
    | property _ _ _ _ _ hF _ hG =>
      obtain rfl | rfl : k = _ ∨ k = _ := by simpa [Site.patch, propertyPatch, Patch.overwritten] using h
      · exact has_of_decl? hG
      · exact has_of_decl? hF

theorem rename_patchAt {held : DeclId} {place : Nat → ExprId} {ρ : Renaming} (hp : p.Closed)
    (hρ : ∀ k, p.Has k → ρ.node k = k) :
    (w.patchAt p held place n).rename ρ = w.patchAt p (ρ.decl held) (fun k => ρ.expr (place k)) n := by
  cases hS : w.site? p n with
  | none =>
    rw [patchAt_idle hS, patchAt_idle hS]
    rfl
  | some S =>
    have hfinds := finds_of_site? hS
    rw [hfinds.patchAt_eq, hfinds.patchAt_eq, hfinds.rename_patch hp hρ]

/-! ## Numbered programs -/

variable (w p) in
/-- The patch of a node, with the slots numbered. -/
def numberedPatch (L : List NodeId) (n : NodeId) : Patch := (w.patch p n).rename (w.numbering p L)

variable (w p) in
/-- **The patches of the nodes `A` are installed**, numbered in the order of `L`. -/
structure Numbered (L A : List NodeId) (q : Program) : Prop where
  size_decls : q.decls.size = p.decls.size + (w.newDecls p A).length
  size_exprs : q.exprs.size = p.exprs.size + (w.newExprs p A).length
  decl? : ∀ a ∈ A, ∀ x ∈ (w.numberedPatch p L a).newDecls ++ (w.numberedPatch p L a).decls, q.decl? x.1 = some x.2
  expr? : ∀ a ∈ A, ∀ x ∈ (w.numberedPatch p L a).newExprs ++ (w.numberedPatch p L a).exprs, q.expr? x.1 = some x.2
  sameAt : ∀ {n}, p.Has n → (∀ a ∈ A, n ∉ (w.numberedPatch p L a).overwritten) → p.SameAt q n

theorem numberedPatch_eq (hp : p.Closed) : w.numberedPatch p L n =
    w.patchAt p ((w.numbering p L).decl (heldSlot p n)) (fun k => (w.numbering p L).expr (exprSlot p n k)) n :=
  rename_patchAt hp fun _ => numbering_of_has

/-- What a patch has a content for is overwritten, or new. -/
theorem overwritten_or_new_decl {x : DeclId × Decl}
    (hx : x ∈ (w.numberedPatch p L n).newDecls ++ (w.numberedPatch p L n).decls) :
    .decl x.1 ∈ (w.numberedPatch p L n).overwritten ∨ ¬p.Has (.decl x.1) := by
  rcases List.mem_append.1 hx with hx | hx
  · obtain ⟨y, hy, rfl⟩ := List.mem_map.1 hx
    exact .inr (Nat.not_lt.2 (le_number (le_of_mem_newDecls (index_mem_newDecls (List.mem_singleton_self n) hy))))
  · exact .inl (List.mem_append_left _ (List.mem_map_of_mem (f := fun x => NodeId.decl x.1) hx))

theorem overwritten_or_new_expr {x : ExprId × Expr}
    (hx : x ∈ (w.numberedPatch p L n).newExprs ++ (w.numberedPatch p L n).exprs) :
    .expr x.1 ∈ (w.numberedPatch p L n).overwritten ∨ ¬p.Has (.expr x.1) := by
  rcases List.mem_append.1 hx with hx | hx
  · obtain ⟨y, hy, rfl⟩ := List.mem_map.1 hx
    exact .inr (Nat.not_lt.2 (le_number (le_of_mem_newExprs (index_mem_newExprs (List.mem_singleton_self n) hy))))
  · exact .inl (List.mem_append_right _ (List.mem_map_of_mem (f := fun x => NodeId.expr x.1) hx))

/-- A rule that succeeds installs the patch that its node has in the original program. -/
theorem Done.patched {s t : Progress} {held : DeclId} {place : Nat → ExprId} (h : Done w p A s) (hp : p.Closed)
    (hL : Enclosed p R L) (hAL : A ⊆ L) (hA : ∀ a ∈ A, p.kids a ⊆ A) (hn : n ∈ L) (hnA : n ∉ A)
    (hrule : w.rule n s = .ok () t)
    (hds : Consecutive DeclId.mk s.program.decls.size ((w.patchAt p held place n).newDecls.map Prod.fst))
    (hes : Consecutive ExprId.mk s.program.exprs.size ((w.patchAt p held place n).newExprs.map Prod.fst)) :
    Patched s.program t.program (w.patchAt p held place n) := by
  have hhas := hL.has n hn
  have hclosed := h.preserves.closed hp
  have hsame := h.sameAt hA hhas hnA
  have hpatch : w.patchAt s.program held place n = w.patchAt p held place n := by
    have outcome := rule_outcome (w := w) hclosed (h.preserves.has hhas)
    rw [hrule] at outcome
    cases outcome with
    | idle hnone =>
      have hnone' : w.construct? p n = none := construct?_congr (w := w) hp h.alike hhas hsame ▸ hnone
      rw [patchAt_idle (site?_eq_none hnone), patchAt_idle (site?_eq_none hnone')]
    | change hchange =>
      obtain ⟨S, hS⟩ := hchange.finds hclosed
      rw [hS.patchAt_eq, (hS.back hp h.alike hhas hsame fun k hk => h.met hL hAL hn hnA hk).patchAt_eq]
  rw [← hpatch] at hds hes ⊢
  exact rule_patched hclosed (h.preserves.has hhas) hrule hds hes

/-- The declarations of the next patch are numbered one after the other. -/
theorem Numbered.consecutive_newDecls {C : List NodeId} (h : Numbered w p (A ++ (n :: C)) A q)
    (hd : (A ++ (n :: C)).Nodup) :
    Consecutive DeclId.mk q.decls.size ((w.numberedPatch p (A ++ (n :: C)) n).newDecls.map Prod.fst) := by
  have hsplit : w.newDecls p (A ++ (n :: C)) =
      w.newDecls p A ++ (((w.patch p n).newDecls.map Prod.fst).map DeclId.index ++ w.newDecls p C) := by
    simp [newDecls]
  have hrow := consecutive_number DeclId.mk (hsplit ▸ nodup_newDecls (w := w) (p := p) hd)
    (fun i hi => le_of_mem_newDecls (hsplit ▸ hi))
  rw [← hsplit, ← h.size_decls] at hrow
  simpa [numberedPatch, Patch.rename, numbering, Function.comp_def] using hrow

/-- The expressions of the next patch are numbered one after the other. -/
theorem Numbered.consecutive_newExprs {C : List NodeId} (h : Numbered w p (A ++ (n :: C)) A q)
    (hd : (A ++ (n :: C)).Nodup) :
    Consecutive ExprId.mk q.exprs.size ((w.numberedPatch p (A ++ (n :: C)) n).newExprs.map Prod.fst) := by
  have hsplit : w.newExprs p (A ++ (n :: C)) =
      w.newExprs p A ++ (((w.patch p n).newExprs.map Prod.fst).map ExprId.index ++ w.newExprs p C) := by
    simp [newExprs]
  have hrow := consecutive_number ExprId.mk (hsplit ▸ nodup_newExprs (w := w) (p := p) hd)
    (fun i hi => le_of_mem_newExprs (hsplit ▸ hi))
  rw [← hsplit, ← h.size_exprs] at hrow
  simpa [numberedPatch, Patch.rename, numbering, Function.comp_def] using hrow

/-- What one patch adds or overwrites, no other one overwrites. -/
theorem not_mem_overwritten (hp : p.Closed) (hL : Enclosed p R L) {a : NodeId} (ha : a ∈ L) (hn : n ∈ L) (hne : a ≠ n)
    (hk : k ∈ (w.numberedPatch p L a).overwritten ∨ ¬p.Has k) : k ∉ (w.numberedPatch p L n).overwritten := by
  intro hmem
  rw [numberedPatch_eq hp] at hk hmem
  have htouch := overwritten_touches hmem
  rcases hk with hk | hk
  · exact hne (Touches.unique hL ha hn (overwritten_touches hk) htouch)
  · exact hk (htouch.has hL hn)

/-- **One more patch is installed.** -/
theorem Numbered.step {s t : Progress} {C : List NodeId} (h : Numbered w p (A ++ (n :: C)) A s.program)
    (hdone : Done w p A s) (hp : p.Closed) (hN : Postorder p R (A ++ (n :: C))) (hd : (A ++ (n :: C)).Nodup)
    (hrule : w.rule n s = .ok () t) : Numbered w p (A ++ (n :: C)) (A ++ [n]) t.program := by
  have hL := hN.enclosed hd
  have hAL : A ⊆ A ++ (n :: C) := List.subset_append_left A _
  have hn : n ∈ A ++ (n :: C) := by simp
  have hnA : n ∉ A := fun hmem => (List.nodup_append.1 hd).2.2 n hmem n List.mem_cons_self rfl
  have hpatched : Patched s.program t.program (w.numberedPatch p (A ++ (n :: C)) n) := by
    have hds := h.consecutive_newDecls hd
    have hes := h.consecutive_newExprs hd
    rw [numberedPatch_eq hp] at hds hes ⊢
    exact hdone.patched hp hL hAL (hN.kids_subset_left hd) hn hnA hrule hds hes
  have hother {a k : NodeId} (ha : a ∈ A) (hk : k ∈ (w.numberedPatch p (A ++ (n :: C)) a).overwritten ∨ ¬p.Has k) :
      k ∉ (w.numberedPatch p (A ++ (n :: C)) n).overwritten :=
    not_mem_overwritten hp hL (hAL ha) hn (fun heq => hnA (heq ▸ ha)) hk
  -- the patches of `A` are still there, and what none of them overwrites is as it was
  refine ⟨?_, ?_, fun a ha x hx => ?_, fun a ha x hx => ?_, fun {m} hm hnot => ?_⟩
  · rw [hpatched.size_decls, h.size_decls]
    simp [newDecls, numberedPatch, Patch.rename, Nat.add_assoc]
  · rw [hpatched.size_exprs, h.size_exprs]
    simp [newExprs, numberedPatch, Patch.rename, Nat.add_assoc]
  · rcases List.mem_append.1 ha with ha | ha
    · have hold := h.decl? a ha x hx
      exact Eq.trans (hpatched.sameAt (n := .decl x.1) (has_of_decl? hold) (hother ha (overwritten_or_new_decl hx))) hold
    · rw [List.mem_singleton.1 ha] at hx
      exact hpatched.decl? x hx
  · rcases List.mem_append.1 ha with ha | ha
    · have hold := h.expr? a ha x hx
      exact Eq.trans (hpatched.sameAt (n := .expr x.1) (has_of_expr? hold) (hother ha (overwritten_or_new_expr hx))) hold
    · rw [List.mem_singleton.1 ha] at hx
      exact hpatched.expr? x hx
  · have hbefore := h.sameAt hm fun a ha => hnot a (List.mem_append_left _ ha)
    exact hbefore.trans (hpatched.sameAt (hdone.preserves.has hm) (hnot n (List.mem_append_right _ List.mem_cons_self)))

theorem Numbered.run {s t : Progress} (h : Numbered w p (A ++ L) A s.program) (hdone : Done w p A s) (hp : p.Closed)
    (hN : Postorder p R (A ++ L)) (hd : (A ++ L).Nodup) (hrun : L.forM w.rule s = .ok () t) :
    Numbered w p (A ++ L) (A ++ L) t.program := by
  -- the nodes `A` are done; the numbers are those of the whole list all the time
  induction L generalizing A s with
  | nil =>
    cases hrun
    simpa using h
  | cons n L ih =>
    have hnA : n ∉ A := fun hmem => (List.nodup_append.1 hd).2.2 n hmem n List.mem_cons_self rfl
    rw [forM_cons] at hrun
    cases hn : w.rule n s with
    | error stop u =>
      rw [LowerM.bind_error hn] at hrun
      cases hrun
    | ok _ u =>
      rw [LowerM.bind_ok hn] at hrun
      have hu := h.step hdone hp hN hd hn
      have hdone' := hdone.step hp (hN.enclosed hd) (List.subset_append_left A _) (hN.kids_subset_left hd) (by simp) hnA hn
      rw [List.append_cons] at hN hd hu ⊢
      exact ih hu hdone' hN hd hrun

theorem Numbered.nil (w : Lowering) (p : Program) (L : List NodeId) : Numbered w p L [] p where
  size_decls := rfl
  size_exprs := rfl
  decl? _ ha := absurd ha List.not_mem_nil
  expr? _ ha := absurd ha List.not_mem_nil
  sameAt _ _ := .refl p _

/-- **A lowering that succeeds leaves the patches of all nodes behind**, numbered in the order of lowering. -/
theorem numbered_of_lower (hp : p.Closed) (hf : p.IsForest) {stats : LoweringStats} (h : w.lower p = (.ok stats, q)) :
    Numbered w p p.nodes p.nodes q := by
  obtain ⟨hL, hd⟩ := postorder_nodes hf
  rw [lower] at h
  cases hall : w.lowerAll { program := p } with
  | error stop s =>
    rw [hall] at h
    cases (Prod.mk.inj h).1
  | ok _ s =>
    rw [hall] at h
    cases h
    rw [lowerAll_eq hp hf] at hall
    exact (Numbered.nil w p p.nodes).run (A := []) (Done.nil w p) hp hL hd hall

/-! ## What stands where -/

variable (w p L)

/-- A handle of the original program, or a slot. -/
def Placed : NodeId → Prop
  | .decl d => d.index < p.decls.size ∨ d.index ∈ w.newDecls p L
  | .expr e => e.index < p.exprs.size ∨ e.index ∈ w.newExprs p L

/-- What a declaration of the original program has become, before slots are numbered. -/
inductive DeclStands (d : DeclId) (D : Decl) : Prop
  | kept : p.decl? d = some D → (∀ a ∈ L, .decl d ∉ (w.patch p a).overwritten) → DeclStands d D
  | changed {a : NodeId} : a ∈ L → (d, D) ∈ (w.patch p a).decls → DeclStands d D

/-- A declaration that has been added, before slots are numbered. -/
def DeclAdded (d : DeclId) (D : Decl) : Prop := ∃ a ∈ L, (d, D) ∈ (w.patch p a).newDecls

/-- What stands as an expression, before slots are numbered. -/
inductive ExprStands (e : ExprId) (E : Expr) : Prop
  | kept : p.expr? e = some E → (∀ a ∈ L, .expr e ∉ (w.patch p a).overwritten) → ExprStands e E
  | installed {a : NodeId} : a ∈ L → (e, E) ∈ (w.patch p a).newExprs ++ (w.patch p a).exprs → ExprStands e E

variable {w p L}

/-- What a patch overwrites does not depend on where it adds. -/
theorem overwritten_numberedPatch (hp : p.Closed) :
    (w.numberedPatch p L n).overwritten = (w.patch p n).overwritten := by
  rw [numberedPatch_eq hp, patch]
  cases hS : w.site? p n with
  | none => rw [patchAt_idle hS, patchAt_idle hS]
  | some S =>
    simp only [(finds_of_site? hS).patchAt_eq]
    cases S <;> rfl

theorem DeclStands.has {d : DeclId} {D : Decl} (h : DeclStands w p L d D) : p.Has (.decl d) := by
  cases h with
  | kept hD _ => exact has_of_decl? hD
  | changed _ hD =>
    exact has_of_overwritten (List.mem_append_left _ (List.mem_map_of_mem (f := fun x => NodeId.decl x.1) hD))

theorem DeclAdded.placed {d : DeclId} {D : Decl} (h : DeclAdded w p L d D) : d.index ∈ w.newDecls p L := by
  obtain ⟨a, ha, hD⟩ := h
  exact index_mem_newDecls ha hD

/-- Something stands at each handle and each slot. -/
theorem exists_decl_of_placed {d : DeclId} (h : Placed w p L (.decl d)) :
    ∃ D, DeclStands w p L d D ∨ DeclAdded w p L d D := by
  rcases h with h | h
  · by_cases hover : ∃ a ∈ L, .decl d ∈ (w.patch p a).overwritten
    · obtain ⟨a, ha, hmem⟩ := hover
      obtain ⟨D, hD⟩ : ∃ D, (d, D) ∈ (w.patch p a).decls := by simpa [Patch.overwritten] using hmem
      exact ⟨D, .inl (.changed ha hD)⟩
    · obtain ⟨D, hD⟩ := has_decl_iff.1 (show p.Has (.decl d) from h)
      exact ⟨D, .inl (.kept hD fun a ha hmem => hover ⟨a, ha, hmem⟩)⟩
  · obtain ⟨a, ha, hmem⟩ := List.mem_flatMap.1 h
    obtain ⟨D, hD⟩ : ∃ D, (d, D) ∈ (w.patch p a).newDecls := by
      simp only [List.mem_map, Prod.exists, exists_and_right, exists_eq_right] at hmem
      obtain ⟨d', ⟨D, hD⟩, heq⟩ := hmem
      exact ⟨D, (show d' = d by cases d'; cases d; simpa using heq) ▸ hD⟩
    exact ⟨D, .inr ⟨a, ha, hD⟩⟩

theorem exists_expr_of_placed {e : ExprId} (h : Placed w p L (.expr e)) : ∃ E, ExprStands w p L e E := by
  rcases h with h | h
  · by_cases hover : ∃ a ∈ L, .expr e ∈ (w.patch p a).overwritten
    · obtain ⟨a, ha, hmem⟩ := hover
      obtain ⟨E, hE⟩ : ∃ E, (e, E) ∈ (w.patch p a).exprs := by simpa [Patch.overwritten] using hmem
      exact ⟨E, .installed ha (List.mem_append_right _ hE)⟩
    · obtain ⟨E, hE⟩ := has_expr_iff.1 (show p.Has (.expr e) from h)
      exact ⟨E, .kept hE fun a ha hmem => hover ⟨a, ha, hmem⟩⟩
  · obtain ⟨a, ha, hmem⟩ := List.mem_flatMap.1 h
    obtain ⟨E, hE⟩ : ∃ E, (e, E) ∈ (w.patch p a).newExprs := by
      simp only [List.mem_map, Prod.exists, exists_and_right, exists_eq_right] at hmem
      obtain ⟨e', ⟨E, hE⟩, heq⟩ := hmem
      exact ⟨E, (show e' = e by cases e'; cases e; simpa using heq) ▸ hE⟩
    exact ⟨E, .installed ha (List.mem_append_left _ hE)⟩

/-- The handle or slot with a number. -/
def slotOf (w : Lowering) (p : Program) (L : List NodeId) : Renaming where
  decl d := ⟨numbered p.decls.size (w.newDecls p L) d.index⟩
  expr e := ⟨numbered p.exprs.size (w.newExprs p L) e.index⟩

theorem slotOf_numbering (hk : Placed w p L k) : (slotOf w p L).node ((w.numbering p L).node k) = k := by
  cases k with
  | decl d => exact congrArg (fun i => NodeId.decl ⟨i⟩) (numbered_number hk)
  | expr e => exact congrArg (fun i => NodeId.expr ⟨i⟩) (numbered_number hk)

namespace Numbered

variable (h : Numbered w p L L q)

include h

/-- The handles of the lowered program are those of the original program and the numbered slots. -/
theorem has_iff : q.Has ((w.numbering p L).node k) ↔ Placed w p L k := by
  cases k with
  | decl d => rw [Placed, ← number_lt_iff, ← h.size_decls]; rfl
  | expr e => rw [Placed, ← number_lt_iff, ← h.size_exprs]; rfl

theorem decl?_of_stands (hp : p.Closed) {d : DeclId} {D : Decl} (hD : DeclStands w p L d D) :
    q.decl? ((w.numbering p L).decl d) = some (D.rename (w.numbering p L)) := by
  cases hD with
  | kept hD hnot =>
    have hsame := h.sameAt (n := .decl d) (has_of_decl? hD) fun a ha => by
      rw [overwritten_numberedPatch hp]
      exact hnot a ha
    rw [NodeId.decl.inj (numbering_of_has (L := L) (has_of_decl? hD)),
      Decl.rename_eq_self fun m hm => numbering_of_has (hp.has_of_decl hD hm)]
    exact Eq.trans hsame hD
  | @changed a ha hD =>
    exact h.decl? a ha (_, _) (List.mem_append_right _
      (List.mem_map_of_mem (f := fun x => ((w.numbering p L).decl x.1, x.2.rename (w.numbering p L))) hD))

theorem decl?_of_added {d : DeclId} {D : Decl} (hD : DeclAdded w p L d D) :
    q.decl? ((w.numbering p L).decl d) =
      some (D.renameTemporary (w.numbering p L) ((w.numbering p L).decl d)) := by
  obtain ⟨a, ha, hD⟩ := hD
  exact h.decl? a ha (_, _) (List.mem_append_left _ (List.mem_map_of_mem
    (f := fun x => ((w.numbering p L).decl x.1, x.2.renameTemporary (w.numbering p L) ((w.numbering p L).decl x.1))) hD))

theorem expr?_of_stands (hp : p.Closed) {e : ExprId} {E : Expr} (hE : ExprStands w p L e E) :
    q.expr? ((w.numbering p L).expr e) = some (E.rename (w.numbering p L)) := by
  cases hE with
  | kept hE hnot =>
    have hsame := h.sameAt (n := .expr e) (has_of_expr? hE) fun a ha => by
      rw [overwritten_numberedPatch hp]
      exact hnot a ha
    rw [NodeId.expr.inj (numbering_of_has (L := L) (has_of_expr? hE)),
      Expr.rename_eq_self fun m hm => numbering_of_has (hp.has_of_expr hE hm)]
    exact Eq.trans hsame hE
  | @installed a ha hE =>
    refine h.expr? a ha (_, _) ?_
    have hmem := List.mem_map_of_mem (f := fun x => ((w.numbering p L).expr x.1, x.2.rename (w.numbering p L))) hE
    rwa [List.map_append] at hmem

/-- Each handle of the lowered program is the number of a handle or a slot. -/
theorem numbering_slotOf (hL : L.Nodup) (hk : q.Has k) :
    Placed w p L ((slotOf w p L).node k) ∧ (w.numbering p L).node ((slotOf w p L).node k) = k := by
  cases k with
  | decl d =>
    have hlt : d.index < p.decls.size + (w.newDecls p L).length := h.size_decls ▸ hk
    exact ⟨numbered_mem hlt, congrArg (fun i => NodeId.decl ⟨i⟩)
      (number_numbered (nodup_newDecls hL) (fun i => le_of_mem_newDecls) hlt)⟩
  | expr e =>
    have hlt : e.index < p.exprs.size + (w.newExprs p L).length := h.size_exprs ▸ hk
    exact ⟨numbered_mem hlt, congrArg (fun i => NodeId.expr ⟨i⟩)
      (number_numbered (nodup_newExprs hL) (fun i => le_of_mem_newExprs) hlt)⟩

/-- **Each declaration of the lowered program** is one that stood at a handle or was added in a slot. -/
theorem exists_decl (hp : p.Closed) (hL : L.Nodup) {d : DeclId} {D : Decl} (hD : q.decl? d = some D) :
    ∃ d₀ D₀, (w.numbering p L).decl d₀ = d ∧
      (DeclStands w p L d₀ D₀ ∧ D = D₀.rename (w.numbering p L) ∨
        DeclAdded w p L d₀ D₀ ∧ D = D₀.renameTemporary (w.numbering p L) d) := by
  obtain ⟨hplaced, hnumber⟩ := h.numbering_slotOf hL (has_of_decl? hD)
  obtain ⟨D₀, hD₀⟩ := exists_decl_of_placed hplaced
  have hnumber := NodeId.decl.inj hnumber
  refine ⟨_, D₀, hnumber, hD₀.imp (fun hD₀ => ⟨hD₀, ?_⟩) fun hD₀ => ⟨hD₀, ?_⟩⟩
  · have hthere := h.decl?_of_stands hp hD₀
    rw [hnumber, hD] at hthere
    exact Option.some.inj hthere
  · have hthere := h.decl?_of_added hD₀
    rw [hnumber, hD] at hthere
    exact Option.some.inj hthere

/-- **Each expression of the lowered program** is one that stood at a handle or in a slot. -/
theorem exists_expr (hp : p.Closed) (hL : L.Nodup) {e : ExprId} {E : Expr} (hE : q.expr? e = some E) :
    ∃ e₀ E₀, (w.numbering p L).expr e₀ = e ∧ ExprStands w p L e₀ E₀ ∧ E = E₀.rename (w.numbering p L) := by
  obtain ⟨hplaced, hnumber⟩ := h.numbering_slotOf hL (has_of_expr? hE)
  obtain ⟨E₀, hE₀⟩ := exists_expr_of_placed hplaced
  have hnumber := NodeId.expr.inj hnumber
  refine ⟨_, E₀, hnumber, hE₀, ?_⟩
  have hthere := h.expr?_of_stands hp hE₀
  rw [hnumber, hE] at hthere
  exact Option.some.inj hthere

end Numbered

/-! ## Two numberings -/

variable (w p L) in
/-- **A renaming leads from one numbering to another**: from the number of each handle and each slot to its other
number, and the same declarations stand and have been added on both sides. -/
structure Leads (w' : Lowering) (L' : List NodeId) (σ : Renaming) : Prop where
  node_eq : ∀ k, Placed w p L k → σ.node ((w.numbering p L).node k) = (w'.numbering p L').node k
  stands : ∀ {d D}, DeclStands w p L d D → DeclStands w' p L' d D
  added : ∀ {d D}, DeclAdded w p L d D → DeclAdded w' p L' d D

namespace Leads

variable {w' : Lowering} {L' : List NodeId} {σ : Renaming} {q' : Program} (hσ : Leads w p L w' L' σ)
include hσ

theorem fixed (hk : p.Has k) : σ.node k = k := by
  have hplaced : Placed w p L k := by cases k <;> exact .inl hk
  have heq := hσ.node_eq k hplaced
  rwa [numbering_of_has hk, numbering_of_has hk] at heq

variable (h : Numbered w p L L q) (h' : Numbered w' p L' L' q')
include h

theorem rename_declForm {form : DeclForm} (hform : ∀ n ∈ (form.rename (w.numbering p L)).mentioned, q.Has n) :
    (form.rename (w.numbering p L)).rename σ = form.rename (w'.numbering p L') := by
  rw [DeclForm.rename_rename]
  refine DeclForm.rename_congr fun k hk => ?_
  rw [← hσ.node_eq k (h.has_iff.1 (hform _ (by rw [DeclForm.mentioned_rename]; exact List.mem_map_of_mem hk)))]
  cases k <;> rfl

theorem rename_exprForm {form : ExprForm} (hform : ∀ n ∈ (form.rename (w.numbering p L)).mentioned, q.Has n) :
    (form.rename (w.numbering p L)).rename σ = form.rename (w'.numbering p L') := by
  rw [ExprForm.rename_rename]
  refine ExprForm.rename_congr fun k hk => ?_
  rw [← hσ.node_eq k (h.has_iff.1 (hform _ (by rw [ExprForm.mentioned_rename]; exact List.mem_map_of_mem hk)))]
  cases k <;> rfl

include h'
variable (hp : p.Closed) (hq : q.Closed)
include hp hq

/-- A declaration of the original program has become the same, up to handles. -/
theorem decl? (hL : L.Nodup) {d : DeclId} {D : Decl} (hd : p.Has (.decl d)) (hD : q.decl? d = some D) :
    q'.decl? d = some (D.rename σ) := by
  obtain ⟨d₀, D₀, rfl, ⟨hD₀, rfl⟩ | ⟨hD₀, -⟩⟩ := h.exists_decl hp hL hD
  · have hform := hσ.rename_declForm h fun n hn => hq.has_of_decl hD hn
    have hthere := h'.decl?_of_stands hp (hσ.stands hD₀)
    rw [NodeId.decl.inj (numbering_of_has (w := w') (L := L') hD₀.has)] at hthere
    rw [NodeId.decl.inj (numbering_of_has (w := w) (L := L) hD₀.has), hthere, Decl.rename, Decl.rename, Decl.rename,
      hform]
  · exact absurd hd (Nat.not_lt.2 (le_number (le_of_mem_newDecls hD₀.placed)))

/-- A declaration that has been added is the same temporary, up to its name and to handles. -/
theorem temporary (hL : L.Nodup) {d : DeclId} {D : Decl} (hd : ¬p.Has (.decl d)) (hD : q.decl? d = some D) :
    D.name = temporaryName d ∧ q'.decl? (σ.decl d) = some { D.rename σ with name := temporaryName (σ.decl d) } := by
  obtain ⟨d₀, D₀, rfl, ⟨hD₀, -⟩ | ⟨hD₀, rfl⟩⟩ := h.exists_decl hp hL hD
  · rw [NodeId.decl.inj (numbering_of_has (w := w) (L := L) hD₀.has)] at hd
    exact absurd hD₀.has hd
  · have hform := hσ.rename_declForm h fun n hn => hq.has_of_decl hD hn
    rw [NodeId.decl.inj (hσ.node_eq (.decl d₀) (.inr hD₀.placed)), h'.decl?_of_added (hσ.added hD₀)]
    refine ⟨rfl, ?_⟩
    simp only [Decl.renameTemporary, Decl.rename, hform]

/-- An expression that stands on both sides is the same, up to handles. -/
theorem expr? {e : ExprId} {E : Expr} (hE : q.expr? ((w.numbering p L).expr e) = some (E.rename (w.numbering p L)))
    (hstands : ExprStands w' p L' e E) :
    q'.expr? (σ.expr ((w.numbering p L).expr e)) = some ((E.rename (w.numbering p L)).rename σ) := by
  have hform := hσ.rename_exprForm h fun n hn => hq.has_of_expr hE hn
  rw [NodeId.expr.inj (hσ.node_eq (.expr e) (h.has_iff.1 (has_of_expr? hE))), h'.expr?_of_stands hp hstands,
    Expr.rename, Expr.rename, Expr.rename, hform]

end Leads

end

end Lowering

end DeferredInit
