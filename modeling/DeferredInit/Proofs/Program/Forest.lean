import Mathlib.Data.List.Flatten
import Mathlib.Data.List.Nodup
import Mathlib.Data.List.Pairwise
import Mathlib.Data.List.Perm.Subperm
import DeferredInit.Proofs.Program.Closed

/-!
# Programs as forests

Ownership makes a program a graph under its outermost declarations.  Two descriptions of what makes that graph
a forest are used here.

* `Postorder p ns L`: following ownership from the nodes `ns` comes to an end, and meets the nodes `L` in the
  order in which they are left.  It is what a traversal that goes by ownership needs: an induction principle
  that follows the nodes.
* `Enclosed p ns L`: the nodes `L` own nothing but each other, and none of them is owned twice or both owned
  and among `ns`.  It says nothing about order, and `L` may hold nodes that are not met from `ns`, so it
  survives changes of the program.

`findShared` finds nothing exactly in the programs whose outermost declarations are enclosed
(`findShared_eq_none_iff`), and these have a postorder without repetition.  The nodes it leaves are the
reachable ones; they are computed by `Program.nodes`.
-/

namespace DeferredInit

open List (Perm)
open scoped List

namespace Program

/-- The outermost declarations, as nodes. -/
def outermost (p : Program) : List NodeId := p.topLevel.map .decl

/-- **The nodes of the program's graph**: those that are outermost, or owned by one that is reachable. -/
inductive Reachable (p : Program) : NodeId → Prop
  | outermost {n : NodeId} : n ∈ p.outermost → Reachable p n
  | owned {n k : NodeId} : Reachable p n → k ∈ p.kids n → Reachable p k

/-- What a node owns, directly or not, and then the node itself, followed down to a depth. -/
def below (p : Program) : Nat → NodeId → List NodeId
  | 0, _ => []
  | depth + 1, n => (p.kids n).flatMap (below p depth) ++ [n]

/-- **The nodes of a forest**, each after those that it owns. -/
def nodes (p : Program) : List NodeId := p.outermost.flatMap (p.below (p.size + 1))

/-- **The handles of a program**, those of the declarations first. -/
def handles (p : Program) : List NodeId :=
  (List.range p.decls.size).map (.decl ⟨·⟩) ++ (List.range p.exprs.size).map (.expr ⟨·⟩)

theorem mem_handles {p : Program} {n : NodeId} : n ∈ p.handles ↔ p.Has n := by
  cases n with
  | decl d => obtain ⟨i⟩ := d; simp [handles, Has]
  | expr e => obtain ⟨i⟩ := e; simp [handles, Has]

@[simp] theorem length_handles (p : Program) : p.handles.length = p.size := by
  simp [handles, size]

theorem nodup_handles (p : Program) : p.handles.Nodup := by
  have hdecl : Function.Injective fun i => NodeId.decl ⟨i⟩ := fun i j h => by simpa using h
  have hexpr : Function.Injective fun i => NodeId.expr ⟨i⟩ := fun i j h => by simpa using h
  refine List.nodup_append.2 ⟨List.nodup_range.map hdecl, List.nodup_range.map hexpr, ?_⟩
  intro n hn m hm
  obtain ⟨i, -, rfl⟩ := List.mem_map.1 hn
  obtain ⟨j, -, rfl⟩ := List.mem_map.1 hm
  exact NodeId.noConfusion

/-! ## Following ownership -/

/-- **Following ownership** from nodes, in order, leaves these nodes, in order. -/
inductive Postorder (p : Program) : List NodeId → List NodeId → Prop
  | nil : Postorder p [] []
  | cons {n : NodeId} {rest below after : List NodeId} : p.Has n → Postorder p (p.kids n) below →
      Postorder p rest after → Postorder p (n :: rest) (below ++ n :: after)

namespace Postorder

variable {p q : Program} {ns ms L M : List NodeId} {n k : NodeId}

theorem append (hL : Postorder p ns L) (hM : Postorder p ms M) : Postorder p (ns ++ ms) (L ++ M) := by
  induction hL with
  | nil => exact hM
  | cons hn hk _ _ ih =>
    rw [List.append_assoc, List.cons_append, List.cons_append]
    exact cons hn hk ih

theorem split (h : Postorder p (ns ++ ms) L) :
    ∃ A B, L = A ++ B ∧ Postorder p ns A ∧ Postorder p ms B := by
  induction ns generalizing L with
  | nil => exact ⟨[], L, rfl, .nil, h⟩
  | cons n ns ih =>
    cases h with
    | cons hn hk hr =>
      obtain ⟨A, B, rfl, hA, hB⟩ := ih hr
      exact ⟨_, B, by rw [List.append_assoc, List.cons_append], .cons hn hk hA, hB⟩

/-- From the same nodes in another order, the same nodes are left in another order. -/
theorem perm (h : Postorder p ns L) (hp : Perm ns ms) : ∃ M, Postorder p ms M ∧ Perm L M := by
  induction hp generalizing L with
  | nil => exact ⟨L, h, .refl L⟩
  | cons n _ ih =>
    cases h with
    | @cons _ _ A B hn hk hr =>
      obtain ⟨M, hM, hp⟩ := ih hr
      exact ⟨A ++ n :: M, .cons hn hk hM, (hp.cons n).append_left A⟩
  | swap a b l =>
    have h : Postorder p ([b] ++ ([a] ++ l)) L := h
    obtain ⟨A, _, rfl, hA, h⟩ := h.split
    obtain ⟨B, C, rfl, hB, hC⟩ := h.split
    refine ⟨B ++ (A ++ C), hB.append (hA.append hC), ?_⟩
    rw [← List.append_assoc, ← List.append_assoc]
    exact List.perm_append_comm.append_right C
  | trans _ _ ih₁ ih₂ =>
    obtain ⟨M, hM, hp⟩ := ih₁ h
    obtain ⟨K, hK, hq⟩ := ih₂ hM
    exact ⟨K, hK, hp.trans hq⟩

theorem mem (h : Postorder p ns L) (hn : n ∈ ns) : n ∈ L := by
  induction h with
  | nil => exact absurd hn List.not_mem_nil
  | cons _ _ _ _ ih =>
    rcases List.mem_cons.1 hn with rfl | hn
    · exact List.mem_append_right _ List.mem_cons_self
    · exact List.mem_append_right _ (List.mem_cons_of_mem _ (ih hn))

theorem has (h : Postorder p ns L) (hn : n ∈ L) : p.Has n := by
  induction h with
  | nil => exact absurd hn List.not_mem_nil
  | cons hm _ _ ih₁ ih₂ =>
    rcases List.mem_append.1 hn with hn | hn
    · exact ih₁ hn
    · rcases List.mem_cons.1 hn with rfl | hn
      · exact hm
      · exact ih₂ hn

/-- Nodes are left after those that they own. -/
theorem kids_subset (h : Postorder p ns L) {A B : List NodeId} (hL : L = A ++ n :: B) (hd : L.Nodup) :
    p.kids n ⊆ A := by
  induction h generalizing A B with
  | nil => simp at hL
  | @cons m rest C D _ hk hr ih₁ ih₂ =>
    rcases List.append_eq_append_iff.1 hL with ⟨F, rfl, hF⟩ | ⟨F, rfl, hF⟩
    · cases F with
      | nil =>
        obtain ⟨rfl, rfl⟩ := List.cons.inj hF
        exact fun k h => by simpa using hk.mem h
      | cons m' F =>
        obtain ⟨rfl, rfl⟩ := List.cons.inj hF
        have hd' : (F ++ n :: B).Nodup := (List.nodup_append.1 hd).2.1.of_cons
        exact fun k h => by simpa using .inr (.inr (ih₂ rfl hd' h))
    · cases F with
      | nil =>
        obtain ⟨rfl, rfl⟩ := List.cons.inj hF
        exact fun k h => by simpa using hk.mem h
      | cons n' F =>
        obtain ⟨rfl, rfl⟩ := List.cons.inj hF
        exact ih₁ rfl (List.nodup_append.1 hd).1

/-- A first part of a postorder owns nothing but itself. -/
theorem kids_subset_left {A B : List NodeId} (h : Postorder p ns (A ++ B)) (hd : (A ++ B).Nodup) :
    ∀ a ∈ A, p.kids a ⊆ A := by
  intro a ha
  obtain ⟨A₁, A₂, rfl⟩ := List.append_of_mem ha
  exact fun k hk => List.mem_append_left _ (h.kids_subset (List.append_assoc A₁ (a :: A₂) B) hd hk)

/-- What is left below reachable nodes is reachable. -/
theorem reachable (h : Postorder p ns L) (hns : ∀ n ∈ ns, p.Reachable n) : ∀ n ∈ L, p.Reachable n := by
  induction h with
  | nil => exact fun _ hn => absurd hn List.not_mem_nil
  | @cons m rest A B _ _ _ ih₁ ih₂ =>
    have hm := hns m List.mem_cons_self
    intro n hn
    rcases List.mem_append.1 hn with hn | hn
    · exact ih₁ (fun _ hk => .owned hm hk) n hn
    · rcases List.mem_cons.1 hn with rfl | hn
      · exact hm
      · exact ih₂ (fun k hk => hns k (List.mem_cons_of_mem _ hk)) n hn

/-- Each node that is left was a start, or is owned by another that is left. -/
theorem perm_flatMap (h : Postorder p ns L) : Perm L (ns ++ L.flatMap p.kids) := by
  induction h with
  | nil => exact .refl []
  | @cons n rest A B _ _ _ ih₁ ih₂ =>
    rw [List.flatMap_append, List.flatMap_cons]
    calc Perm (A ++ n :: B) (n :: (A ++ B)) := List.perm_middle
      _ |>.Perm (n :: ((p.kids n ++ A.flatMap p.kids) ++ (rest ++ B.flatMap p.kids))) :=
          (ih₁.append ih₂).cons n
      _ |>.Perm (n :: rest ++ (A.flatMap p.kids ++ (p.kids n ++ B.flatMap p.kids))) := by
          rw [List.cons_append, List.perm_cons, List.perm_iff_count]
          intro a
          simp only [List.count_append]
          omega

end Postorder

/-! ## Enclosed nodes -/

/-- **Enclosed nodes**: what is owned in `L`, and `ns` besides, is in `L`, and nothing occurs there twice. -/
structure Enclosed (p : Program) (ns L : List NodeId) : Prop where
  nodup : L.Nodup
  has : ∀ n ∈ L, p.Has n
  subperm : ns ++ L.flatMap p.kids <+~ L

/-- **A forest**: the outermost declarations and all that is owned under them are enclosed. -/
def IsForest (p : Program) : Prop := ∃ L, Enclosed p p.outermost L

variable {p : Program} {ns todo L S : List NodeId} {n : NodeId}

theorem Postorder.enclosed (h : Postorder p ns L) (hL : L.Nodup) : Enclosed p ns L :=
  ⟨hL, fun _ => h.has, h.perm_flatMap.symm.subperm⟩

theorem flatMap_kids_subperm {A B : List NodeId} (h : A <+~ B) : A.flatMap p.kids <+~ B.flatMap p.kids := by
  obtain ⟨C, hC, hB⟩ := h
  exact ⟨C.flatMap p.kids, hC.flatMap_right _, hB.flatMap _⟩

namespace Enclosed

theorem nodup_append (h : Enclosed p ns L) : (ns ++ L.flatMap p.kids).Nodup := by
  obtain ⟨M, hM, hs⟩ := h.subperm
  exact hM.nodup_iff.1 (h.nodup.sublist hs)

theorem mem (h : Enclosed p ns L) (hn : n ∈ ns) : n ∈ L :=
  h.subperm.subset (List.mem_append_left _ hn)

theorem kids_mem (h : Enclosed p ns L) {k : NodeId} (hn : n ∈ L) (hk : k ∈ p.kids n) : k ∈ L :=
  h.subperm.subset (List.mem_append_right _ (List.mem_flatMap.2 ⟨n, hn, hk⟩))

/-- No node is owned by two. -/
theorem owner_unique (h : Enclosed p ns L) {a b k : NodeId} (ha : a ∈ L) (hb : b ∈ L) (hka : k ∈ p.kids a)
    (hkb : k ∈ p.kids b) : a = b := by
  by_contra hab
  have : Std.Symm (Function.onFun List.Disjoint p.kids) := ⟨fun _ _ h _ ha hb => h hb ha⟩
  exact (List.nodup_flatMap.1 h.nodup_append.of_append_right).2.forall ha hb hab hka hkb

/-- A start is owned by nothing. -/
theorem not_mem_kids (h : Enclosed p ns L) {a : NodeId} (hn : n ∈ ns) (ha : a ∈ L) : n ∉ p.kids a := fun hk =>
  (List.nodup_append.1 h.nodup_append).2.2 n hn n (List.mem_flatMap.2 ⟨a, ha, hk⟩) rfl

/-- No node owns another twice. -/
theorem kids_nodup (h : Enclosed p ns L) (hn : n ∈ L) : (p.kids n).Nodup :=
  (List.nodup_flatMap.1 h.nodup_append.of_append_right).1 n hn

end Enclosed

/-! ## The search -/

/-- Marks say which nodes have been visited. -/
structure Marks (p : Program) (seen : NodeSet) (S : List NodeId) : Prop where
  contains : ∀ n, seen.contains n = true ↔ n ∈ S
  room : ∀ n, p.Has n → seen.HasRoom n

theorem Marks.empty (p : Program) : Marks p (.empty p) [] where
  contains n := by simp
  room n hn := by
    cases n with
    | decl d => exact (NodeSet.hasRoom_empty_decl p d).2 ((isSome_decl?_iff p d).2 hn)
    | expr e => exact (NodeSet.hasRoom_empty_expr p e).2 ((isSome_expr?_iff p e).2 hn)

theorem Marks.insert {seen : NodeSet} (h : Marks p seen S) (hn : p.Has n) :
    Marks p (seen.insert n) (n :: S) where
  contains k := by simp [NodeSet.contains_insert (h.room n hn), h.contains]
  room k hk := (NodeSet.hasRoom_insert seen n k).2 (h.room k hk)

/-- The nodes that a search has still to visit. -/
def pending (exprs : List ExprId) (decls : List DeclId) : List NodeId := exprs.map .expr ++ decls.map .decl

theorem pending_expr {e : ExprId} {E : Expr} (h : p.expr? e = some E) (exprs : List ExprId)
    (decls : List DeclId) :
    pending (E.form.children ++ exprs) (E.form.declared?.toList ++ decls) ~
      p.kids (.expr e) ++ pending exprs decls := by
  rw [kids_expr h, ExprForm.owned_eq, List.perm_iff_count]
  intro n
  simp only [pending, List.map_append, List.count_append]
  omega

theorem pending_decl {d : DeclId} {D : Decl} (h : p.decl? d = some D) (decls : List DeclId) :
    pending D.form.ownedExprs (D.form.ownedDecls ++ decls) ~ p.kids (.decl d) ++ pending [] decls := by
  rw [kids_decl h, DeclForm.owned, List.perm_iff_count]
  intro n
  simp only [pending, List.map_append, List.map_nil, List.nil_append, List.count_append]
  omega

/-- One visit of a search that ends without a find. -/
theorem Postorder.visit (hn : p.Has n) (hseen : n ∉ S) {todo rest : List NodeId} (htodo : todo ~ p.kids n ++ rest)
    (h : ∃ L, Postorder p todo L ∧ L.Nodup ∧ ∀ k ∈ L, k ∉ n :: S) :
    ∃ L, Postorder p (n :: rest) L ∧ L.Nodup ∧ ∀ k ∈ L, k ∉ S := by
  obtain ⟨L, hL, hd, hnew⟩ := h
  obtain ⟨M, hM, hp⟩ := hL.perm htodo
  obtain ⟨A, B, rfl, hA, hB⟩ := hM.split
  refine ⟨A ++ n :: B, .cons hn hA hB, ?_, ?_⟩
  · have hn : n ∉ A ++ B := fun hmem => hnew n (hp.mem_iff.2 hmem) List.mem_cons_self
    exact (List.perm_middle.nodup_iff).2 (List.nodup_cons.2 ⟨hn, hp.nodup_iff.1 hd⟩)
  · intro k hk
    rcases List.mem_cons.1 (List.perm_middle.mem_iff.1 hk) with rfl | hk
    · exact hseen
    · exact fun h => hnew k (hp.mem_iff.2 hk) (List.mem_cons_of_mem n h)

/-- A search that finds nothing has followed ownership to its end, and met nothing twice. -/
theorem postorder_of_search {fuel : Nat} {seen : NodeSet} {exprs : List ExprId} {decls : List DeclId}
    (hS : Marks p seen S) (h : p.search fuel seen exprs decls = .ok none) :
    ∃ L, Postorder p (pending exprs decls) L ∧ L.Nodup ∧ ∀ n ∈ L, n ∉ S := by
  fun_induction search p fuel seen exprs decls generalizing S with
  | case1 => exact ⟨[], .nil, .nil, fun _ hn => absurd hn List.not_mem_nil⟩
  | case2 | case3 | case4 | case6 | case7 => simp at h
  | case5 fuel seen e exprs decls hseen E hE ih =>
    have hn := has_of_expr? hE
    exact Postorder.visit hn (by rwa [← hS.contains]) (pending_expr hE exprs decls) (ih (hS.insert hn) h)
  | case8 fuel seen d decls hseen D hD ih =>
    have hn := has_of_decl? hD
    exact Postorder.visit hn (by rwa [← hS.contains]) (pending_decl hD decls) (ih (hS.insert hn) h)

/-- Where nodes are enclosed, the node that a search visits next was not visited before. -/
theorem Enclosed.visit (hL : Enclosed p ns L) {rest : List NodeId} (hS : S <+~ L)
    (h : S ++ n :: rest ~ ns ++ S.flatMap p.kids) :
    n ∉ S ∧ n ∈ L ∧ n :: S <+~ L ∧ (n :: S) ++ (p.kids n ++ rest) ~ ns ++ (n :: S).flatMap p.kids := by
  have hsub : S ++ n :: rest <+~ L :=
    (h.subperm.trans ((List.subperm_append_left ns).2 (flatMap_kids_subperm hS))).trans hL.subperm
  obtain ⟨M, hM, hs⟩ := List.perm_middle.subperm_right.1 hsub
  have hd : (n :: (S ++ rest)).Nodup := hM.nodup_iff.1 (hL.nodup.sublist hs)
  have hn : n ∉ S := fun hn => (List.nodup_cons.1 hd).1 (List.mem_append_left _ hn)
  have hmem : n ∈ L := hsub.subset (List.mem_append_right _ List.mem_cons_self)
  refine ⟨hn, hmem, List.cons_subperm_of_not_mem_of_mem hn hmem hS, ?_⟩
  rw [List.perm_iff_count] at h ⊢
  intro k
  have hk := h k
  simp only [List.count_append, List.count_cons, List.cons_append, List.flatMap_cons] at hk ⊢
  omega

/-- A search with enough fuel finds nothing among enclosed nodes. -/
theorem search_of_enclosed (hL : Enclosed p ns L) {fuel : Nat} {seen : NodeSet} {exprs : List ExprId}
    {decls : List DeclId} (hS : Marks p seen S) (hsub : S <+~ L)
    (h : S ++ pending exprs decls ~ ns ++ S.flatMap p.kids) (hfuel : L.length < fuel + S.length) :
    p.search fuel seen exprs decls = .ok none := by
  fun_induction search p fuel seen exprs decls generalizing S with
  | case1 => rfl
  | case2 => exact absurd hsub.length_le (by omega)
  | case3 fuel seen e exprs decls hseen =>
    exact absurd ((hS.contains _).1 hseen) (hL.visit hsub h).1
  | case4 fuel seen e exprs decls _ hE =>
    have hn := hL.has _ (hL.visit hsub h).2.1
    simp [has_expr_iff, hE] at hn
  | case5 fuel seen e exprs decls _ E hE ih =>
    obtain ⟨-, -, hsub', h'⟩ := hL.visit hsub h
    refine ih (hS.insert (has_of_expr? hE)) hsub' ?_ (by simp; omega)
    exact ((pending_expr hE exprs decls).append_left _).trans h'
  | case6 fuel seen d decls hseen =>
    exact absurd ((hS.contains _).1 hseen) (hL.visit hsub h).1
  | case7 fuel seen d decls _ hD =>
    have hn := hL.has _ (hL.visit hsub h).2.1
    simp [has_decl_iff, hD] at hn
  | case8 fuel seen d decls _ D hD ih =>
    obtain ⟨-, -, hsub', h'⟩ := hL.visit hsub h
    refine ih (hS.insert (has_of_decl? hD)) hsub' ?_ (by simp; omega)
    exact ((pending_decl hD decls).append_left _).trans h'

/-- There are no more different nodes than the size of the program. -/
theorem length_le_size (hL : L.Nodup) (h : ∀ n ∈ L, p.Has n) : L.length ≤ p.size := by
  have hsub : L ⊆ p.handles := fun n hn => mem_handles.2 (h n hn)
  calc L.length ≤ p.handles.length := (List.subperm_of_subset hL hsub).length_le
    _ = p.size := p.length_handles

/-- **The search decides whether a program is a forest.** -/
theorem findShared_eq_none_iff : p.findShared = .ok none ↔ p.IsForest := by
  constructor
  · intro h
    obtain ⟨L, hL, hd, -⟩ := postorder_of_search (Marks.empty p) h
    exact ⟨L, hL.enclosed hd⟩
  · rintro ⟨L, hL⟩
    have hsize := length_le_size hL.nodup hL.has
    refine search_of_enclosed hL (Marks.empty p) List.nil_subperm ?_ (by simp; omega)
    simp [pending, outermost]

/-- The outermost declarations of a forest have a postorder without repetition. -/
theorem IsForest.exists_postorder (h : p.IsForest) : ∃ L, Postorder p p.outermost L ∧ L.Nodup := by
  obtain ⟨L, hL, hd, -⟩ := postorder_of_search (Marks.empty p) (findShared_eq_none_iff.2 h)
  exact ⟨L, hL, hd⟩

/-! ## The nodes of a forest -/

/-- Followed far enough down, nodes lead to those that are left in postorder. -/
theorem Postorder.flatMap_below (h : Postorder p ns L) {depth : Nat} (hdepth : L.length ≤ depth) :
    ns.flatMap (p.below depth) = L := by
  induction h generalizing depth with
  | nil => rfl
  | @cons n rest A B _ _ _ ih₁ ih₂ =>
    simp only [List.length_append, List.length_cons] at hdepth
    cases depth with
    | zero => omega
    | succ depth =>
      rw [List.flatMap_cons, ih₂ (by omega), Program.below, ih₁ (by omega), List.append_assoc]
      rfl

variable (hp : p.IsForest)
include hp

/-- **The nodes of a forest are its postorder.** -/
theorem postorder_nodes : Postorder p p.outermost p.nodes ∧ p.nodes.Nodup := by
  obtain ⟨L, hL, hd⟩ := hp.exists_postorder
  have h := length_le_size hd fun _ => hL.has
  rw [nodes, hL.flatMap_below (by omega)]
  exact ⟨hL, hd⟩

theorem nodup_nodes : p.nodes.Nodup := (postorder_nodes hp).2

theorem enclosed_nodes : Enclosed p p.outermost p.nodes :=
  (postorder_nodes hp).1.enclosed (postorder_nodes hp).2

/-- **The nodes of a forest are the reachable ones.** -/
theorem mem_nodes_iff {n : NodeId} : n ∈ p.nodes ↔ p.Reachable n := by
  have hL := enclosed_nodes hp
  constructor
  · have h := (postorder_nodes hp).1.reachable fun _ hn => .outermost hn
    exact h n
  · intro h
    induction h with
    | outermost hn => exact hL.mem hn
    | owned _ hk ih => exact hL.kids_mem ih hk

end Program

end DeferredInit
