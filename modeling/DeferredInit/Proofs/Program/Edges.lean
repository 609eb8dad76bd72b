import Mathlib.Data.List.Duplicate
import Mathlib.Data.List.NodupEquivFin
import DeferredInit.Proofs.Program.Forest

/-!
# Nodes that are reached twice

An edge of the ownership graph leads from outside to an outermost declaration, or from a node to one that it owns.  A
node that is listed twice has two edges to it, so an edge is known by where it starts and by its place there
(`Edge`).  Only edges that start outside or at a reachable node count (`Program.LeadsTo`).

The search for a shared node visits a graph that may have cycles.  The nodes that it has visited and those that it has
still to visit are together the targets of the edges that it has followed (`Searching`).  So it comes to an end, a node
that comes up again is the target of two edges, and if none does, every reachable node is the target of one
(`findShared_decides`).
-/

namespace DeferredInit

open scoped List

/-- **An edge**: where it starts, at a node or outside, and its place among the edges from there. -/
structure Edge where
  source : Option NodeId
  place : Nat
deriving DecidableEq

namespace Program

/-- The targets of the edges from a node, or from outside, in order. -/
def targets (p : Program) : Option NodeId → List NodeId
  | none => p.outermost
  | some n => p.kids n

/-- **An edge leads to a node**, from outside or from a node that can be reached. -/
def LeadsTo (p : Program) (e : Edge) (n : NodeId) : Prop :=
  (∀ m, e.source = some m → p.Reachable m) ∧ (p.targets e.source)[e.place]? = some n

variable {p : Program} {n : NodeId} {S : List NodeId} {sources : List (Option NodeId)}

/-- What can be reached in a closed program exists. -/
theorem Closed.has_of_reachable (hp : p.Closed) (hn : p.Reachable n) : p.Has n := by
  cases hn with
  | outermost hn =>
    obtain ⟨d, hd, rfl⟩ := List.mem_map.1 hn
    exact hp.has_of_topLevel hd
  | owned _ hk => exact hp.has_of_mem_kids hk

/-! ## Edges and targets -/

/-- A node that is listed twice among the targets of one source is the target of two edges from there. -/
theorem exists_places_of_count {source : Option NodeId} (h : 2 ≤ (p.targets source).count n) :
    ∃ i j : Nat, i ≠ j ∧ (p.targets source)[i]? = some n ∧ (p.targets source)[j]? = some n := by
  obtain ⟨i, j, hij, hi, hj⟩ := List.duplicate_iff_exists_distinct_get.1 (List.duplicate_iff_two_le_count.2 h)
  refine ⟨i, j, fun heq => absurd hij (by rw [Fin.lt_def, heq]; omega), ?_, ?_⟩
  · rw [List.getElem?_eq_getElem i.isLt, hi, List.get_eq_getElem]
  · rw [List.getElem?_eq_getElem j.isLt, hj, List.get_eq_getElem]

/-- A node that is twice among the targets of different sources is the target of two edges from them. -/
theorem exists_edges_of_count (hd : sources.Nodup) (h : 2 ≤ (sources.flatMap p.targets).count n) :
    ∃ e f : Edge, e ≠ f ∧ e.source ∈ sources ∧ f.source ∈ sources ∧ (p.targets e.source)[e.place]? = some n ∧
      (p.targets f.source)[f.place]? = some n := by
  induction sources with
  | nil => simp at h
  | cons source rest ih =>
    rw [List.flatMap_cons, List.count_append] at h
    obtain ⟨hnew, hd⟩ := List.nodup_cons.1 hd
    by_cases htwice : 2 ≤ (p.targets source).count n
    · obtain ⟨i, j, hij, hi, hj⟩ := exists_places_of_count htwice
      exact ⟨⟨source, i⟩, ⟨source, j⟩, fun heq => hij (Edge.mk.inj heq).2, List.mem_cons_self, List.mem_cons_self, hi, hj⟩
    by_cases hnone : (p.targets source).count n = 0
    · obtain ⟨e, f, hne, he, hf, hrest⟩ := ih hd (by omega)
      exact ⟨e, f, hne, List.mem_cons_of_mem _ he, List.mem_cons_of_mem _ hf, hrest⟩
    -- one edge starts here, and another one further on
    have hhere : n ∈ p.targets source := List.count_pos_iff.1 (by omega)
    have hthere : n ∈ rest.flatMap p.targets := List.count_pos_iff.1 (by omega)
    obtain ⟨i, hi⟩ := List.mem_iff_getElem?.1 hhere
    obtain ⟨other, hother, hn⟩ := List.mem_flatMap.1 hthere
    obtain ⟨j, hj⟩ := List.mem_iff_getElem?.1 hn
    refine ⟨⟨source, i⟩, ⟨other, j⟩, ?_, List.mem_cons_self, List.mem_cons_of_mem _ hother, hi, hj⟩
    intro heq
    obtain rfl := (Edge.mk.inj heq).1
    exact hnew hother

/-- A node that is twice among what is outermost and what different reachable nodes own is the target of two edges. -/
theorem exists_two_edges (hd : S.Nodup) (hreach : ∀ m ∈ S, p.Reachable m)
    (h : 2 ≤ (p.outermost ++ S.flatMap p.kids).count n) : ∃ e f, e ≠ f ∧ p.LeadsTo e n ∧ p.LeadsTo f n := by
  have hsources : (none :: S.map some).Nodup :=
    List.nodup_cons.2 ⟨by simp, hd.map (Option.some_injective NodeId)⟩
  have htargets : (none :: S.map some).flatMap p.targets = p.outermost ++ S.flatMap p.kids := by
    rw [List.flatMap_cons, List.flatMap_map]
    rfl
  have hstart {source : Option NodeId} (hmem : source ∈ none :: S.map some) (m : NodeId) (hm : source = some m) :
      p.Reachable m := by
    subst hm
    exact hreach m (by simpa using hmem)
  rw [← htargets] at h
  obtain ⟨e, f, hne, he, hf, hen, hfn⟩ := exists_edges_of_count hsources h
  exact ⟨e, f, hne, ⟨hstart he, hen⟩, ⟨hstart hf, hfn⟩⟩

/-- Some edge leads to a node that can be reached. -/
theorem Reachable.exists_edge (hn : p.Reachable n) : ∃ e, p.LeadsTo e n := by
  cases hn with
  | outermost hn =>
    obtain ⟨i, hi⟩ := List.mem_iff_getElem?.1 hn
    exact ⟨⟨none, i⟩, nofun, hi⟩
  | @owned m _ hm hk =>
    obtain ⟨i, hi⟩ := List.mem_iff_getElem?.1 hk
    exact ⟨⟨some m, i⟩, fun k hk => Option.some.inj hk ▸ hm, hi⟩

/-- In a forest no two edges lead to the same node. -/
theorem IsForest.edge_unique (hp : p.IsForest) {e f : Edge} (he : p.LeadsTo e n) (hf : p.LeadsTo f n) : e = f := by
  have hL := enclosed_nodes hp
  have hmem {m : NodeId} (hm : p.Reachable m) : m ∈ p.nodes := (mem_nodes_iff hp).2 hm
  obtain ⟨source, i⟩ := e
  obtain ⟨source', j⟩ := f
  obtain ⟨hsource, hi⟩ := he
  obtain ⟨hsource', hj⟩ := hf
  have hsame : source = source' := by
    cases source with
    | none =>
      cases source' with
      | none => rfl
      | some b =>
        exact absurd (List.mem_of_getElem? hj) (hL.not_mem_kids (List.mem_of_getElem? hi) (hmem (hsource' b rfl)))
    | some a =>
      cases source' with
      | none =>
        exact absurd (List.mem_of_getElem? hi) (hL.not_mem_kids (List.mem_of_getElem? hj) (hmem (hsource a rfl)))
      | some b =>
        exact congrArg some (hL.owner_unique (hmem (hsource a rfl)) (hmem (hsource' b rfl)) (List.mem_of_getElem? hi)
          (List.mem_of_getElem? hj))
  subst hsame
  have hd : (p.targets source).Nodup := by
    cases source with
    | none => exact (List.nodup_append.1 hL.nodup_append).1
    | some a => exact hL.kids_nodup (hmem (hsource a rfl))
  obtain ⟨hlt, hi'⟩ := List.getElem?_eq_some_iff.1 hi
  have hij : i = j := (List.Nodup.getElem_inj_iff hd).1 (hi'.trans (List.getElem?_eq_some_iff.1 hj).2.symm)
  rw [hij]

/-! ## The search -/

/-- **How far a search has come**: it has visited the nodes `S`, each for the first time, and is to visit `ahead`.
Together these are what it has met from outside and from the nodes that it has visited. -/
structure Searching (p : Program) (seen : NodeSet) (S ahead : List NodeId) : Prop where
  marks : Marks p seen S
  nodup : S.Nodup
  visited : ∀ m ∈ S, p.Reachable m
  reachable : ∀ m ∈ ahead, p.Reachable m
  met : S ++ ahead ~ p.outermost ++ S.flatMap p.kids

namespace Searching

variable {seen : NodeSet} {ahead rest : List NodeId}

theorem start (p : Program) : Searching p (.empty p) [] (pending [] p.topLevel) where
  marks := .empty p
  nodup := .nil
  visited _ h := absurd h List.not_mem_nil
  reachable _ h := .outermost (by simpa [pending, outermost] using h)
  met := by simp [pending, outermost]

/-- A visit marks a node, and what the node owns is to be visited as well. -/
theorem visit (h : Searching p seen S (n :: rest)) (hp : p.Closed) (hn : seen.contains n ≠ true)
    (hahead : ahead ~ p.kids n ++ rest) : Searching p (seen.insert n) (n :: S) ahead := by
  have hreach : p.Reachable n := h.reachable n List.mem_cons_self
  have hnew : n ∉ S := fun hmem => hn ((h.marks.contains n).2 hmem)
  refine ⟨h.marks.insert (hp.has_of_reachable hreach), List.nodup_cons.2 ⟨hnew, h.nodup⟩, ?_, ?_, ?_⟩
  · intro m hm
    rcases List.mem_cons.1 hm with rfl | hm
    · exact hreach
    · exact h.visited m hm
  · intro m hm
    rcases List.mem_append.1 (hahead.mem_iff.1 hm) with hm | hm
    · exact .owned hreach hm
    · exact h.reachable m (List.mem_cons_of_mem n hm)
  · have hmet := h.met
    rw [List.perm_iff_count] at hmet hahead ⊢
    intro m
    have hm := hmet m
    have ht := hahead m
    simp only [List.count_append, List.count_cons, List.flatMap_cons] at hm ht ⊢
    omega

/-- A node that comes up again is the target of two edges. -/
theorem exists_two_edges (h : Searching p seen S (n :: rest)) (hn : seen.contains n = true) :
    ∃ e f, e ≠ f ∧ p.LeadsTo e n ∧ p.LeadsTo f n := by
  have hmem : 0 < S.count n := List.count_pos_iff.2 ((h.marks.contains n).1 hn)
  refine Program.exists_two_edges h.nodup h.visited ?_
  rw [← h.met.count_eq n, List.count_append, List.count_cons_self]
  omega

end Searching

/-- What a search ends with: nothing, or a reachable node that two edges lead to. -/
def Shared (p : Program) (r : Option NodeId) : Prop :=
  ∀ n, r = some n → p.Reachable n ∧ ∃ e f, e ≠ f ∧ p.LeadsTo e n ∧ p.LeadsTo f n

theorem Searching.shared {seen : NodeSet} {rest : List NodeId} (h : Searching p seen S (n :: rest))
    (hn : seen.contains n = true) : p.Shared (some n) := by
  intro m hm
  obtain rfl := Option.some.inj hm
  exact ⟨h.reachable n List.mem_cons_self, h.exists_two_edges hn⟩

/-- **A search comes to an end** in a closed program, and what it finds is shared. -/
theorem search_ends (hp : p.Closed) {fuel : Nat} {seen : NodeSet} {exprs : List ExprId} {decls : List DeclId}
    (hS : Searching p seen S (pending exprs decls)) (hfuel : p.size < fuel + S.length) :
    ∃ r, p.search fuel seen exprs decls = .ok r ∧ p.Shared r := by
  fun_induction search p fuel seen exprs decls generalizing S with
  | case1 => exact ⟨none, rfl, fun n hn => by cases hn⟩
  | case2 =>
    -- all nodes that have been visited are different, so there is fuel for each
    have hsize := length_le_size hS.nodup fun m hm => hp.has_of_reachable (hS.visited m hm)
    omega
  | case3 fuel seen e exprs decls hseen => exact ⟨_, rfl, hS.shared hseen⟩
  | case4 fuel seen e exprs decls _ hE =>
    have he := hp.has_of_reachable (hS.reachable _ List.mem_cons_self)
    simp [has_expr_iff, hE] at he
  | case5 fuel seen e exprs decls hseen E hE ih =>
    exact ih (hS.visit hp hseen (pending_expr hE exprs decls)) (by rw [List.length_cons]; omega)
  | case6 fuel seen d decls hseen => exact ⟨_, rfl, hS.shared hseen⟩
  | case7 fuel seen d decls _ hD =>
    have hd := hp.has_of_reachable (hS.reachable _ List.mem_cons_self)
    simp [has_decl_iff, hD] at hd
  | case8 fuel seen d decls hseen D hD ih =>
    exact ih (hS.visit hp hseen (pending_decl hD decls)) (by rw [List.length_cons]; omega)

/-- **The search for a shared node decides whether the program is a tree.**  In a closed program, whether or not it has
cycles, it comes to an end.  It finds nothing exactly if one edge leads to each node that can be reached, and a node
that it finds can be reached by two. -/
theorem findShared_decides (hp : p.Closed) :
    ∃ r, p.findShared = .ok r ∧ (r = none ↔ ∀ n, p.Reachable n → ∃! e, p.LeadsTo e n) ∧
      ∀ n, r = some n → p.Reachable n ∧ ∃ e f, e ≠ f ∧ p.LeadsTo e n ∧ p.LeadsTo f n := by
  have hfuel : p.size < (p.size + 1) + ([] : List NodeId).length := Nat.lt_succ_self p.size
  obtain ⟨r, hr, hshared⟩ := search_ends hp (.start p) hfuel
  refine ⟨r, hr, ⟨?_, ?_⟩, hshared⟩
  · rintro rfl n hn
    have hforest : p.IsForest := findShared_eq_none_iff.1 hr
    obtain ⟨e, he⟩ := hn.exists_edge
    exact ⟨e, he, fun f hf => hforest.edge_unique hf he⟩
  · intro hunique
    cases r with
    | none => rfl
    | some n =>
      obtain ⟨hn, e, f, hne, he, hf⟩ := hshared n rfl
      exact absurd ((hunique n hn).unique he hf) hne

/-- A function whose body is a block that contains itself. -/
def knot : Program where
  name := "knot"
  decls := #[{ name := "loop", span := .unknown, form := .function { returnType := .unit, body := some ⟨0⟩ } }]
  exprs := #[⟨.unknown, .unit, .block [⟨1⟩, ⟨0⟩]⟩, ⟨.unknown, .unit, .const .null⟩]
  topLevel := [⟨0⟩]

/-- The search in a program with a cycle comes to an end at the node that is its own part. -/
theorem findShared_decides_knot : knot.Closed ∧ knot.findShared = .ok (some (.expr ⟨0⟩)) ∧
    (∃ e f, e ≠ f ∧ knot.LeadsTo e (.expr ⟨0⟩) ∧ knot.LeadsTo f (.expr ⟨0⟩)) ∧
      ¬∀ n, knot.Reachable n → ∃! e, knot.LeadsTo e n := by
  have hp : knot.Closed := by decide
  have hfound : knot.findShared = .ok (some (.expr ⟨0⟩)) := by decide +kernel
  obtain ⟨r, hr, hiff, hshared⟩ := findShared_decides hp
  obtain rfl := Except.ok.inj (hfound.symm.trans hr)
  exact ⟨hp, hfound, (hshared _ rfl).2, fun h => nomatch hiff.2 h⟩

end Program

end DeferredInit
