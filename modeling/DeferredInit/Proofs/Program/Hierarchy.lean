import Mathlib.Data.Finset.Card
import DeferredInit.Proofs.Program.Forest
import DeferredInit.Proofs.Program.Initialization

/-!
# Hierarchies

A program is a hierarchy if ownership never leads back to where it started.  That is less than being a forest: a node
may have several owners, and nothing is said of what is outermost.  It is enough for whatever follows ownership down to
come to an end.  The **height** of a node counts those that lie below it; it falls along every edge (`height_lt`) and
stays within the size of the program (`height_le_size`), so with one level more than there are nodes there is room for
everything.
-/

namespace DeferredInit

open Relation

namespace Program

variable {p : Program} {n k : NodeId}

/-- One node owns another. -/
def Owns (p : Program) (n k : NodeId) : Prop := k ∈ p.kids n

/-- **A hierarchy**: no node owns itself, directly or not. -/
def Hierarchical (p : Program) : Prop := ∀ n, ¬TransGen p.Owns n n

/-- **Ranks rule out cycles**: it is a hierarchy if all nodes rank above those that they own. -/
theorem Hierarchical.of_ranks (rank : NodeId → Nat) (h : ∀ n ∈ p.handles, ∀ k ∈ p.kids n, rank k < rank n) :
    p.Hierarchical := by
  have hstep (n k : NodeId) (hk : p.Owns n k) : rank k < rank n := h n (mem_handles.2 (has_of_mem_kids hk)) k hk
  intro n hn
  exact Nat.lt_irrefl _ (lt_of_transGen hstep hn)

open scoped Classical in
/-- **How high up a node stands**: how many nodes there are below it. -/
noncomputable def height (p : Program) (n : NodeId) : Nat :=
  (p.handles.toFinset.filter (TransGen p.Owns n)).card

theorem height_le_size (n : NodeId) : p.height n ≤ p.size := by
  classical
  calc p.height n ≤ p.handles.toFinset.card := Finset.card_filter_le _ _
    _ ≤ p.handles.length := List.toFinset_card_le _
    _ = p.size := p.length_handles

/-- **Heights fall along ownership**: what lies below an owned node lies below its owner too, and so does the node
itself, which does not lie below itself. -/
theorem height_lt (hp : p.Closed) (ha : p.Hierarchical) (hk : k ∈ p.kids n) : p.height k < p.height n := by
  classical
  have hmem : k ∈ p.handles := mem_handles.2 (hp.has_of_mem_kids hk)
  refine Finset.card_lt_card (Finset.ssubset_iff_of_subset ?_ |>.2 ⟨k, ?_, ?_⟩)
  · intro m hm
    obtain ⟨hm, hbelow⟩ := Finset.mem_filter.1 hm
    exact Finset.mem_filter.2 ⟨hm, .head hk hbelow⟩
  · exact Finset.mem_filter.2 ⟨List.mem_toFinset.2 hmem, .single hk⟩
  · intro hself
    exact ha k (Finset.mem_filter.1 hself).2

end Program

end DeferredInit
