import Mathlib.Logic.Equiv.Defs
import DeferredInit.Proofs.Program.Growth
import DeferredInit.Proofs.Program.Renaming

/-!
# The same program elsewhere

`Relocated p ρ q` says that the nodes of `p` are found in `q` under the handles that `ρ` gives them, and that `q` has the
same outermost declarations.  It says nothing of the nodes that `q` has besides, which may be anything.  Any permutation
of the places of declarations and of expressions relocates a program (`Relocated.permute`), and so does adding nodes
afterwards (`Relocated.extend`).
-/

namespace DeferredInit

namespace Program

/-- **A relocated program**: all nodes of `p` are in `q`, each in a place of its own, and refer to each other there as
they do here. -/
structure Relocated (p : Program) (ρ : Renaming) (q : Program) : Prop where
  injective : ∀ n m, p.Has n → p.Has m → ρ.node n = ρ.node m → n = m
  topLevel_eq : q.topLevel = p.topLevel.map ρ.decl
  decl? : ∀ d D, p.decl? d = some D → q.decl? (ρ.decl d) = some (D.rename ρ)
  expr? : ∀ e E, p.expr? e = some E → q.expr? (ρ.expr e) = some (E.rename ρ)

namespace Relocated

variable {p q r : Program} {ρ : Renaming}

theorem has (h : Relocated p ρ q) {n : NodeId} (hn : p.Has n) : q.Has (ρ.node n) := by
  cases n with
  | decl d =>
    obtain ⟨D, hD⟩ := has_decl_iff.1 hn
    exact has_of_decl? (h.decl? d D hD)
  | expr e =>
    obtain ⟨E, hE⟩ := has_expr_iff.1 hn
    exact has_of_expr? (h.expr? e E hE)

/-- There is room for all nodes where they have gone. -/
theorem size_le (h : Relocated p ρ q) : p.size ≤ q.size := by
  have hnodup : (p.handles.map ρ.node).Nodup := p.nodup_handles.map_on fun n hn m hm =>
    h.injective n m (mem_handles.1 hn) (mem_handles.1 hm)
  have hhas : ∀ n ∈ p.handles.map ρ.node, q.Has n := by
    intro n hn
    obtain ⟨m, hm, rfl⟩ := List.mem_map.1 hn
    exact h.has (mem_handles.1 hm)
  calc p.size = (p.handles.map ρ.node).length := by simp
    _ ≤ q.size := length_le_size hnodup hhas

/-- Every program is where it is. -/
theorem refl (p : Program) : Relocated p ⟨id, id⟩ p where
  injective n m _ _ hnm := by cases n <;> cases m <;> exact hnm
  topLevel_eq := p.topLevel.map_id.symm
  decl? d D hD := hD.trans (by rw [Decl.rename, DeclForm.rename_id])
  expr? e E hE := hE.trans (by rw [Expr.rename, ExprForm.rename_id])

/-- **More nodes** do not matter. -/
theorem extend (h : Relocated p ρ q) (hr : Extends q r) : Relocated p ρ r where
  injective := h.injective
  topLevel_eq := hr.topLevel_eq.trans h.topLevel_eq
  decl? d D hD := hr.decl? (h.decl? d D hD)
  expr? e E hE := hr.expr? (h.expr? e E hE)

end Relocated

/-! ## Permutations -/

/-- Where a permutation puts what is in a place; places that it does not know stay. -/
def place {size : Nat} (σ : Equiv.Perm (Fin size)) (i : Nat) : Nat := if h : i < size then σ ⟨i, h⟩ else i

/-- The handles of nodes that are put in other places. -/
def places {m n : Nat} (σ : Equiv.Perm (Fin m)) (τ : Equiv.Perm (Fin n)) : Renaming where
  decl d := ⟨place σ d.index⟩
  expr e := ⟨place τ e.index⟩

/-- **The same nodes in other places**, and all handles as they are then. -/
def permute (p : Program) (σ : Equiv.Perm (Fin p.decls.size)) (τ : Equiv.Perm (Fin p.exprs.size)) : Program where
  name := p.name
  decls := Array.ofFn fun i => p.decls[σ.symm i].rename (places σ τ)
  exprs := Array.ofFn fun i => p.exprs[τ.symm i].rename (places σ τ)
  topLevel := p.topLevel.map (places σ τ).decl

section Permute

variable {size : Nat} (σ : Equiv.Perm (Fin size))

theorem place_of_lt {i : Nat} (h : i < size) : place σ i = σ ⟨i, h⟩ := dif_pos h

theorem place_inj {i j : Nat} (hi : i < size) (hj : j < size) (h : place σ i = place σ j) : i = j := by
  rw [place_of_lt σ hi, place_of_lt σ hj] at h
  exact Fin.mk.inj (σ.injective (Fin.ext h))

/-- What is put in the place that something has gone to. -/
theorem getElem?_place {α β : Type} {as : Array α} (σ : Equiv.Perm (Fin as.size)) (f : α → β) {i : Nat} {a : α}
    (h : as[i]? = some a) : (Array.ofFn fun j => f as[σ.symm j])[place σ i]? = some (f a) := by
  obtain ⟨hi, rfl⟩ := Array.getElem?_eq_some_iff.1 h
  rw [place_of_lt σ hi, Array.getElem?_eq_getElem (by simp), Array.getElem_ofFn]
  simp

end Permute

/-- **Permutations relocate.** -/
theorem Relocated.permute (p : Program) (σ : Equiv.Perm (Fin p.decls.size)) (τ : Equiv.Perm (Fin p.exprs.size)) :
    Relocated p (places σ τ) (p.permute σ τ) where
  injective n m hn hm h := by
    cases n with
    | decl d =>
      cases m with
      | decl d' =>
        have hplace := congrArg DeclId.index (NodeId.decl.inj h)
        exact congrArg (NodeId.decl ⟨·⟩) (place_inj σ hn hm hplace)
      | expr e' => cases h
    | expr e =>
      cases m with
      | decl d' => cases h
      | expr e' =>
        have hplace := congrArg ExprId.index (NodeId.expr.inj h)
        exact congrArg (NodeId.expr ⟨·⟩) (place_inj τ hn hm hplace)
  topLevel_eq := rfl
  decl? d D hD := getElem?_place σ (·.rename (places σ τ)) hD
  expr? e E hE := getElem?_place τ (·.rename (places σ τ)) hE

end Program

end DeferredInit
