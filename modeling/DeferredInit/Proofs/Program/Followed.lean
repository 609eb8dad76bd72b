import DeferredInit.Proofs.Program.Listed

/-!
# Following handles

The search for shared nodes and the listing of a program follow handles from the outermost declarations down.  They stop
short if a handle has no node, or if they have gone too deep; in a closed program only the latter can happen
(`Closed.findShared_resolves`, `Closed.listing_resolves`), and no matter whether the program is a forest.
-/

namespace DeferredInit

/-- **No dangling handle** was met. -/
def Resolves {α : Type} (x : Except Halt α) : Prop := x ≠ .error .dangling

namespace Resolves

variable {α β : Type}

theorem pure (a : α) : Resolves (.ok a) := nofun

theorem exhausted : Resolves (.error .exhausted : Except Halt α) := nofun

theorem bind {x : Except Halt α} {f : α → Except Halt β} (hx : Resolves x) (hf : ∀ a, x = .ok a → Resolves (f a)) :
    Resolves (x >>= f) := by
  cases x with
  | ok a => exact hf a rfl
  | error h =>
    intro hh
    have hdangling : h = .dangling := Except.error.inj hh
    exact hx (congrArg Except.error hdangling)

/-- What may halt in other ways only meets no dangling handle, whatever repeats it. -/
theorem of_repeated {x y : Except Halt α} (h : Repeated (· ≠ .dangling) x y) : Resolves x := by
  cases x with
  | ok a => exact pure a
  | error halt => exact fun hh => h (Except.error.inj hh)

end Resolves

/-- **The text of an expression** of a closed program meets no dangling handle. -/
theorem Listing.expr_resolves {p : Program} (names : LibraryNames) (hp : p.Closed) (depth : Nat) {e : ExprId}
    (he : p.Has (.expr e)) : Resolves (Listing.expr p names depth e) :=
  .of_repeated (expr_repeated names hp (.refl p) he (.inl Halt.noConfusion) (Nat.le_refl depth))

namespace Program

variable {p : Program} (hp : p.Closed)
include hp

/-- **The listing** of a closed program meets no dangling handle. -/
theorem Closed.listing_resolves (names : LibraryNames) : Resolves (p.listing names) :=
  .of_repeated (listing_repeated hp (.refl p) (.inl Halt.noConfusion) names)

/-- A search for shared nodes among nodes that exist meets no dangling handle. -/
theorem Closed.search_resolves (fuel : Nat) (seen : NodeSet) (exprs : List ExprId) (decls : List DeclId)
    (hexprs : ∀ e ∈ exprs, p.Has (.expr e)) (hdecls : ∀ d ∈ decls, p.Has (.decl d)) :
    Resolves (p.search fuel seen exprs decls) := by
  induction fuel generalizing seen exprs decls with
  | zero => cases exprs <;> cases decls <;> exact nofun
  | succ fuel ih =>
    cases exprs with
    | cons e exprs =>
      obtain ⟨E, hE⟩ := has_expr_iff.1 (hexprs e List.mem_cons_self)
      rw [search]
      split
      · exact .pure _
      · rw [hE]
        refine ih _ _ _ (fun c hc => ?_) fun d hd => ?_
        · rcases List.mem_append.1 hc with hc | hc
          · exact hp.has_of_children hE hc
          · exact hexprs c (List.mem_cons_of_mem _ hc)
        · rcases List.mem_append.1 hd with hd | hd
          · refine hp.has_of_expr hE (ExprForm.mem_mentioned_of_mem_owned ?_)
            rw [ExprForm.owned_eq]
            exact List.mem_append_right _ (List.mem_map_of_mem hd)
          · exact hdecls d hd
    | nil =>
      cases decls with
      | nil => exact .pure _
      | cons d decls =>
        obtain ⟨D, hD⟩ := has_decl_iff.1 (hdecls d List.mem_cons_self)
        rw [search]
        split
        · exact .pure _
        · rw [hD]
          refine ih _ _ _ (fun e he => hp.has_of_ownedExprs hD he) fun k hk => ?_
          rcases List.mem_append.1 hk with hk | hk
          · exact hp.has_of_ownedDecls hD hk
          · exact hdecls k (List.mem_cons_of_mem _ hk)

/-- **The search for shared nodes** in a closed program meets no dangling handle. -/
theorem Closed.findShared_resolves : Resolves p.findShared :=
  hp.search_resolves _ _ _ _ (fun _ h => absurd h List.not_mem_nil) fun _ hd => hp.has_of_topLevel hd

end Program

end DeferredInit
