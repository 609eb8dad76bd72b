import DeferredInit.Proofs.Lowering.Lowered
import DeferredInit.Proofs.Program.Renaming

/-!
# Patches

A patch lists the nodes that are added to a program and those that are overwritten, each with its handle and its
content.  What is added gets the handles that come next, so these are known beforehand from the sizes of the program
(`Consecutive`).  `Program.Patched` describes a program with a patch installed, and the patch grows as nodes
are added and overwritten (`Patched.extend`, `Patched.setDecl`, `Patched.setExpr`).
-/

namespace DeferredInit

open Program

/-! ## Handles in a row -/

/-- **Handles in a row**, from a number on. -/
def Consecutive {α : Type} (handle : Nat → α) : Nat → List α → Prop
  | _, [] => True
  | start, a :: as => a = handle start ∧ Consecutive handle (start + 1) as

section Consecutive

variable {α : Type} {handle : Nat → α} {start : Nat} {as bs : List α}

theorem consecutive_append :
    Consecutive handle start (as ++ bs) ↔
      Consecutive handle start as ∧ Consecutive handle (start + as.length) bs := by
  induction as generalizing start with
  | nil => simp [Consecutive]
  | cons a as ih =>
    simp only [List.cons_append, Consecutive, ih, and_assoc, List.length_cons, Nat.add_comm as.length, Nat.add_assoc]

/-- Handles in a row are numbered one after the other. -/
theorem consecutive_iff : Consecutive handle start as ↔ ∀ i (h : i < as.length), as[i] = handle (start + i) := by
  induction as generalizing start with
  | nil => simp [Consecutive]
  | cons a as ih =>
    rw [Consecutive, ih]
    refine ⟨fun h i hi => ?_, fun h => ⟨h 0 (by simp), fun i hi => ?_⟩⟩
    · cases i with
      | zero => exact h.1
      | succ i =>
        rw [List.getElem_cons_succ, h.2 i (by simpa using hi)]
        congr 1
        omega
    · have hnext := h (i + 1) (by simpa using hi)
      rw [List.getElem_cons_succ] at hnext
      rw [hnext]
      congr 1
      omega

theorem Consecutive.exists_of_mem {β : Type} {xs : List (α × β)} (h : Consecutive handle start (xs.map Prod.fst))
    {x : α × β} (hx : x ∈ xs) : ∃ i, x.1 = handle (start + i) ∧ (xs.map Prod.snd)[i]? = some x.2 := by
  obtain ⟨i, hi, rfl⟩ := List.getElem_of_mem hx
  have hplace := consecutive_iff.1 h i (by simpa using hi)
  rw [List.getElem_map] at hplace
  exact ⟨i, hplace, by rw [List.getElem?_map, List.getElem?_eq_getElem hi, Option.map_some]⟩

end Consecutive

/-! ## Programs with more nodes -/

namespace Program

variable {q : Program} {ds : List Decl} {es : List Expr}

/-- The program with more nodes at the end. -/
def extend (q : Program) (ds : List Decl) (es : List Expr) : Program :=
  { q with decls := q.decls ++ ds.toArray, exprs := q.exprs ++ es.toArray }

theorem extend_nil (q : Program) : q.extend [] [] = q := by
  simp [extend]

theorem size_decls_extend : (q.extend ds es).decls.size = q.decls.size + ds.length := by
  simp [extend]

theorem size_exprs_extend : (q.extend ds es).exprs.size = q.exprs.size + es.length := by
  simp [extend]

theorem decl?_extend {d : DeclId} {D : Decl} (h : q.decl? d = some D) : (q.extend ds es).decl? d = some D := by
  obtain ⟨hlt, hD⟩ := Array.getElem?_eq_some_iff.1 h
  simp [decl?, extend, Array.getElem?_append, hlt, hD]

theorem decl?_extend_added (i : Nat) : (q.extend ds es).decl? ⟨q.decls.size + i⟩ = ds[i]? := by
  have hle : ¬q.decls.size + i < q.decls.size := by omega
  simp [decl?, extend, Array.getElem?_append, hle]

theorem expr?_extend {e : ExprId} {E : Expr} (h : q.expr? e = some E) : (q.extend ds es).expr? e = some E := by
  obtain ⟨hlt, hE⟩ := Array.getElem?_eq_some_iff.1 h
  simp [expr?, extend, Array.getElem?_append, hlt, hE]

theorem expr?_extend_added (i : Nat) : (q.extend ds es).expr? ⟨q.exprs.size + i⟩ = es[i]? := by
  have hle : ¬q.exprs.size + i < q.exprs.size := by omega
  simp [expr?, extend, Array.getElem?_append, hle]

theorem expr?_extend_last (E : Expr) : (q.extend ds (es ++ [E])).expr? ⟨q.exprs.size + es.length⟩ = some E := by
  rw [expr?_extend_added, List.getElem?_concat_length]

end Program

/-! ## Patches -/

/-- The name of a temporary; it tells the handle. -/
def temporaryName (held : DeclId) : String := "tmp" ++ toString held.index

/-- **A patch**: the nodes that are added to a program, and those that are overwritten. -/
structure Patch where
  /-- The declarations added. -/
  newDecls : List (DeclId × Decl) := []
  /-- The expressions added. -/
  newExprs : List (ExprId × Expr) := []
  /-- The declarations overwritten. -/
  decls : List (DeclId × Decl) := []
  /-- The expressions overwritten. -/
  exprs : List (ExprId × Expr) := []

/-- A temporary under other handles, one of which is its own. -/
def Decl.renameTemporary (ρ : Renaming) (held : DeclId) (D : Decl) : Decl :=
  { D.rename ρ with name := temporaryName held }

/-- **A patch under other handles.**  The declarations that are added are temporaries. -/
def Patch.rename (ρ : Renaming) (P : Patch) : Patch where
  newDecls := P.newDecls.map fun x => (ρ.decl x.1, x.2.renameTemporary ρ (ρ.decl x.1))
  newExprs := P.newExprs.map fun x => (ρ.expr x.1, x.2.rename ρ)
  decls := P.decls.map fun x => (ρ.decl x.1, x.2.rename ρ)
  exprs := P.exprs.map fun x => (ρ.expr x.1, x.2.rename ρ)

/-- The handles of the nodes that are overwritten. -/
def Patch.overwritten (P : Patch) : List NodeId := P.decls.map (.decl ·.1) ++ P.exprs.map (.expr ·.1)

namespace Program

/-- **A program with a patch installed.** -/
structure Patched (q t : Program) (P : Patch) : Prop where
  size_decls : t.decls.size = q.decls.size + P.newDecls.length
  size_exprs : t.exprs.size = q.exprs.size + P.newExprs.length
  decl? : ∀ x ∈ P.newDecls ++ P.decls, t.decl? x.1 = some x.2
  expr? : ∀ x ∈ P.newExprs ++ P.exprs, t.expr? x.1 = some x.2
  fresh_decl : ∀ x ∈ P.newDecls, ¬q.Has (.decl x.1)
  fresh_expr : ∀ x ∈ P.newExprs, ¬q.Has (.expr x.1)
  sameAt : ∀ {n}, q.Has n → n ∉ P.overwritten → q.SameAt t n

namespace Patched

variable {q t : Program} {P : Patch}

theorem refl (q : Program) : Patched q q {} where
  size_decls := rfl
  size_exprs := rfl
  decl? _ h := absurd h List.not_mem_nil
  expr? _ h := absurd h List.not_mem_nil
  fresh_decl _ h := absurd h List.not_mem_nil
  fresh_expr _ h := absurd h List.not_mem_nil
  sameAt _ _ := .refl q _

theorem has (h : Patched q t P) {n : NodeId} (hn : q.Has n) : t.Has n := by
  cases n with
  | decl d => exact Nat.lt_of_lt_of_le hn (by rw [h.size_decls]; exact Nat.le_add_right _ _)
  | expr e => exact Nat.lt_of_lt_of_le hn (by rw [h.size_exprs]; exact Nat.le_add_right _ _)

/-- More nodes are added. -/
theorem extend (h : Patched q t P) {ds : List (DeclId × Decl)} {es : List (ExprId × Expr)}
    (hds : Consecutive DeclId.mk t.decls.size (ds.map Prod.fst))
    (hes : Consecutive ExprId.mk t.exprs.size (es.map Prod.fst)) :
    Patched q (t.extend (ds.map Prod.snd) (es.map Prod.snd))
      { P with newDecls := P.newDecls ++ ds, newExprs := P.newExprs ++ es } where
  size_decls := by rw [size_decls_extend, h.size_decls, List.length_map, List.length_append, Nat.add_assoc]
  size_exprs := by rw [size_exprs_extend, h.size_exprs, List.length_map, List.length_append, Nat.add_assoc]
  decl? x hx := by
    rcases List.mem_append.1 hx with hx | hx
    · rcases List.mem_append.1 hx with hx | hx
      · exact decl?_extend (h.decl? x (List.mem_append_left _ hx))
      · obtain ⟨i, hplace, hi⟩ := hds.exists_of_mem hx
        rw [hplace, decl?_extend_added, hi]
    · exact decl?_extend (h.decl? x (List.mem_append_right _ hx))
  expr? x hx := by
    rcases List.mem_append.1 hx with hx | hx
    · rcases List.mem_append.1 hx with hx | hx
      · exact expr?_extend (h.expr? x (List.mem_append_left _ hx))
      · obtain ⟨i, hplace, hi⟩ := hes.exists_of_mem hx
        rw [hplace, expr?_extend_added, hi]
    · exact expr?_extend (h.expr? x (List.mem_append_right _ hx))
  fresh_decl x hx hhas := by
    rcases List.mem_append.1 hx with hx | hx
    · exact h.fresh_decl x hx hhas
    · obtain ⟨i, hplace, -⟩ := hds.exists_of_mem hx
      exact absurd (h.has (hplace ▸ hhas)) (by simp [Has])
  fresh_expr x hx hhas := by
    rcases List.mem_append.1 hx with hx | hx
    · exact h.fresh_expr x hx hhas
    · obtain ⟨i, hplace, -⟩ := hes.exists_of_mem hx
      exact absurd (h.has (hplace ▸ hhas)) (by simp [Has])
  sameAt {n} hn hnot := by
    have hsame := h.sameAt hn hnot
    refine hsame.trans ?_
    cases n with
    | decl d =>
      obtain ⟨D, hD⟩ := has_decl_iff.1 (h.has hn)
      exact (decl?_extend hD).trans hD.symm
    | expr e =>
      obtain ⟨E, hE⟩ := has_expr_iff.1 (h.has hn)
      exact (expr?_extend hE).trans hE.symm

theorem extendExprs (h : Patched q t P) {es : List (ExprId × Expr)}
    (hes : Consecutive ExprId.mk t.exprs.size (es.map Prod.fst)) :
    Patched q (t.extend [] (es.map Prod.snd)) { P with newExprs := P.newExprs ++ es } := by
  simpa using @extend q t P h [] es trivial hes

/-- A declaration is overwritten. -/
theorem setDecl (h : Patched q t P) {d : DeclId} (hd : q.Has (.decl d)) (hnot : .decl d ∉ P.overwritten) (D : Decl) :
    Patched q (t.setDecl d D) { P with decls := P.decls ++ [(d, D)] } := by
  obtain ⟨old, hold⟩ := has_decl_iff.1 (h.has hd)
  have hother {x : DeclId × Decl} (hx : x ∈ P.newDecls ++ P.decls) : x.1 ≠ d := by
    rintro rfl
    rcases List.mem_append.1 hx with hx | hx
    · exact h.fresh_decl x hx hd
    · exact hnot (List.mem_append_left _ (List.mem_map_of_mem (f := fun x => NodeId.decl x.1) hx))
  refine ⟨?_, h.size_exprs, fun x hx => ?_, h.expr?, h.fresh_decl, h.fresh_expr, fun {n} hn hn' => ?_⟩
  · rw [← h.size_decls]
    exact Array.size_setIfInBounds
  · rw [decl?_setDecl _ hold]
    rw [← List.append_assoc] at hx
    rcases List.mem_append.1 hx with hx | hx
    · rw [if_neg (hother hx), h.decl? x hx]
    · obtain rfl := List.mem_singleton.1 hx
      exact if_pos rfl
  · have hne : n ≠ .decl d := fun heq => hn' (by simp [Patch.overwritten, heq])
    have hn'' : n ∉ P.overwritten := fun hmem => hn' (by
      simp only [Patch.overwritten, List.map_append, List.mem_append] at hmem ⊢
      tauto)
    exact (h.sameAt hn hn'').trans (sameAt_setDecl (h.has hd) D hne)

/-- An expression is overwritten. -/
theorem setExpr (h : Patched q t P) {e : ExprId} (he : q.Has (.expr e)) (hnot : .expr e ∉ P.overwritten) (E : Expr) :
    Patched q (t.setExpr e E) { P with exprs := P.exprs ++ [(e, E)] } := by
  obtain ⟨old, hold⟩ := has_expr_iff.1 (h.has he)
  have hother {x : ExprId × Expr} (hx : x ∈ P.newExprs ++ P.exprs) : x.1 ≠ e := by
    rintro rfl
    rcases List.mem_append.1 hx with hx | hx
    · exact h.fresh_expr x hx he
    · exact hnot (List.mem_append_right _ (List.mem_map_of_mem (f := fun x => NodeId.expr x.1) hx))
  refine ⟨h.size_decls, ?_, h.decl?, fun x hx => ?_, h.fresh_decl, h.fresh_expr, fun {n} hn hn' => ?_⟩
  · rw [← h.size_exprs]
    exact Array.size_setIfInBounds
  · rw [expr?_setExpr _ hold]
    rw [← List.append_assoc] at hx
    rcases List.mem_append.1 hx with hx | hx
    · rw [if_neg (hother hx), h.expr? x hx]
    · obtain rfl := List.mem_singleton.1 hx
      exact if_pos rfl
  · have hne : n ≠ .expr e := fun heq => hn' (by simp [Patch.overwritten, heq])
    have hn'' : n ∉ P.overwritten := fun hmem => hn' (by
      simp only [Patch.overwritten, List.map_append, List.mem_append] at hmem ⊢
      tauto)
    exact (h.sameAt hn hn'').trans (sameAt_setExpr (h.has he) E hne)

end Patched

end Program

end DeferredInit
