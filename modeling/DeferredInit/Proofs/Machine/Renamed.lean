import DeferredInit.Proofs.Machine.Operations
import DeferredInit.Proofs.Program.Renaming

/-!
# Machines whose expressions have other handles

The handle of a declaration can be seen from outside: steps tell it, and states and values contain it.  The handle of
an expression cannot.  If two machines differ in nothing but the handles of expressions, as far as their declarations
go, then each operation ends alike on both, provided that what the declarations lead to does (`performs`).
-/

namespace DeferredInit

/-- Other handles for expressions; declarations keep theirs. -/
def Renaming.onExprs (σ : ExprId → ExprId) : Renaming := ⟨id, σ⟩

section

variable {σ : ExprId → ExprId}

theorem Decl.skeleton_rename (D : Decl) : (D.rename (.onExprs σ)).skeleton = D.skeleton := by
  cases hD : D.form <;>
    simp [rename, skeleton, hD, DeclForm.rename, DeclForm.skeleton, Renaming.onExprs]

/-! ## Nodes -/

namespace Operations

section Operands

variable {μ : Type → Type} [Monad μ] (operand : ExprId → μ Value)

theorem evalOption_map (o : Option ExprId) : evalOption operand (o.map σ) = evalOption (operand ∘ σ) o := by
  cases o <;> rfl

theorem evalList_map (es : List ExprId) : evalList operand (es.map σ) = evalList (operand ∘ σ) es := by
  induction es with
  | nil => rfl
  | cons e es ih => rw [List.map_cons, evalList, evalList, ih, Function.comp_apply]

theorem evalBlock_map (last : Value) (es : List ExprId) :
    evalBlock operand last (es.map σ) = evalBlock (operand ∘ σ) last es := by
  induction es generalizing last with
  | nil => rfl
  | cons e es ih => simp only [List.map_cons, evalBlock, ih, Function.comp_apply]

end Operands

/-- **A node with other operands** does the same with them. -/
theorem evalNode_rename {μ : Type → Type} [Monad μ] [MonadLiftT EvalM μ] (ops : Operations) (operand : ExprId → μ Value)
    (form : ExprForm) : ops.evalNode operand (form.rename (.onExprs σ)) = ops.evalNode (operand ∘ σ) form := by
  cases form with
  | getField field receiver => simp only [ExprForm.rename, Renaming.onExprs, evalNode, evalOption_map, id]
  | setField field receiver value =>
    simp only [ExprForm.rename, Renaming.onExprs, evalNode, evalOption_map, id, Function.comp_apply]
  | call callee dispatch extension args =>
    have hcallee : callee.rename ⟨id, σ⟩ = callee := by cases callee <;> rfl
    simp only [ExprForm.rename, Renaming.onExprs, hcallee, evalNode, evalOption_map, evalList_map]
  | propertyRef property dispatch extension =>
    have hreceiver : (dispatch.map σ <|> extension.map σ) = (dispatch <|> extension).map σ := by cases dispatch <;> rfl
    simp only [ExprForm.rename, Renaming.onExprs, evalNode, id, hreceiver, evalOption_map]
  | block stmts => simp only [ExprForm.rename, Renaming.onExprs, evalNode, evalBlock_map]
  | cond condition thenBranch elseBranch => cases elseBranch <;> rfl
  | ret function value => simp only [ExprForm.rename, Renaming.onExprs, evalNode, evalOption_map, id]
  | _ => rfl

end Operations

/-! ## Operations -/

/-- **Machines that differ in the handles of expressions**, as far as declarations go. -/
structure Machine.Renamed (σ : ExprId → ExprId) (m m' : Machine) : Prop where
  library_eq : m.library = m'.library
  maxDepth_eq : m.maxDepth = m'.maxDepth
  decl? : ∀ d, m'.program.decl? d = (m.program.decl? d).map (·.rename (.onExprs σ))

namespace Machine.Renamed

variable {T : Tie} {m m' : Machine} {enter enter' : ExprId → EvalM Value}

theorem refl (m : Machine) : Renamed id m m where
  library_eq := rfl
  maxDepth_eq := rfl
  decl? d := by
    cases m.program.decl? d with
    | none => rfl
    | some D => exact congrArg some (Decl.rename_eq_self fun n _ => by cases n <;> rfl).symm

variable (h : Renamed σ m m')
include h

theorem eq_rename {d : DeclId} {D D' : Decl} (hD : m.program.decl? d = some D) (hD' : m'.program.decl? d = some D') :
    D' = D.rename (.onExprs σ) := by
  rw [h.decl?, hD] at hD'
  exact (Option.some.inj hD').symm

theorem machines (T : Tie) : T.Machines m m' where
  library_eq := h.library_eq
  maxDepth_eq := h.maxDepth_eq
  alike d D hD := ⟨D.rename (.onExprs σ), by rw [h.decl?, hD]; rfl, D.skeleton_rename⟩
  missing d hd := .inl (by rw [h.decl?, hd]; rfl)

variable (henter : ∀ d D, m.program.decl? d = some D → ∀ e ∈ D.form.ownedExprs,
  Tied T.evals (· = ·) (enter e) (enter' (σ e)))
include henter

theorem initialField (field : DeclId) : T.InitialField m m' enter enter' field := by
  intro D D' hD hD'
  have henter := henter field D hD
  rw [h.eq_rename hD hD', Decl.rename, DeclForm.field?_rename]
  cases hform : D.form with
  | field content =>
    simp only [DeclForm.field?, Option.bind_some]
    cases hi : content.initializer with
    | none => exact .none
    | some e => exact .some (henter e (by simp [hform, DeclForm.ownedExprs, hi]))
  | _ => exact .none

theorem declare (d : DeclId) : Tied T.evals (· = ·) (m.declare enter d) (m'.declare enter' d) := by
  refine Tie.declare (h.machines T) fun D D' hD hD' => ?_
  have henter := henter d D hD
  rw [h.eq_rename hD hD', Decl.rename, DeclForm.var?_rename]
  cases hform : D.form with
  | var v =>
    simp only [DeclForm.var?, Option.bind_some]
    cases hi : v.initializer with
    | none => exact .inl ⟨rfl, rfl⟩
    | some e => exact .inr ⟨e, σ e, rfl, rfl, henter e (by simp [hform, DeclForm.ownedExprs, hi])⟩
  | _ => exact .inl ⟨rfl, rfl⟩

theorem invoke (function : DeclId) (this extension : Option Value) (args : List Value) :
    Tied T.runs (· = ·) (m.invoke enter function this extension args) (m'.invoke enter' function this extension args) := by
  refine Tie.invoke (h.machines T) (fun D D' f f' hD hD' hf hf' => ?_) this extension args
  have henter := henter function D hD
  rw [h.eq_rename hD hD', Decl.rename, hf] at hf'
  obtain rfl := DeclForm.function.inj hf'
  cases hbody : f.body with
  | none => exact .none
  | some e =>
    exact .some fun s t hst _ => henter e (by simp [hf, DeclForm.ownedExprs, hbody]) s t hst

/-- **Each operation ends alike** if what it enters does. -/
theorem performs {form : ExprForm} (hT : ∀ d, form = .getValue d → T.Tight d) :
    T.Performs (m.operations enter) (m'.operations enter') form := by
  have hm := h.machines T
  cases form with
  | getValue d => exact Tie.getValue hm (hT d rfl)
  | setValue d _ => exact Tie.setLocal d
  | declare d => exact h.declare henter d
  | getField field _ => exact Tie.loadField hm (h.initialField henter field)
  | setField field _ _ => exact Tie.storeField hm field
  | call callee _ _ _ =>
    intro this extension args
    cases callee with
    | library hash =>
      show Tied _ _ (EvalM.fail (m.libraryFault hash args)) (EvalM.fail (m'.libraryFault hash args))
      rw [Tie.libraryFault hm]
      exact Tie.fail _
    | declared function => exact Tie.evaluated (h.invoke henter function this extension args)
  | construct cls => exact Tie.instantiate hm (h.initialField henter) cls
  | _ => exact trivial

end Machine.Renamed

end

end DeferredInit
