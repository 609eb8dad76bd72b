import DeferredInit.Proofs.Program.Closed
import Mathlib.Data.List.GetD
import Mathlib.Data.List.Nodup

/-!
# Other handles

A program says nothing by the handles that its nodes have.  `rename` replaces all handles that a node stores, and
leaves everything else of it alone.  It depends on the handles that the node mentions, and on no others
(`ExprForm.rename_congr`, `DeclForm.rename_congr`).

Handles are numbered as nodes come in: those of the first `size` nodes stay, and those in a list `added` get the
numbers from `size` on, in the order of the list.  `number` and `numbered` are the two directions of this.
-/

namespace DeferredInit

/-- **Other handles** for declarations and for expressions. -/
structure Renaming where
  /-- The other handle of a declaration. -/
  decl : DeclId → DeclId
  /-- The other handle of an expression. -/
  expr : ExprId → ExprId

namespace Renaming

/-- The other handle of a node. -/
def node (ρ : Renaming) : NodeId → NodeId
  | .decl d => .decl (ρ.decl d)
  | .expr e => .expr (ρ.expr e)

/-- One renaming after another. -/
def comp (σ ρ : Renaming) : Renaming := ⟨fun d => σ.decl (ρ.decl d), fun e => σ.expr (ρ.expr e)⟩

end Renaming

/-! ## Nodes under other handles -/

/-- What is called, under other handles. -/
def Callee.rename (ρ : Renaming) : Callee → Callee
  | declared function => declared (ρ.decl function)
  | library hash => library hash

/-- **A form under other handles.** -/
def ExprForm.rename (ρ : Renaming) : ExprForm → ExprForm
  | const value => const value
  | getValue d => getValue (ρ.decl d)
  | setValue target value => setValue (ρ.decl target) (ρ.expr value)
  | getField field receiver => getField (ρ.decl field) (receiver.map ρ.expr)
  | setField field receiver value => setField (ρ.decl field) (receiver.map ρ.expr) (ρ.expr value)
  | call callee dispatch extension args =>
    call (callee.rename ρ) (dispatch.map ρ.expr) (extension.map ρ.expr) (args.map ρ.expr)
  | propertyRef property dispatch extension =>
    propertyRef (ρ.decl property) (dispatch.map ρ.expr) (extension.map ρ.expr)
  | block stmts => block (stmts.map ρ.expr)
  | cond condition thenBranch elseBranch =>
    cond (ρ.expr condition) (ρ.expr thenBranch) (elseBranch.map ρ.expr)
  | binary op lhs rhs => binary op (ρ.expr lhs) (ρ.expr rhs)
  | declare d => declare (ρ.decl d)
  | ret function value => ret (ρ.decl function) (value.map ρ.expr)
  | construct cls => construct (ρ.decl cls)

/-- An expression under other handles. -/
def Expr.rename (ρ : Renaming) (E : Expr) : Expr := { E with form := E.form.rename ρ }

/-- **A declaration's form under other handles.** -/
def DeclForm.rename (ρ : Renaming) : DeclForm → DeclForm
  | var v => var { v with initializer := v.initializer.map ρ.expr }
  | property q =>
    property
      { q with
        owner := q.owner.map ρ.decl
        backingField := q.backingField.map ρ.decl
        getter := q.getter.map ρ.decl
        setter := q.setter.map ρ.decl }
  | field f =>
    field
      { f with
        owner := f.owner.map ρ.decl
        property := f.property.map ρ.decl
        initializer := f.initializer.map ρ.expr }
  | function f =>
    function
      { f with
        params := f.params.map ρ.decl
        dispatchReceiver := f.dispatchReceiver.map ρ.decl
        extensionReceiver := f.extensionReceiver.map ρ.decl
        body := f.body.map ρ.expr
        property := f.property.map ρ.decl }
  | parameter p => parameter p
  | cls c => cls { c with members := c.members.map ρ.decl }

/-- A declaration under other handles. -/
def Decl.rename (ρ : Renaming) (D : Decl) : Decl := { D with form := D.form.rename ρ }

section Rename

variable {ρ σ : Renaming}

/-- What a renamed form mentions. -/
theorem ExprForm.mentioned_rename (ρ : Renaming) (form : ExprForm) :
    (form.rename ρ).mentioned = form.mentioned.map ρ.node := by
  cases form with
  | getField field receiver => cases receiver <;> rfl
  | setField field receiver value => cases receiver <;> rfl
  | call callee dispatch extension args =>
    cases callee <;> cases dispatch <;> cases extension <;>
      simp [rename, mentioned, subject?, children, Callee.rename, Callee.function?, Renaming.node, Function.comp_def]
  | propertyRef property dispatch extension => cases dispatch <;> cases extension <;> rfl
  | block stmts => simp [rename, mentioned, subject?, children, Renaming.node, Function.comp_def]
  | cond condition thenBranch elseBranch => cases elseBranch <;> rfl
  | ret function value => cases value <;> rfl
  | _ => rfl

/-- What a renamed declaration mentions. -/
theorem DeclForm.mentioned_rename (ρ : Renaming) (form : DeclForm) :
    (form.rename ρ).mentioned = form.mentioned.map ρ.node := by
  cases form with
  | var v => cases hi : v.initializer <;> simp [rename, mentioned, hi, Renaming.node]
  | property q =>
    cases h₁ : q.owner <;> cases h₂ : q.backingField <;> cases h₃ : q.getter <;> cases h₄ : q.setter <;>
      simp [rename, mentioned, h₁, h₂, h₃, h₄, Renaming.node]
  | field f =>
    cases h₁ : f.owner <;> cases h₂ : f.property <;> cases h₃ : f.initializer <;>
      simp [rename, mentioned, h₁, h₂, h₃, Renaming.node]
  | function f =>
    cases h₁ : f.dispatchReceiver <;> cases h₂ : f.extensionReceiver <;> cases h₃ : f.property <;>
      cases h₄ : f.body <;>
      simp [rename, mentioned, h₁, h₂, h₃, h₄, Renaming.node, Function.comp_def]
  | parameter _ => rfl
  | cls c => simp [rename, mentioned, Renaming.node, Function.comp_def]

/-- An expression stores no handles but those that it mentions. -/
theorem ExprForm.rename_congr {form : ExprForm} (h : ∀ n ∈ form.mentioned, ρ.node n = σ.node n) :
    form.rename ρ = form.rename σ := by
  have subject (d : DeclId) (hd : form.subject? = some d) : ρ.decl d = σ.decl d :=
    NodeId.decl.inj (h (.decl d) (by simp [mentioned, hd]))
  have child (e : ExprId) (he : e ∈ form.children) : ρ.expr e = σ.expr e :=
    NodeId.expr.inj (h (.expr e) (by simp [mentioned, he]))
  have option (o : Option ExprId) (ho : ∀ e ∈ o, e ∈ form.children) : o.map ρ.expr = o.map σ.expr :=
    Option.map_congr fun e he => child e (ho e he)
  have list (l : List ExprId) (hl : ∀ e ∈ l, e ∈ form.children) : l.map ρ.expr = l.map σ.expr :=
    List.map_congr_left fun e he => child e (hl e he)
  cases form with
  | const value => rfl
  | getValue d => rw [rename, rename, subject d rfl]
  | setValue target value => rw [rename, rename, subject target rfl, child value (by simp [children])]
  | getField field receiver =>
    rw [rename, rename, subject field rfl, option receiver fun e he => by simp [children, Option.mem_def.1 he]]
  | setField field receiver value =>
    rw [rename, rename, subject field rfl, child value (by simp [children]),
      option receiver fun e he => by simp [children, Option.mem_def.1 he]]
  | call callee dispatch extension args =>
    have hcallee : callee.rename ρ = callee.rename σ := by
      cases callee with
      | declared function => exact congrArg _ (subject function rfl)
      | library hash => rfl
    rw [rename, rename, hcallee, list args fun e he => by simp [children, he],
      option dispatch fun e he => by simp [children, Option.mem_def.1 he],
      option extension fun e he => by simp [children, Option.mem_def.1 he]]
  | propertyRef property dispatch extension =>
    rw [rename, rename, subject property rfl,
      option dispatch fun e he => by simp [children, Option.mem_def.1 he],
      option extension fun e he => by simp [children, Option.mem_def.1 he]]
  | block stmts => rw [rename, rename, list stmts fun e he => by simp [children, he]]
  | cond condition thenBranch elseBranch =>
    rw [rename, rename, child condition (by simp [children]), child thenBranch (by simp [children]),
      option elseBranch fun e he => by simp [children, Option.mem_def.1 he]]
  | binary op lhs rhs =>
    rw [rename, rename, child lhs (by simp [children]), child rhs (by simp [children])]
  | declare d => rw [rename, rename, subject d rfl]
  | ret function value =>
    rw [rename, rename, subject function rfl, option value fun e he => by simp [children, Option.mem_def.1 he]]
  | construct cls => rw [rename, rename, subject cls rfl]

/-- A declaration stores no handles but those that it mentions. -/
theorem DeclForm.rename_congr {form : DeclForm} (h : ∀ n ∈ form.mentioned, ρ.node n = σ.node n) :
    form.rename ρ = form.rename σ := by
  have decls (o : Option DeclId) (ho : ∀ d ∈ o, .decl d ∈ form.mentioned) : o.map ρ.decl = o.map σ.decl :=
    Option.map_congr fun d hd => NodeId.decl.inj (h (.decl d) (ho d hd))
  have exprs (o : Option ExprId) (ho : ∀ e ∈ o, .expr e ∈ form.mentioned) : o.map ρ.expr = o.map σ.expr :=
    Option.map_congr fun e he => NodeId.expr.inj (h (.expr e) (ho e he))
  have list (l : List DeclId) (hl : ∀ d ∈ l, .decl d ∈ form.mentioned) : l.map ρ.decl = l.map σ.decl :=
    List.map_congr_left fun d hd => NodeId.decl.inj (h (.decl d) (hl d hd))
  cases form with
  | var v =>
    rw [rename, rename, exprs v.initializer fun e he => by simp [mentioned, Option.mem_def.1 he]]
  | property q =>
    rw [rename, rename, decls q.owner fun d hd => by simp [mentioned, Option.mem_def.1 hd],
      decls q.backingField fun d hd => by simp [mentioned, Option.mem_def.1 hd],
      decls q.getter fun d hd => by simp [mentioned, Option.mem_def.1 hd],
      decls q.setter fun d hd => by simp [mentioned, Option.mem_def.1 hd]]
  | field f =>
    rw [rename, rename, decls f.owner fun d hd => by simp [mentioned, Option.mem_def.1 hd],
      decls f.property fun d hd => by simp [mentioned, Option.mem_def.1 hd],
      exprs f.initializer fun e he => by simp [mentioned, Option.mem_def.1 he]]
  | function f =>
    rw [rename, rename, list f.params fun d hd => by simp [mentioned, hd],
      decls f.dispatchReceiver fun d hd => by simp [mentioned, Option.mem_def.1 hd],
      decls f.extensionReceiver fun d hd => by simp [mentioned, Option.mem_def.1 hd],
      decls f.property fun d hd => by simp [mentioned, Option.mem_def.1 hd],
      exprs f.body fun e he => by simp [mentioned, Option.mem_def.1 he]]
  | parameter _ => rfl
  | cls c => rw [rename, rename, list c.members fun d hd => by simp [mentioned, hd]]

/-- Two renamings, one after the other. -/
theorem ExprForm.rename_rename (form : ExprForm) : (form.rename ρ).rename σ = form.rename (σ.comp ρ) := by
  cases form with
  | call callee _ _ _ =>
    cases callee <;> simp [rename, Callee.rename, Renaming.comp, Function.comp_def]
  | _ => simp [rename, Renaming.comp, Function.comp_def]

theorem DeclForm.rename_rename (form : DeclForm) : (form.rename ρ).rename σ = form.rename (σ.comp ρ) := by
  cases form <;> simp [rename, Renaming.comp, Function.comp_def]

/-- A renaming that leaves all handles alone. -/
theorem ExprForm.rename_id (form : ExprForm) : form.rename ⟨id, id⟩ = form := by
  cases form with
  | call callee _ _ _ => cases callee <;> simp [rename, Callee.rename]
  | _ => simp [rename]

theorem DeclForm.rename_id (form : DeclForm) : form.rename ⟨id, id⟩ = form := by
  cases form <;> simp [rename]

/-- A node is not changed if the handles that it mentions stay. -/
theorem Expr.rename_eq_self {E : Expr} (h : ∀ n ∈ E.form.mentioned, ρ.node n = n) : E.rename ρ = E := by
  have hform : E.form.rename ρ = E.form.rename ⟨id, id⟩ := ExprForm.rename_congr fun n hn => by
    rw [h n hn]
    cases n <;> rfl
  rw [rename, hform, ExprForm.rename_id]

theorem Decl.rename_eq_self {D : Decl} (h : ∀ n ∈ D.form.mentioned, ρ.node n = n) : D.rename ρ = D := by
  have hform : D.form.rename ρ = D.form.rename ⟨id, id⟩ := DeclForm.rename_congr fun n hn => by
    rw [h n hn]
    cases n <;> rfl
  rw [rename, hform, DeclForm.rename_id]

/-! What a declaration keeps under other handles: its kind, its type and, by its other handle, what it holds at first. -/

theorem DeclForm.ty?_rename (form : DeclForm) : (form.rename ρ).ty? = form.ty? := by
  cases form <;> rfl

theorem DeclForm.isSome_cls?_rename (form : DeclForm) : (form.rename ρ).cls?.isSome = form.cls?.isSome := by
  cases form <;> rfl

theorem DeclForm.var?_rename (form : DeclForm) : (form.rename ρ).var?.bind (·.initializer) =
    (form.var?.bind (·.initializer)).map ρ.expr := by
  cases form <;> rfl

theorem DeclForm.field?_rename (form : DeclForm) : (form.rename ρ).field?.bind (·.initializer) =
    (form.field?.bind (·.initializer)).map ρ.expr := by
  cases form <;> rfl

/-- Handles in initializers and bodies apart, a declaration is renamed as its skeleton is. -/
theorem Decl.rename_withInitializer (D : Decl) (e : ExprId) :
    (D.withInitializer e).rename ρ = (D.rename ρ).withInitializer (ρ.expr e) := by
  cases hD : D.form <;> simp [rename, withInitializer, hD, DeclForm.withInitializer, DeclForm.rename]

end Rename

/-! ## Numbers -/

/-- The number of a handle: those below `size` stay, those in `added` follow in their order. -/
def number (size : Nat) (added : List Nat) (i : Nat) : Nat := if i < size then i else size + added.idxOf i

/-- The handle with a number. -/
def numbered (size : Nat) (added : List Nat) (j : Nat) : Nat := if j < size then j else added.getD (j - size) j

section Numbers

variable {size : Nat} {added more : List Nat} {i j : Nat}

theorem number_of_lt (h : i < size) : number size added i = i := if_pos h

theorem numbered_of_lt (h : j < size) : numbered size added j = j := if_pos h

theorem le_number (h : size ≤ i) : size ≤ number size added i := by
  rw [number, if_neg (Nat.not_lt.2 h)]
  exact Nat.le_add_right _ _

/-- Numbers are given to what is there and to what is added. -/
theorem number_lt_iff : number size added i < size + added.length ↔ i < size ∨ i ∈ added := by
  by_cases hi : i < size
  · rw [number_of_lt hi]
    exact iff_of_true (Nat.lt_add_right _ hi) (.inl hi)
  · rw [number, if_neg hi, Nat.add_lt_add_iff_left, List.idxOf_lt_length_iff]
    exact ⟨.inr, fun h => h.resolve_left hi⟩

/-- A number leads back to the handle that has it. -/
theorem numbered_number (h : i < size ∨ i ∈ added) : numbered size added (number size added i) = i := by
  by_cases hi : i < size
  · rw [number_of_lt hi, numbered_of_lt hi]
  · have hmem := h.resolve_left hi
    rw [number, if_neg hi, numbered, if_neg (by omega), Nat.add_sub_cancel_left,
      List.getD_eq_getElem _ _ (List.idxOf_lt_length_of_mem hmem), List.getElem_idxOf]

/-- What is added has the numbers from `size` on. -/
theorem number_getElem (hnodup : added.Nodup) (hnew : ∀ i ∈ added, size ≤ i) (h : j < added.length) :
    number size added added[j] = size + j := by
  rw [number, if_neg (Nat.not_lt.2 (hnew _ (List.getElem_mem h))), hnodup.idxOf_getElem j h]

/-- All numbers below the total are given. -/
theorem number_numbered (hnodup : added.Nodup) (hnew : ∀ i ∈ added, size ≤ i) (h : j < size + added.length) :
    number size added (numbered size added j) = j := by
  by_cases hj : j < size
  · rw [numbered_of_lt hj, number_of_lt hj]
  · have hlt : j - size < added.length := by omega
    rw [numbered, if_neg hj, List.getD_eq_getElem _ _ hlt, number_getElem hnodup hnew hlt]
    omega

theorem numbered_mem (h : j < size + added.length) :
    numbered size added j < size ∨ numbered size added j ∈ added := by
  by_cases hj : j < size
  · rw [numbered_of_lt hj]
    exact .inl hj
  · have hlt : j - size < added.length := by omega
    rw [numbered, if_neg hj, List.getD_eq_getElem _ _ hlt]
    exact .inr (List.getElem_mem hlt)

/-- From the numbers that one list gives to those that another gives; other handles stay. -/
def renumber (size : Nat) (added more : List Nat) (j : Nat) : Nat :=
  if j < size + added.length then number size more (numbered size added j) else j

theorem renumber_number (h : i < size ∨ i ∈ added) :
    renumber size added more (number size added i) = number size more i := by
  rw [renumber, if_pos (number_lt_iff.2 h), numbered_number h]

/-- Renumbering leads back if both lists have the same members. -/
theorem renumber_renumber (hperm : more.Perm added) (hnodup : added.Nodup) (hnew : ∀ i ∈ added, size ≤ i) (j : Nat) :
    renumber size more added (renumber size added more j) = j := by
  by_cases hj : j < size + added.length
  · have hthere : renumber size added more j = number size more (numbered size added j) := if_pos hj
    rw [hthere, renumber_number ((numbered_mem hj).imp_right hperm.mem_iff.2), number_numbered hnodup hnew hj]
  · have hthere : renumber size added more j = j := if_neg hj
    rw [hthere]
    exact if_neg (by rwa [hperm.length_eq])

end Numbers

end DeferredInit
