import DeferredInit.Proofs.Program.Growth

/-!
# Programs that are alike

Lowering overwrites initializers and bodies, and it adds declarations.  Nothing else about a declaration ever
changes, so what depends on the rest alone is the same before and after: how a function is called, where a
property keeps its value, and how things are named in reports.
-/

namespace DeferredInit

/-- A declaration's form without initializer and body. -/
def DeclForm.skeleton : DeclForm → DeclForm
  | var v => var { v with initializer := none }
  | field f => field { f with initializer := none }
  | function f => function { f with body := none }
  | form => form

/-- **A declaration without initializer and body.** -/
def Decl.skeleton (D : Decl) : Decl := { D with form := D.form.skeleton }

@[simp] theorem Decl.skeleton_withInitializer (D : Decl) (e : ExprId) :
    (D.withInitializer e).skeleton = D.skeleton := by
  cases hD : D.form <;> simp [skeleton, withInitializer, hD, DeclForm.withInitializer, DeclForm.skeleton]

theorem DeclForm.skeleton_property {form : DeclForm} {q : PropertyDecl} :
    form.skeleton = .property q ↔ form = .property q := by
  cases form <;> simp [skeleton]

theorem DeclForm.ty?_skeleton (form : DeclForm) : form.skeleton.ty? = form.ty? := by
  cases form <;> rfl

theorem Decl.isDeferredVariable_of_skeleton {D D' : Decl} (h : D'.skeleton = D.skeleton) :
    D'.isDeferredVariable = D.isDeferredVariable := by
  obtain ⟨-, -, hmod, hform⟩ := Decl.mk.inj h
  have hvar : D'.form.var?.isSome = D.form.var?.isSome := by
    cases hD : D.form <;> cases hD' : D'.form <;> simp_all [DeclForm.skeleton, DeclForm.var?]
  simp only [isDeferredVariable, isDeferredInit, hmod, hvar]

namespace Program

variable {p q r : Program}

/-- Programs whose declarations differ in nothing but initializers and bodies. -/
def Alike (p q : Program) : Prop :=
  ∀ d D, p.decl? d = some D → ∃ D', q.decl? d = some D' ∧ D'.skeleton = D.skeleton

namespace Alike

theorem refl (p : Program) : Alike p p := fun _ D hD => ⟨D, hD, rfl⟩

theorem trans (h : Alike p q) (h' : Alike q r) : Alike p r := by
  intro d D hD
  obtain ⟨D', hD', heq⟩ := h d D hD
  obtain ⟨D'', hD'', heq'⟩ := h' d D' hD'
  exact ⟨D'', hD'', heq'.trans heq⟩

theorem of_extends (h : Extends p q) : Alike p q := fun _ D hD => ⟨D, h.decl? hD, rfl⟩

theorem setDecl {d : DeclId} {D new : Decl} (hd : p.decl? d = some D) (h : new.skeleton = D.skeleton) :
    Alike p (p.setDecl d new) := by
  intro d' D' hD'
  rw [decl?_setDecl _ hd]
  by_cases hdd : d' = d
  · subst hdd
    rw [hd] at hD'
    obtain rfl := Option.some.inj hD'
    exact ⟨new, if_pos rfl, h⟩
  · exact ⟨D', (if_neg hdd).trans hD', rfl⟩

/-- The other way round, for a declaration that exists. -/
theorem back (h : Alike p q) {d : DeclId} {D : Decl} (hd : p.Has (.decl d)) (hD : q.decl? d = some D) :
    ∃ D', p.decl? d = some D' ∧ D'.skeleton = D.skeleton := by
  obtain ⟨D₀, hD₀⟩ := has_decl_iff.1 hd
  obtain ⟨D', hD', heq⟩ := h d D₀ hD₀
  rw [hD] at hD'
  obtain rfl := Option.some.inj hD'
  exact ⟨D₀, hD₀, heq.symm⟩

/-- A declaration that exists has kept its type and its name. -/
theorem back_ty (h : Alike p q) {d : DeclId} {D : Decl} (hd : p.Has (.decl d)) (hD : q.decl? d = some D) :
    ∃ D', p.decl? d = some D' ∧ D'.form.ty? = D.form.ty? ∧ D'.name = D.name := by
  obtain ⟨D', hD', hsk⟩ := h.back hd hD
  obtain ⟨hname, -, -, hform⟩ := Decl.mk.inj hsk
  refine ⟨D', hD', ?_, hname⟩
  rw [← DeclForm.ty?_skeleton, show D'.form.skeleton = D.form.skeleton from hform, DeclForm.ty?_skeleton]

end Alike

end Program

end DeferredInit
