import Mathlib.Data.List.Nodup
import Mathlib.Data.List.Perm.Subperm
import Mathlib.Logic.Relation
import DeferredInit.Proofs.Program.Closed

/-!
# What is evaluated without a call

To evaluate an expression may take the evaluation of others, without any function being called: of its parts, which are
its operands and what a variable that it declares holds at first, and of what a field holds at first, if it is a static
field that is read or a field of an object that is made.  `Starts` relates an expression to those.

A program is `Acyclic` if no expression is a part of itself, and no field needs itself to be initialized.  Then no
expression starts itself, directly or not (`Acyclic.not_starts`), so on the way from one call to the next no expression
is met twice (`Trail.next`).
-/

namespace DeferredInit

open Relation

/-- The declaration that a member of a class keeps its content in. -/
def DeclForm.storage? (form : DeclForm) (member : DeclId) : Option DeclId :=
  match form with
  | property q => q.backingField
  | field _ => some member
  | _ => none

namespace Program

variable (p : Program)

/-- What a variable holds once it is declared. -/
def variableInit? (d : DeclId) : Option ExprId :=
  (p.decl? d).bind fun D => D.form.var?.bind (·.initializer)

/-- What a field holds at first. -/
def fieldInit? (field : DeclId) : Option ExprId :=
  (p.decl? field).bind fun D => D.form.field?.bind (·.initializer)

/-- **The parts of an expression**: its operands and, if it declares a variable, what that holds at first. -/
def parts (e : ExprId) : List ExprId :=
  (p.expr? e).toList.flatMap fun E => E.form.children ++ (E.form.declared?.bind p.variableInit?).toList

/-- The declarations that the members of a class keep their content in. -/
def storage (cls : DeclId) : List DeclId :=
  ((p.decl? cls).bind (·.form.cls?)).toList.flatMap fun c =>
    c.members.filterMap fun k => (p.decl? k).bind fun K => K.form.storage? k

/-- **The fields that a node may initialize**: the static field that it reads, or those of the class that it makes an
instance of. -/
def initializes : ExprForm → List DeclId
  | .getField field _ => if (p.decl? field).any (·.modifiers.isStatic) then [field] else []
  | .construct cls => p.storage cls
  | _ => []

/-- One expression is a part of another. -/
def Contains (e c : ExprId) : Prop := c ∈ p.parts e

/-- An expression, or one that it contains at any depth, may initialize a field. -/
def Demands (e : ExprId) (field : DeclId) : Prop :=
  ∃ x X, ReflTransGen p.Contains e x ∧ p.expr? x = some X ∧ field ∈ p.initializes X.form

/-- What a field holds at first may take the initialization of another field. -/
def Requires (field other : DeclId) : Prop := ∃ init, p.fieldInit? field = some init ∧ p.Demands init other

/-- **What evaluating an expression may start** to evaluate, calls apart. -/
inductive Starts (e : ExprId) : ExprId → Prop
  | part {c : ExprId} : p.Contains e c → Starts e c
  | initializer {E : Expr} {field : DeclId} {c : ExprId} :
      p.expr? e = some E → field ∈ p.initializes E.form → p.fieldInit? field = some c → Starts e c

/-- An expression is what some function does. -/
def IsBody (body : ExprId) : Prop :=
  ∃ function D f, p.decl? function = some D ∧ D.form = .function f ∧ f.body = some body

/-- **A program without cycles**: no expression is a part of itself, and no field requires itself. -/
structure Acyclic : Prop where
  parts : ∀ e, ¬TransGen p.Contains e e
  fields : ∀ field, ¬TransGen p.Requires field field

variable {p} {e c : ExprId} {E : Expr}

theorem mem_parts_iff (hE : p.expr? e = some E) :
    c ∈ p.parts e ↔ c ∈ E.form.children ∨ E.form.declared?.bind p.variableInit? = some c := by
  simp [parts, hE]

theorem mem_storage {cls k : DeclId} {C K : Decl} {members : ClassDecl} {field : DeclId} (hC : p.decl? cls = some C)
    (hmembers : C.form.cls? = some members) (hk : k ∈ members.members) (hK : p.decl? k = some K)
    (hfield : K.form.storage? k = some field) : field ∈ p.storage cls := by
  simp only [storage, hC, Option.bind_some, hmembers, Option.toList_some, List.flatMap_cons, List.flatMap_nil,
    List.append_nil, List.mem_filterMap]
  exact ⟨k, hk, by rw [hK, Option.bind_some, hfield]⟩

/-! ## Whatever is started exists -/

theorem Closed.has_of_fieldInit? (hp : p.Closed) {field : DeclId} (h : p.fieldInit? field = some e) :
    p.Has (.expr e) := by
  obtain ⟨D, hD, h⟩ := Option.bind_eq_some_iff.1 h
  refine hp.has_of_ownedExprs hD ?_
  cases hform : D.form <;> simp_all [DeclForm.field?, DeclForm.ownedExprs]

/-- A variable owns what it holds at first. -/
theorem mem_kids_of_variableInit? {d : DeclId} (h : p.variableInit? d = some e) : .expr e ∈ p.kids (.decl d) := by
  obtain ⟨D, hD, h⟩ := Option.bind_eq_some_iff.1 h
  rw [kids_decl hD]
  cases hform : D.form <;> simp_all [DeclForm.var?, DeclForm.owned, DeclForm.ownedExprs]

theorem Closed.has_of_variableInit? (hp : p.Closed) {d : DeclId} (h : p.variableInit? d = some e) :
    p.Has (.expr e) :=
  hp.has_of_mem_kids (mem_kids_of_variableInit? h)

theorem Closed.has_of_isBody (hp : p.Closed) (h : p.IsBody e) : p.Has (.expr e) := by
  obtain ⟨d, D, f, hD, hf, hbody⟩ := h
  refine hp.has_of_ownedExprs hD ?_
  rw [hf, DeclForm.ownedExprs, hbody]
  exact List.mem_singleton_self e

theorem Starts.has_start (h : p.Starts e c) : p.Has (.expr e) := by
  cases h with
  | part hc =>
    cases hE : p.expr? e with
    | some E => exact has_of_expr? hE
    | none => simp [Contains, parts, hE] at hc
  | initializer hE _ _ => exact has_of_expr? hE

theorem Starts.has (hp : p.Closed) (h : p.Starts e c) : p.Has (.expr c) := by
  obtain ⟨E, hE⟩ := has_expr_iff.1 h.has_start
  cases h with
  | part hc =>
    rcases (mem_parts_iff hE).1 hc with hc | hc
    · exact hp.has_of_children hE hc
    · obtain ⟨d, -, hd⟩ := Option.bind_eq_some_iff.1 hc
      exact hp.has_of_variableInit? hd
  | initializer _ _ hc => exact hp.has_of_fieldInit? hc

/-! ## Nothing starts itself -/

/-- The way from an expression to one that it starts goes by parts alone, or by way of fields that it demands. -/
theorem contains_or_demands (h : TransGen p.Starts e c) : TransGen p.Contains e c ∨
    ∃ first last init, p.Demands e first ∧ ReflTransGen p.Requires first last ∧ p.fieldInit? last = some init ∧
      ReflTransGen p.Contains init c := by
  induction h with
  | single h =>
    cases h with
    | part hc => exact .inl (.single hc)
    | initializer hE hfield hc => exact .inr ⟨_, _, _, ⟨_, _, .refl, hE, hfield⟩, .refl, hc, .refl⟩
  | tail _ h ih =>
    rcases ih with hparts | ⟨first, last, init, hfirst, hlast, hinit, hparts⟩
    · cases h with
      | part hc => exact .inl (hparts.tail hc)
      | initializer hE hfield hc =>
        exact .inr ⟨_, _, _, ⟨_, _, hparts.to_reflTransGen, hE, hfield⟩, .refl, hc, .refl⟩
    · right
      cases h with
      | part hc => exact ⟨first, last, init, hfirst, hlast, hinit, hparts.tail hc⟩
      | initializer hE hfield hc =>
        have hrequires : p.Requires last _ := ⟨init, hinit, _, _, hparts, hE, hfield⟩
        exact ⟨first, _, _, hfirst, hlast.tail hrequires, hc, .refl⟩

/-- **In a program without cycles no expression starts itself**, directly or not. -/
theorem Acyclic.not_starts (hp : p.Acyclic) (e : ExprId) : ¬TransGen p.Starts e e := by
  intro h
  rcases contains_or_demands h with hparts | ⟨first, last, init, ⟨x, X, hx, hX, hfirst⟩, hlast, hinit, hparts⟩
  · exact hp.parts e hparts
  · -- the last field on the way requires the first, so the way through fields is closed as well
    have hrequires : p.Requires last first := ⟨init, hinit, x, X, hparts.trans hx, hX, hfirst⟩
    exact hp.fields first (TransGen.tail' hlast hrequires)

/-- What every step lowers has been lowered after any number of steps. -/
theorem lt_of_transGen {α : Type} {r : α → α → Prop} {measure : α → Nat} (hr : ∀ a b, r a b → measure b < measure a)
    {a b : α} (h : TransGen r a b) : measure b < measure a := by
  induction h with
  | single h => exact hr _ _ h
  | tail _ h ih => exact Nat.lt_trans (hr _ _ h) ih

/-- **Ranks rule out cycles.**  Parts are lower than what they are parts of, and the fields that an expression may
initialize rank below whatever contains it, down from what a field holds at first. -/
theorem Acyclic.of_ranks (height reach : ExprId → Nat) (rank : DeclId → Nat)
    (hparts : ∀ i < p.exprs.size, ∀ c ∈ p.parts ⟨i⟩, height c < height ⟨i⟩ ∧ reach c ≤ reach ⟨i⟩)
    (hfields : ∀ i < p.exprs.size, ∀ E ∈ p.expr? ⟨i⟩, ∀ field ∈ p.initializes E.form, rank field < reach ⟨i⟩)
    (hinits : ∀ i < p.decls.size, ∀ init ∈ p.fieldInit? ⟨i⟩, reach init ≤ rank ⟨i⟩) : p.Acyclic := by
  have hcontains (x y : ExprId) (h : p.Contains x y) : height y < height x ∧ reach y ≤ reach x :=
    hparts x.index (Starts.part h).has_start y h
  have hrequires (F G : DeclId) (h : p.Requires F G) : rank G < rank F := by
    obtain ⟨init, hinit, x, X, hx, hX, hG⟩ := h
    have hreach : reach x ≤ reach init := by
      clear hX hG
      induction hx with
      | refl => exact Nat.le_refl _
      | tail _ h ih => exact Nat.le_trans (hcontains _ _ h).2 ih
    obtain ⟨D, hD, -⟩ := Option.bind_eq_some_iff.1 hinit
    calc rank G < reach x := hfields x.index (has_of_expr? hX) X hX G hG
      _ ≤ reach init := hreach
      _ ≤ rank F := hinits F.index (has_of_decl? hD) init hinit
  exact ⟨fun e h => Nat.lt_irrefl _ (lt_of_transGen (fun x y hxy => (hcontains x y hxy).1) h),
    fun field h => Nat.lt_irrefl _ (lt_of_transGen hrequires h)⟩

/-! ## Trails -/

/-- **A trail**: expressions of a program, each of which starts the one before it, the latest first. -/
structure Trail (p : Program) (e : ExprId) (before : List ExprId) : Prop where
  has : ∀ x ∈ e :: before, p.Has (.expr x)
  starts : ∀ x ∈ before, TransGen p.Starts x e
  nodup : (e :: before).Nodup

namespace Trail

variable {before : List ExprId}

theorem start (he : p.Has (.expr e)) : Trail p e [] where
  has x hx := by
    obtain rfl := List.mem_singleton.1 hx
    exact he
  starts _ hx := absurd hx List.not_mem_nil
  nodup := List.nodup_singleton e

/-- What is started next is new on the trail. -/
theorem next (h : Trail p e before) (hp : p.Closed) (ha : p.Acyclic) (hc : p.Starts e c) : Trail p c (e :: before) := by
  have hstarts : ∀ x ∈ e :: before, TransGen p.Starts x c := by
    intro x hx
    rcases List.mem_cons.1 hx with rfl | hx
    · exact .single hc
    · exact (h.starts x hx).tail hc
  refine ⟨fun x hx => ?_, hstarts, List.nodup_cons.2 ⟨fun hmem => ha.not_starts c (hstarts c hmem), h.nodup⟩⟩
  rcases List.mem_cons.1 hx with rfl | hx
  · exact hc.has hp
  · exact h.has x hx

/-- A trail is no longer than there are expressions. -/
theorem length_lt (h : Trail p e before) : before.length < p.exprs.size := by
  have hinj : Function.Injective ExprId.index := fun ⟨_⟩ ⟨_⟩ hab => congrArg ExprId.mk hab
  have hnodup : ((e :: before).map (·.index)).Nodup := h.nodup.map hinj
  have hsub : (e :: before).map (·.index) ⊆ List.range p.exprs.size := by
    intro i hi
    obtain ⟨x, hx, rfl⟩ := List.mem_map.1 hi
    exact List.mem_range.2 (h.has x hx)
  have hlength := (List.subperm_of_subset hnodup hsub).length_le
  simp only [List.length_map, List.length_cons, List.length_range] at hlength
  omega

end Trail

end Program

end DeferredInit
