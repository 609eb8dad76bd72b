import DeferredInit.Program.Basic

/-!
# Sets of nodes

A set of a program's nodes keeps one mark for each declaration and each expression, so that asking for a node
and adding one take the same time however many nodes are in the set.

`contains_insert` says what adding a node does; it has to be a node that there is a mark for, and the empty
set of a program has one for every node of the program.
-/

namespace DeferredInit

/-- **A set of nodes**: which declarations and which expressions are in it. -/
structure NodeSet where
  /-- The marks of the declarations, by handle. -/
  decls : Array Bool
  /-- The marks of the expressions, by handle. -/
  exprs : Array Bool
deriving DecidableEq, Repr

namespace NodeSet

/-- The set without nodes, with a mark for every node of a program. -/
def empty (p : Program) : NodeSet := ⟨.replicate p.decls.size false, .replicate p.exprs.size false⟩

/-- Whether a node is in the set. -/
def contains (s : NodeSet) : NodeId → Bool
  | .decl d => s.decls.getD d.index false
  | .expr e => s.exprs.getD e.index false

/-- The set with a node added; a node that there is no mark for changes nothing. -/
def insert (s : NodeSet) : NodeId → NodeSet
  | .decl d => { s with decls := s.decls.setIfInBounds d.index true }
  | .expr e => { s with exprs := s.exprs.setIfInBounds e.index true }

/-- There is a mark for a node. -/
def HasRoom (s : NodeSet) : NodeId → Prop
  | .decl d => d.index < s.decls.size
  | .expr e => e.index < s.exprs.size

/-! ## What is in a set -/

@[simp] theorem contains_empty (p : Program) (n : NodeId) : (empty p).contains n = false := by
  cases n <;> simp [empty, contains, Array.getD_eq_getD_getElem?, Array.getElem?_replicate] <;>
    split <;> rfl

theorem hasRoom_empty_decl (p : Program) (d : DeclId) :
    (empty p).HasRoom (.decl d) ↔ (p.decl? d).isSome := by
  simp [empty, HasRoom, Program.isSome_decl?_iff]

theorem hasRoom_empty_expr (p : Program) (e : ExprId) :
    (empty p).HasRoom (.expr e) ↔ (p.expr? e).isSome := by
  simp [empty, HasRoom, Program.isSome_expr?_iff]

@[simp] theorem hasRoom_insert (s : NodeSet) (n q : NodeId) :
    (s.insert n).HasRoom q ↔ s.HasRoom q := by
  cases n <;> cases q <;> simp [insert, HasRoom]

/-- **Adding a node** puts that one in and changes nothing about any other. -/
theorem contains_insert {s : NodeSet} {n : NodeId} (h : s.HasRoom n) (q : NodeId) :
    (s.insert n).contains q = (decide (q = n) || s.contains q) := by
  cases n with
  | decl d =>
    cases q with
    | expr e => simp [insert, contains]
    | decl d' =>
      obtain ⟨i⟩ := d
      obtain ⟨j⟩ := d'
      by_cases hij : i = j
      · subst hij
        simp_all [insert, contains, HasRoom, Array.getD_eq_getD_getElem?]
      · simp [insert, contains, Array.getD_eq_getD_getElem?, hij, Ne.symm hij]
  | expr e =>
    cases q with
    | decl d => simp [insert, contains]
    | expr e' =>
      obtain ⟨i⟩ := e
      obtain ⟨j⟩ := e'
      by_cases hij : i = j
      · subst hij
        simp_all [insert, contains, HasRoom, Array.getD_eq_getD_getElem?]
      · simp [insert, contains, Array.getD_eq_getD_getElem?, hij, Ne.symm hij]

end NodeSet

end DeferredInit
