import DeferredInit.Proofs.Deferral.Guards
import DeferredInit.Proofs.Lowering.Order
import DeferredInit.Proofs.Machine.Equality
import DeferredInit.Proofs.Program.Sample

/-!
# Null as a sentinel

Null can stand for "not yet assigned" because equality sets it apart from every other value, even from those that are
not equal to themselves.  So a guard, which compares with null, goes on to its report for null and for no other value
(`Machine.ChoosesByNull`).  That is a matter of the guard alone: it holds of what the builders of guards build, in every
program in which the nodes of the guard still stand, and so of all guards in a lowered program (`GuardedByNull`).
-/

namespace DeferredInit

open Program

theorem Value.isNull_iff {v : Value} : v.isNull = true ↔ v = .null := by
  cases v <;> simp [isNull]

namespace Machine

variable (m : Machine)

/-- **A choice by null**: where a variable holds a value, an expression goes on with `sentinel` if that value is null.
For any other value it goes on with `other`, or comes to an end if there is none. -/
def ChoosesByNull (e : ExprId) (x : DeclId) (sentinel : ExprId) (other : Option ExprId) : Prop :=
  ∀ depth s v, s.local? x = some v →
    m.eval (depth + 3) e s =
      if v = .null then m.eval (depth + 2) sentinel s else other.elim (pure .unit) (m.eval (depth + 2)) s

variable {m} {w : Lowering} {span : Span} {ty : Ty} {name : String} {x getter field : DeclId}
variable {receiver : Option DeclId} {s : State} {v : Value}

/-- A comparison of a variable with null. -/
theorem eval_compareNull {op : BinaryOp} {test tested null : ExprId} {ty' ty'' : Ty}
    (htest : m.program.expr? test = some ⟨span, ty', .binary op tested null⟩)
    (htested : m.program.expr? tested = some ⟨span, ty, .getValue x⟩)
    (hnull : m.program.expr? null = some ⟨span, ty'', .const .null⟩) (hx : s.local? x = some v) (depth : Nat) :
    m.eval (depth + 2) test s = applyBinary op v .null s := by
  rw [m.eval_binary htest, m.eval_getValue htested, m.eval_const hnull]
  simp only [bind, EStateM.bind, m.getValue_of_local? hx]
  rfl

/-- A condition that has come out as a truth value. -/
theorem eval_cond_of_bool {e condition thenBranch : ExprId} {elseBranch : Option ExprId} {b : Bool} {depth : Nat}
    (he : m.program.expr? e = some ⟨span, ty, .cond condition thenBranch elseBranch⟩)
    (hb : m.eval depth condition s = .ok (.bool b) s) :
    m.eval (depth + 1) e s =
      if b then m.eval depth thenBranch s else elseBranch.elim (pure .unit) (m.eval depth) s := by
  rw [m.eval_cond he]
  simp only [bind, EStateM.bind, hb]
  cases b with
  | true => rfl
  | false => cases elseBranch <;> rfl

/-- **The guard of a read** goes on to its report if the variable holds null, and only then. -/
theorem choosesByNull_readGuard (g : ReadGuard w m.program span x ty name) :
    m.ChoosesByNull g.check x g.failure none := by
  intro depth s v hx
  have htest : m.eval (depth + 2) g.test s = .ok (.bool v.isNull) s := by
    rw [eval_compareNull g.test_eq g.tested_eq g.null_eq hx, ← Value.equals_null]
    rfl
  rw [eval_cond_of_bool g.check_eq htest]
  simp only [Value.isNull_iff]

/-- **The guarded body of a getter** goes on to its report if null has been read, and only then. -/
theorem choosesByNull_bodyGuard (g : BodyGuard w m.program span getter receiver field ty name) :
    m.ChoosesByNull g.choice g.held g.failure (some g.success) := by
  intro depth s v hx
  have htest : m.eval (depth + 2) g.test s = .ok (.bool !v.isNull) s := by
    rw [eval_compareNull g.test_eq g.tested_eq g.null_eq hx, ← Value.equals_null]
    rfl
  rw [eval_cond_of_bool g.choice_eq htest]
  simp only [Bool.not_eq_true', ← Bool.not_eq_true, Value.isNull_iff, ite_not, Option.elim_some]

end Machine

namespace Lowering

/-- **All guards choose by null**: there is a guard that does in the place of every read of a deferred variable, and in
the getter of every deferred property. -/
structure GuardedByNull (w : Lowering) (p : Program) (m : Machine) : Prop where
  read : ∀ e E, p.Reachable (.expr e) → p.expr? e = some E → w.construct? p (.expr e) = some .read →
    ∃ (x : DeclId) (ty : Ty) (name : String) (g : ReadGuard w m.program E.span x ty name),
      E.form = .getValue x ∧ m.program.expr? e = some { E with form := g.form } ∧
        m.ChoosesByNull g.check x g.failure none
  property : ∀ d D r, p.Reachable (.decl d) → p.decl? d = some D → D.form = .property r →
    w.construct? p (.decl d) = some .property →
    ∃ (field getter : DeclId) (G : Decl) (f : FunctionDecl) (ty : Ty) (name : String)
      (g : BodyGuard w m.program G.span getter f.dispatchReceiver field ty name),
      r.backingField = some field ∧ r.getter = some getter ∧
        m.program.decl? getter = some { G with form := .function { f with body := some g.body } } ∧
        m.ChoosesByNull g.choice g.held g.failure (some g.success)

theorem guardedByNull_of_lowered {w : Lowering} {p : Program} {m : Machine} {done : NodeId → Prop}
    (h : Lowered w p m.program done) (hdone : ∀ n, p.Reachable n → done n) : GuardedByNull w p m where
  read e E hreach hE hc := by
    cases h.changed (hdone _ hreach) hc with
    | @read _ E' x _ ty name g hE' hform _ _ _ _ hguarded =>
      obtain rfl := Option.some.inj (hE.symm.trans hE')
      exact ⟨x, ty, name, g, hform, hguarded, Machine.choosesByNull_readGuard g⟩
  property d D r hreach hD hform hc := by
    have hafter := h.changed (hdone _ hreach) hc
    obtain ⟨field, getter, F, G, content, f, -, g, hfield, hgetter, -, -, -, -, -, -, -, -, hguarded⟩ :=
      hafter.parts hD hform
    exact ⟨field, getter, G, f, content.ty, F.name, g, hfield, hgetter, hguarded, Machine.choosesByNull_bodyGuard g⟩

/-- **Equality isolates null.**  It is symmetric and transitive; a value differs from itself exactly if its chain of
receivers ends in a NaN, and equals null exactly if it is null.  Hence each guard that is built where what it refers to
exists, run in whatever program has its nodes, goes on to its report for null and for no other value; and so do all
guards in a program that has been lowered. -/
theorem equals_isolates_null :
    (∀ a b : Value, a.equals b = b.equals a) ∧
    (∀ a b c : Value, a.equals b = true → b.equals c = true → a.equals c = true) ∧
    (∀ v : Value, v.equals v = false ↔ ∃ d : Double, v.innermost = .double d ∧ d.isNaN = true) ∧
    (∀ v : Value, v.equals .null = true ↔ v = .null) ∧
    (∀ (w : Lowering) (p : Program) (span : Span) (x : DeclId) (name : String), p.Has (.decl x) →
      ∃ (q : Program) (ty : Ty) (g : ReadGuard w q span x ty name), w.guardedRead span x name p = .ok g.form q ∧
        ∀ m : Machine, (∀ n ∈ g.nodes, q.SameAt m.program n) → m.ChoosesByNull g.check x g.failure none) ∧
    (∀ (w : Lowering) (p : Program) (span : Span) (getter field : DeclId) (receiver : Option DeclId) (name : String),
      p.Has (.decl getter) → p.Has (.decl field) → (∀ r ∈ receiver, p.Has (.decl r)) →
      ∃ (q : Program) (ty : Ty) (g : BodyGuard w q span getter receiver field ty name),
        w.guardedBody span getter receiver field name p = .ok g.body q ∧
        ∀ m : Machine, (∀ n ∈ g.nodes, q.SameAt m.program n) →
          m.ChoosesByNull g.choice g.held g.failure (some g.success)) ∧
    ∀ (w : Lowering) (p q : Program) (stats : LoweringStats), p.Closed → p.findShared = .ok none →
      w.lower p = (.ok stats, q) → ∀ library maxDepth, GuardedByNull w p ⟨q, library, maxDepth⟩ := by
  refine ⟨Value.equals_comm, fun a b c => Value.equals_trans, fun v => Value.equals_self_eq_false_iff,
    fun v => Value.equals_null_iff, ?_, ?_, ?_⟩
  · intro w p span x name hx
    obtain ⟨X, hX⟩ := has_decl_iff.1 hx
    obtain ⟨q, g, -, -, hbuilt, -, -⟩ := guardedRead_assembles (w := w) span hX rfl name
    refine ⟨q, _, g, hbuilt, ?_⟩
    intro m hm
    exact Machine.choosesByNull_readGuard (g.carry hm)
  · intro w p span getter field receiver name hgetter hfield hreceiver
    obtain ⟨F, hF⟩ := has_decl_iff.1 hfield
    obtain ⟨q, g, -, -, hbuilt, -, -⟩ := guardedBody_assembles (w := w) span getter hF rfl hreceiver hgetter name
    refine ⟨q, _, g, hbuilt, ?_⟩
    intro m hm
    exact Machine.choosesByNull_bodyGuard (g.carry hm)
  · intro w p q stats hp hf hlower library maxDepth
    have hforest := findShared_eq_none_iff.1 hf
    have hdone := done_of_lower hp hforest hlower
    exact guardedByNull_of_lowered hdone.lowered fun n => (mem_nodes_iff hforest).2

/-- References to a property of the two zeros are equal, a reference to a property of a property of a NaN is not equal to
itself, and the guards for the variable and the getter of the sample program are as the theorem says, both where they are
built and where the program has been lowered. -/
theorem equals_isolates_null_sample :
    Value.equals (.boundRef ⟨1⟩ (.double ⟨0⟩)) (.boundRef ⟨1⟩ (.double ⟨0x8000000000000000⟩)) = true ∧
    Value.equals (.boundRef ⟨1⟩ (.double ⟨0x8000000000000000⟩)) (.boundRef ⟨1⟩ (.double ⟨0⟩)) = true ∧
    Value.equals (.boundRef ⟨1⟩ (.double ⟨0⟩)) (.boundRef ⟨1⟩ (.double ⟨0⟩)) = true ∧
    Value.equals (.boundRef ⟨1⟩ (.boundRef ⟨2⟩ (.double ⟨0x7FF8000000000000⟩)))
      (.boundRef ⟨1⟩ (.boundRef ⟨2⟩ (.double ⟨0x7FF8000000000000⟩))) = false ∧
    sample.Has (.decl ⟨7⟩) ∧
    (∃ (q : Program) (ty : Ty) (g : ReadGuard Sample.lowering q .unknown ⟨7⟩ ty "x"),
      Sample.lowering.guardedRead .unknown ⟨7⟩ "x" sample = .ok g.form q ∧
        Machine.ChoosesByNull ⟨q, Library.standard, 256⟩ g.check ⟨7⟩ g.failure none) ∧
    sample.Has (.decl ⟨3⟩) ∧ sample.Has (.decl ⟨2⟩) ∧ sample.Has (.decl ⟨4⟩) ∧
    (∃ (q : Program) (ty : Ty) (g : BodyGuard Sample.lowering q .unknown ⟨3⟩ (some ⟨4⟩) ⟨2⟩ ty "name"),
      Sample.lowering.guardedBody .unknown ⟨3⟩ (some ⟨4⟩) ⟨2⟩ "name" sample = .ok g.body q ∧
        Machine.ChoosesByNull ⟨q, Library.standard, 256⟩ g.choice g.held g.failure (some g.success)) ∧
    GuardedByNull Sample.lowering sample ⟨(Sample.lowering.lower sample).2, Library.standard, 256⟩ := by
  obtain ⟨hcomm, htrans, hself, -, hread, hbody, hlowered⟩ := equals_isolates_null
  have hzeros : Value.equals (.boundRef ⟨1⟩ (.double ⟨0⟩)) (.boundRef ⟨1⟩ (.double ⟨0x8000000000000000⟩)) = true := by
    decide
  have hback := (hcomm _ _).symm.trans hzeros
  have hx : sample.Has (.decl ⟨7⟩) := by decide
  have hgetter : sample.Has (.decl ⟨3⟩) := by decide
  have hfield : sample.Has (.decl ⟨2⟩) := by decide
  have hreceiver : sample.Has (.decl ⟨4⟩) := by decide
  refine ⟨hzeros, hback, htrans _ _ _ hzeros hback, (hself _).2 ⟨⟨0x7FF8000000000000⟩, rfl, by decide⟩, hx, ?_, hgetter,
    hfield, hreceiver, ?_, ?_⟩
  · obtain ⟨q, ty, g, hbuilt, hchooses⟩ := hread Sample.lowering sample .unknown ⟨7⟩ "x" hx
    exact ⟨q, ty, g, hbuilt, hchooses _ fun n _ => .refl q n⟩
  · obtain ⟨q, ty, g, hbuilt, hchooses⟩ := hbody Sample.lowering sample .unknown ⟨3⟩ ⟨2⟩ (some ⟨4⟩) "name" hgetter hfield
      (fun r hr => Option.some.inj hr ▸ hreceiver)
    exact ⟨q, ty, g, hbuilt, hchooses _ fun n _ => .refl q n⟩
  · have hstats : (Sample.lowering.lower sample).1 = .ok { vars := 1, reads := 2, queries := 1, properties := 1 } := by
      decide +kernel
    exact hlowered _ _ _ _ (by decide) (by decide +kernel) (by rw [← hstats]) _ _

end Lowering

end DeferredInit
