import DeferredInit.Lowering.Guard
import DeferredInit.Proofs.Program.Growth

/-!
# What guards look like

A guard is described by the handles of its nodes and by what stands at each of them: `ReadGuard` for the guard
of a read, `BodyGuard` for that of a getter, `Presence` for what takes the place of a query.  A description is
about one program, and carries over to every program in which the nodes of the guard are still the same.

Building a guard always succeeds where what it refers to exists, and it adds what is described and leaves on
the stack what the caller has to place: `guardedRead_assembles` and its kin.
-/

namespace DeferredInit

namespace Program

/-- A node is the same in two programs. -/
def SameAt (p q : Program) : NodeId → Prop
  | .decl d => q.decl? d = p.decl? d
  | .expr e => q.expr? e = p.expr? e

end Program

open Program

variable {w : Lowering} {p q q' : Program} {span : Span} {name : String} {ty : Ty} {x getter field : DeclId}
variable {receiver : Option DeclId} {subject : Option ExprId} {S T : List NodeId}
variable {ds : List (DeclId × Decl)} {es : List (ExprId × Expr)}

/-! ## Descriptions -/

/-- **The report** of an access before initialization; it carries the name if the lowering names what it
reports. -/
structure Report (w : Lowering) (q : Program) (span : Span) (name : String) where
  failure : ExprId
  args : List ExprId
  failure_eq : q.expr? failure =
    some ⟨span, .nothing, .call (.library w.intrinsics.throwUninitialized) none none args⟩
  args_eq : ∀ a ∈ args, q.expr? a = some ⟨span, .string, .const (.str name)⟩
  length_args : args.length = if w.options.namesInReports then 1 else 0

/-- **The guard of a read**: `if (x == null) report; x`. -/
structure ReadGuard (w : Lowering) (q : Program) (span : Span) (x : DeclId) (ty : Ty) (name : String) extends
    Report w q span name where
  tested : ExprId
  null : ExprId
  test : ExprId
  check : ExprId
  value : ExprId
  tested_eq : q.expr? tested = some ⟨span, ty, .getValue x⟩
  null_eq : q.expr? null = some ⟨span, .nullableAny, .const .null⟩
  test_eq : q.expr? test = some ⟨span, .boolean, .binary .eq tested null⟩
  check_eq : q.expr? check = some ⟨span, .unit, .cond test failure none⟩
  value_eq : q.expr? value = some ⟨span, ty, .getValue x⟩

/-- What an expression reads to get at a receiver. -/
def ReadsReceiver (q : Program) (span : Span) : Option DeclId → Option ExprId → Prop
  | none, this => this = none
  | some r, this => ∃ t ty, this = some t ∧ q.expr? t = some ⟨span, ty, .getValue r⟩

theorem ReadsReceiver.expr? {this : Option ExprId} {t : ExprId} (h : ReadsReceiver q span receiver this)
    (ht : this = some t) : ∃ r ty, receiver = some r ∧ q.expr? t = some ⟨span, ty, .getValue r⟩ := by
  cases receiver with
  | none =>
    rw [ReadsReceiver, ht] at h
    cases h
  | some r =>
    obtain ⟨t', ty, ht', he⟩ := h
    rw [ht] at ht'
    obtain rfl := Option.some.inj ht'
    exact ⟨r, ty, rfl, he⟩

/-- **The guarded body of a getter**: `held = field; if (held != null) return held else report`, where the
variable `held` belongs to the body. -/
structure BodyGuard (w : Lowering) (q : Program) (span : Span) (getter : DeclId) (receiver : Option DeclId)
    (field : DeclId) (ty : Ty) (name : String) extends Report w q span name where
  this : Option ExprId
  current : ExprId
  held : DeclId
  heldName : String
  declaration : ExprId
  tested : ExprId
  null : ExprId
  test : ExprId
  result : ExprId
  success : ExprId
  choice : ExprId
  body : ExprId
  this_eq : ReadsReceiver q span receiver this
  current_eq : q.expr? current = some ⟨span, ty, .getField field this⟩
  held_eq : q.decl? held = some ((Decl.var heldName ty span).withInitializer current)
  declaration_eq : q.expr? declaration = some ⟨span, .unit, .declare held⟩
  tested_eq : q.expr? tested = some ⟨span, ty, .getValue held⟩
  null_eq : q.expr? null = some ⟨span, .nullableAny, .const .null⟩
  test_eq : q.expr? test = some ⟨span, .boolean, .binary .ne tested null⟩
  result_eq : q.expr? result = some ⟨span, ty, .getValue held⟩
  success_eq : q.expr? success = some ⟨span, .nothing, .ret getter (some result)⟩
  choice_eq : q.expr? choice = some ⟨span, .nothing, .cond test success (some failure)⟩
  body_eq : q.expr? body = some ⟨span, .unit, .block [declaration, choice]⟩

/-- **What takes the place of a query**: `field != null`. -/
structure Presence (q : Program) (span : Span) (field : DeclId) (receiver : Option ExprId) (ty : Ty) where
  value : ExprId
  null : ExprId
  value_eq : q.expr? value = some ⟨span, ty, .getField field receiver⟩
  null_eq : q.expr? null = some ⟨span, .nullableAny, .const .null⟩

/-! ## The nodes of a guard -/

/-- The nodes of a report. -/
def Report.nodes (r : Report w q span name) : List NodeId := (r.failure :: r.args).map .expr

namespace ReadGuard

variable (g : ReadGuard w q span x ty name)

/-- What stands in the place of the read. -/
def form : ExprForm := .block [g.check, g.value]

/-- The nodes of the guard. -/
def nodes : List NodeId := [g.tested, g.null, g.test, g.check, g.value].map .expr ++ g.toReport.nodes

end ReadGuard

/-- The nodes of a guarded body. -/
def BodyGuard.nodes (g : BodyGuard w q span getter receiver field ty name) : List NodeId :=
  .decl g.held :: (g.this.toList ++ [g.current, g.declaration, g.tested, g.null, g.test, g.result, g.success,
    g.choice, g.body]).map .expr ++ g.toReport.nodes

namespace Presence

variable (g : Presence q span field subject ty)

/-- What stands in the place of the query. -/
def form : ExprForm := .binary .ne g.value g.null

/-- The nodes that are added for it. -/
def nodes : List NodeId := [g.value, g.null].map .expr

end Presence

theorem Report.has (r : Report w q span name) : ∀ n ∈ r.nodes, q.Has n := by
  intro n hn
  obtain ⟨e, he, rfl⟩ := List.mem_map.1 hn
  rcases List.mem_cons.1 he with rfl | he
  · exact has_of_expr? r.failure_eq
  · exact has_of_expr? (r.args_eq e he)

theorem ReadGuard.has (g : ReadGuard w q span x ty name) : ∀ n ∈ g.nodes, q.Has n := by
  intro n hn
  simp only [nodes, List.map_cons, List.map_nil, List.cons_append, List.nil_append, List.mem_cons] at hn
  rcases hn with rfl | rfl | rfl | rfl | rfl | hn
  · exact has_of_expr? g.tested_eq
  · exact has_of_expr? g.null_eq
  · exact has_of_expr? g.test_eq
  · exact has_of_expr? g.check_eq
  · exact has_of_expr? g.value_eq
  · exact g.toReport.has n hn

theorem BodyGuard.has (g : BodyGuard w q span getter receiver field ty name) : ∀ n ∈ g.nodes, q.Has n := by
  intro n hn
  simp only [nodes, List.map_append, List.map_cons, List.map_nil, List.mem_cons, List.mem_append, List.not_mem_nil,
    or_false, List.cons_append] at hn
  rcases hn with rfl | (hn | rfl | rfl | rfl | rfl | rfl | rfl | rfl | rfl | rfl) | hn
  · exact has_of_decl? g.held_eq
  · obtain ⟨t, ht, rfl⟩ := List.mem_map.1 hn
    obtain ⟨r, ty, -, he⟩ := g.this_eq.expr? (Option.mem_toList.1 ht)
    exact has_of_expr? he
  · exact has_of_expr? g.current_eq
  · exact has_of_expr? g.declaration_eq
  · exact has_of_expr? g.tested_eq
  · exact has_of_expr? g.null_eq
  · exact has_of_expr? g.test_eq
  · exact has_of_expr? g.result_eq
  · exact has_of_expr? g.success_eq
  · exact has_of_expr? g.choice_eq
  · exact has_of_expr? g.body_eq
  · exact g.toReport.has n hn

theorem Presence.has (g : Presence q span field subject ty) : ∀ n ∈ g.nodes, q.Has n := by
  intro n hn
  simp only [nodes, List.map_cons, List.map_nil, List.mem_cons, List.not_mem_nil, or_false] at hn
  rcases hn with rfl | rfl
  · exact has_of_expr? g.value_eq
  · exact has_of_expr? g.null_eq

/-! ## Guards in a program that has changed elsewhere -/

/-- A report in another program that has its nodes. -/
def Report.carry (r : Report w q span name) (h : ∀ n ∈ r.nodes, q.SameAt q' n) : Report w q' span name where
  failure := r.failure
  args := r.args
  failure_eq := (h (.expr r.failure) (by simp [nodes])).trans r.failure_eq
  args_eq a ha := (h (.expr a) (by simp [nodes, ha])).trans (r.args_eq a ha)
  length_args := r.length_args

/-- A guard in another program that has its nodes. -/
def ReadGuard.carry (g : ReadGuard w q span x ty name) (h : ∀ n ∈ g.nodes, q.SameAt q' n) :
    ReadGuard w q' span x ty name where
  toReport := g.toReport.carry fun n hn => h n (List.mem_append_right _ hn)
  tested := g.tested
  null := g.null
  test := g.test
  check := g.check
  value := g.value
  tested_eq := (h (.expr g.tested) (by simp [nodes])).trans g.tested_eq
  null_eq := (h (.expr g.null) (by simp [nodes])).trans g.null_eq
  test_eq := (h (.expr g.test) (by simp [nodes])).trans g.test_eq
  check_eq := (h (.expr g.check) (by simp [nodes])).trans g.check_eq
  value_eq := (h (.expr g.value) (by simp [nodes])).trans g.value_eq

/-- A guarded body in another program that has its nodes. -/
def BodyGuard.carry (g : BodyGuard w q span getter receiver field ty name) (h : ∀ n ∈ g.nodes, q.SameAt q' n) :
    BodyGuard w q' span getter receiver field ty name where
  toReport := g.toReport.carry fun n hn => h n (List.mem_append_right _ hn)
  this := g.this
  current := g.current
  held := g.held
  heldName := g.heldName
  declaration := g.declaration
  tested := g.tested
  null := g.null
  test := g.test
  result := g.result
  success := g.success
  choice := g.choice
  body := g.body
  this_eq := by
    have hthis := g.this_eq
    cases receiver with
    | none => exact hthis
    | some r =>
      obtain ⟨t, ty, ht, he⟩ := hthis
      exact ⟨t, ty, ht, (h (.expr t) (by simp [nodes, ht])).trans he⟩
  current_eq := (h (.expr g.current) (by simp [nodes])).trans g.current_eq
  held_eq := (h (.decl g.held) (by simp [nodes])).trans g.held_eq
  declaration_eq := (h (.expr g.declaration) (by simp [nodes])).trans g.declaration_eq
  tested_eq := (h (.expr g.tested) (by simp [nodes])).trans g.tested_eq
  null_eq := (h (.expr g.null) (by simp [nodes])).trans g.null_eq
  test_eq := (h (.expr g.test) (by simp [nodes])).trans g.test_eq
  result_eq := (h (.expr g.result) (by simp [nodes])).trans g.result_eq
  success_eq := (h (.expr g.success) (by simp [nodes])).trans g.success_eq
  choice_eq := (h (.expr g.choice) (by simp [nodes])).trans g.choice_eq
  body_eq := (h (.expr g.body) (by simp [nodes])).trans g.body_eq

/-- What takes the place of a query, in another program that has its nodes. -/
def Presence.carry (g : Presence q span field subject ty) (h : ∀ n ∈ g.nodes, q.SameAt q' n) :
    Presence q' span field subject ty where
  value := g.value
  null := g.null
  value_eq := (h (.expr g.value) (by simp [nodes])).trans g.value_eq
  null_eq := (h (.expr g.null) (by simp [nodes])).trans g.null_eq

end DeferredInit
