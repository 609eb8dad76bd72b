import DeferredInit.Proofs.Machine.Recorded

/-!
# What nodes have from their parts

Much of what is true of recorded evaluations is true of them because it is true of their parts.  A property of
computations is `Compositional` if it goes on from one computation to the next, if a `return` has it, and if it does not
mind computations that have nothing to do with calls or static fields (`Detached`).  A node has such a property if what
it starts has it, and so do its call and its access to a static field (`Compositional.node`).
-/

namespace DeferredInit

open Recorded (IsStray)

namespace Program

variable (p : Program)

/-- A node reads a field or stores into it. -/
def Accesses (e : ExprId) (field : DeclId) : Prop :=
  ∃ E, p.expr? e = some E ∧ ((∃ receiver, E.form = .getField field receiver) ∨
    ∃ receiver value, E.form = .setField field receiver value)

/-- A node calls the function that has this body. -/
def Calls (e body : ExprId) : Prop :=
  ∃ E function dispatch extension args D f, p.expr? e = some E ∧
    E.form = .call (.declared function) dispatch extension args ∧ p.decl? function = some D ∧ D.form = .function f ∧
    f.body = some body

/-- Evaluating an expression may get to another, where calls of functions count. -/
def Reaches : ExprId → ExprId → Prop := Relation.ReflTransGen fun e c => p.Starts e c ∨ p.Calls e c

end Program

/-! ## Operations that have nothing to do with calls or static fields -/

/-- **A computation that has nothing to do with calls or static fields**: it leaves static fields as they are and the
functions running that are, and if it stops, that is not for a `return`. -/
def Detached {α : Type} (y : EvalM α) : Prop :=
  ∀ s, match y s with
    | .ok _ t => t.statics = s.statics ∧ t.running = s.running
    | .error u t => (t.statics = s.statics ∧ t.running = s.running) ∧ ∃ stop, u = Stop.unwind stop ∧ ¬IsStray stop

namespace Detached

variable {α β : Type} {y : EvalM α} {m : Machine}

theorem pure (a : α) : Detached (Pure.pure a) := fun _ => ⟨rfl, rfl⟩

theorem throw (stop : Stop RuntimeFault) (h : ¬IsStray stop) : Detached (throw stop.unwind : EvalM α) :=
  fun _ => ⟨⟨rfl, rfl⟩, stop, rfl, h⟩

theorem fail {f : RuntimeFault} (h : ¬IsStray (.fault f)) : Detached (EvalM.fail f : EvalM α) := throw (.fault f) h

theorem get : Detached (MonadState.get : EvalM State) := fun _ => ⟨rfl, rfl⟩

theorem modify {f : State → State} (h : ∀ s, (f s).statics = s.statics ∧ (f s).running = s.running) :
    Detached (modify f : EvalM Unit) := h

theorem bind (hy : Detached y) {f : α → EvalM β} (hf : ∀ a, Detached (f a)) : Detached (y >>= f) := by
  intro s
  have h := hy s
  simp only [Bind.bind, EStateM.bind]
  cases hys : y s with
  | ok a t =>
    rw [hys] at h
    obtain ⟨hstatics, hrunning⟩ := h
    have hnext := hf a t
    rwa [hstatics, hrunning] at hnext
  | error u t =>
    rw [hys] at h
    exact h

theorem decl (d : DeclId) : Detached (m.decl d) := by
  unfold Machine.decl
  cases m.program.decl? d with
  | some D => exact .pure D
  | none => exact .throw (.halt .dangling) nofun

theorem expr (e : ExprId) : Detached (m.expr e) := by
  unfold Machine.expr
  cases m.program.expr? e with
  | some E => exact .pure E
  | none => exact .throw (.halt .dangling) nofun

theorem countRead : Detached EvalM.countRead := modify fun _ => ⟨rfl, rfl⟩

theorem local? (d : DeclId) : Detached (EvalM.local? d) := get.bind fun s => by cases s.frames <;> exact .pure _

theorem setLocal (d : DeclId) (v : Value) : Detached (EvalM.setLocal d v) := by
  refine modify fun s => ?_
  cases hs : s.frames <;> simp [State.running, hs]

theorem newObject (cls : Option DeclId) (fields : Table DeclId Value) : Detached (EvalM.newObject cls fields) :=
  fun _ => ⟨rfl, rfl⟩

theorem instanceOf (D : Decl) (op : String) (receiver : Option Value) :
    Detached (Machine.instanceOf D op receiver) := by
  unfold Machine.instanceOf
  split
  · exact .pure _
  · exact .fail nofun
  · exact .fail nofun

theorem readField (D : Decl) (receiver : Option Value) (field : DeclId) :
    Detached (do EvalM.readField (← Machine.instanceOf D "field read" receiver) field) :=
  (instanceOf D _ receiver).bind fun _ => get.bind fun _ => .pure _

theorem writeField (D : Decl) (receiver : Option Value) (field : DeclId) (v : Value) :
    Detached (do EvalM.writeField (← Machine.instanceOf D "field write" receiver) field v) :=
  (instanceOf D _ receiver).bind fun _ => modify fun _ => ⟨rfl, rfl⟩

theorem storageOf (member : DeclId) : Detached (m.storageOf member) := by
  refine (decl member).bind fun D => ?_
  cases D.form <;> exact .pure _

theorem getValue (d : DeclId) : Detached (m.getValue d) := by
  refine (local? d).bind fun v => ?_
  cases v with
  | some v => exact .pure v
  | none => exact (decl d).bind fun D => .fail nofun

theorem truth (v : Value) : Detached (Machine.truth v) := by
  unfold Machine.truth
  split
  · exact .pure _
  · exact .fail nofun

theorem applyBinary (op : BinaryOp) (a b : Value) : Detached (Machine.applyBinary op a b) := by
  unfold Machine.applyBinary
  split
  all_goals first
    | exact .pure _
    | exact .fail nofun

theorem libraryFault (hash : SymbolHash) (args : List Value) :
    Detached (EvalM.fail (m.libraryFault hash args) : EvalM Value) := by
  refine .fail ?_
  rintro ⟨name, h⟩
  unfold Machine.libraryFault at h
  repeat' split at h
  all_goals exact absurd h nofun

end Detached

namespace Machine

variable {m : Machine} {s t : State}

/-- Only a declaration that is there is looked up. -/
theorem decl_eq_ok {d : DeclId} {D : Decl} (h : m.decl d s = .ok D t) : m.program.decl? d = some D := by
  unfold decl at h
  cases hD : m.program.decl? d <;> rw [hD] at h <;> cases h
  rfl

/-- Only an expression that is there is looked up. -/
theorem expr_eq_ok {e : ExprId} {E : Expr} (h : m.expr e s = .ok E t) : m.program.expr? e = some E := by
  unfold expr at h
  cases hE : m.program.expr? e <;> rw [hE] at h <;> cases h
  rfl

theorem storageOf_eq_ok {member : DeclId} {field : Option DeclId} (h : m.storageOf member s = .ok field t) :
    ∃ D, m.program.decl? member = some D ∧ D.form.storage? member = field := by
  simp only [storageOf, bind, EStateM.bind] at h
  cases hD : m.decl member s with
  | error u t' =>
    rw [hD] at h
    cases h
  | ok D t' =>
    refine ⟨D, decl_eq_ok hD, ?_⟩
    rw [hD] at h
    cases hform : D.form <;> simp only [hform] at h <;> cases h <;> rfl

end Machine

/-! ## Properties of recorded computations -/

/-- **A property of computations that the whole has if its parts do**, whatever these do apart from calls and static
fields. -/
structure Compositional (P : ∀ {α : Type}, LogM Entry Unwind α → Prop) : Prop where
  pure : ∀ {α : Type} (a : α), P (Pure.pure a : LogM Entry Unwind α)
  bind : ∀ {α β : Type} {x : LogM Entry Unwind α} {f : α → LogM Entry Unwind β}, P x → (∀ a, P (f a)) → P (x >>= f)
  /-- What comes next has to have the property for those values only that there may be. -/
  lift_bind : ∀ {α β : Type} {y : EvalM α} {f : α → LogM Entry Unwind β}, Detached y →
    (∀ a s t, y s = .ok a t → P (f a)) → P (liftM y >>= f)
  /-- A `return` is executed. -/
  returns : ∀ (f : DeclId) (v : Value),
    P (do LogM.record (.returns f v); throw (.ret f v) : LogM Entry Unwind Value)

namespace Compositional

variable {P : ∀ {α : Type}, LogM Entry Unwind α → Prop} (hP : Compositional P) {α β : Type}
include hP

theorem map {x : LogM Entry Unwind α} (hx : P x) (f : α → β) : P (f <$> x) := by
  rw [← bind_pure_comp]
  exact hP.bind hx fun a => hP.pure (f a)

theorem lift {y : EvalM α} (hy : Detached y) : P (liftM y : LogM Entry Unwind α) := by
  rw [← bind_pure (liftM y : LogM Entry Unwind α)]
  exact hP.lift_bind hy fun a _ _ _ => hP.pure a

/-! ## Operands -/

variable {m : Machine} {enter : ExprId → LogM Entry Unwind Value}

theorem evalOption {o : Option ExprId} (h : ∀ c ∈ o, P (enter c)) : P (Operations.evalOption enter o) := by
  cases o with
  | none => exact hP.pure none
  | some c => exact hP.map (h c rfl) some

theorem evalList {cs : List ExprId} (h : ∀ c ∈ cs, P (enter c)) : P (Operations.evalList enter cs) := by
  induction cs with
  | nil => exact hP.pure []
  | cons c rest ih =>
    have hrest := ih fun c' hc' => h c' (List.mem_cons_of_mem c hc')
    exact hP.bind (h c List.mem_cons_self) fun v => hP.bind hrest fun vs => hP.pure (v :: vs)

theorem evalBlock {cs : List ExprId} (h : ∀ c ∈ cs, P (enter c)) (last : Value) :
    P (Operations.evalBlock enter last cs) := by
  induction cs generalizing last with
  | nil => exact hP.pure last
  | cons c rest ih =>
    exact hP.bind (h c List.mem_cons_self) fun v => ih (fun c' hc' => h c' (List.mem_cons_of_mem c hc')) v

/-! ## Operations -/

theorem initField {member : DeclId}
    (h : ∀ D field, m.program.decl? member = some D → D.form.storage? member = some field → ∀ init,
      m.program.fieldInit? field = some init → P (enter init)) (fields : Table DeclId Value) :
    P (Recorded.initField m enter fields member) := by
  refine hP.lift_bind (.storageOf member) fun field s t hfield => ?_
  obtain ⟨D, hD, hstorage⟩ := Machine.storageOf_eq_ok hfield
  cases field with
  | none => exact hP.pure _
  | some field =>
    refine hP.lift_bind (.decl field) fun F s t hF => ?_
    cases hinit : F.form.field?.bind (·.initializer) with
    | none => exact hP.pure _
    | some init =>
      have hfieldInit : m.program.fieldInit? field = some init := by
        rw [Program.fieldInit?, Machine.decl_eq_ok hF, Option.bind_some, hinit]
      exact hP.bind (h D field hD hstorage init hfieldInit) fun v => hP.pure _

theorem instantiate {cls : DeclId} (h : ∀ field ∈ m.program.storage cls, ∀ init,
    m.program.fieldInit? field = some init → P (enter init)) : P (Recorded.instantiate m enter cls) := by
  refine hP.lift_bind (.decl cls) fun C s t hC => ?_
  have hC := Machine.decl_eq_ok hC
  cases hcls : C.form.cls? with
  | none =>
    refine hP.lift (.fail ?_)
    rintro ⟨name, hname⟩
    exact absurd hname (by simp)
  | some c =>
    have hmembers (members : List DeclId) (hsub : members ⊆ c.members) (fields : Table DeclId Value) :
        P (members.foldlM (Recorded.initField m enter) fields) := by
      induction members generalizing fields with
      | nil => exact hP.pure fields
      | cons member rest ih =>
        have hmember : member ∈ c.members := hsub List.mem_cons_self
        have hfield : P (Recorded.initField m enter fields member) :=
          hP.initField (fun D field hD hfield => h field (Program.mem_storage hC hcls hmember hD hfield)) fields
        exact hP.bind hfield fun fields => ih (fun k hk => hsub (List.mem_cons_of_mem _ hk)) fields
    exact hP.bind (hmembers c.members (fun _ h => h) ∅) fun fields => hP.lift (.newObject _ fields)

theorem declare {d : DeclId} (h : ∀ init, m.program.variableInit? d = some init → P (enter init)) :
    P (Recorded.declare m enter d) := by
  refine hP.lift_bind (.decl d) fun D s t hD => ?_
  cases hinit : D.form.var?.bind (·.initializer) with
  | none => exact hP.pure ()
  | some init =>
    have hvariableInit : m.program.variableInit? d = some init := by
      rw [Program.variableInit?, Machine.decl_eq_ok hD, Option.bind_some, hinit]
    exact hP.bind (h init hvariableInit) fun v => hP.lift (.setLocal d v)

theorem loadField {field : DeclId} (h : ∀ D, m.program.decl? field = some D → D.modifiers.isStatic = true →
    P (Recorded.staticField enter field D)) (receiver : Option Value) :
    P (Recorded.loadField m enter field receiver) := by
  refine hP.bind (hP.lift .countRead) fun _ => hP.lift_bind (.decl field) fun D s t hD => ?_
  split
  · next hstatic => exact h D (Machine.decl_eq_ok hD) hstatic
  · exact hP.lift (.readField D receiver field)

theorem storeField {field : DeclId} {v : Value}
    (h : P (do liftM (EvalM.writeStatic field v); LogM.record (.stores field v) : LogM Entry Unwind Unit))
    (receiver : Option Value) : P (Recorded.storeField m field receiver v) := by
  refine hP.bind (hP.lift (.decl field)) fun D => ?_
  split
  · exact h
  · exact hP.lift (.writeField D receiver field v)

/-! ## Nodes -/

/-- **A node has a property** if what it starts has it, and so do its call and what it does to a static field. -/
theorem node {e : ExprId} (hstarts : ∀ c, m.program.Starts e c → P (enter c))
    (hcall : ∀ function this extension args, (∀ D f body, m.program.decl? function = some D → D.form = .function f →
      f.body = some body → m.program.Calls e body) →
      P (LogM.evaluated (Recorded.invoke m enter function this extension args)))
    (hread : ∀ field D, m.program.Accesses e field → m.program.decl? field = some D → D.modifiers.isStatic = true →
      (∀ init, m.program.fieldInit? field = some init → P (enter init)) → P (Recorded.staticField enter field D))
    (hstore : ∀ field v, m.program.Accesses e field →
      P (do liftM (EvalM.writeStatic field v); LogM.record (.stores field v) : LogM Entry Unwind Unit)) :
    P (Recorded.node m enter e) := by
  refine hP.lift_bind (.expr e) fun E s t hE => ?_
  have hE := Machine.expr_eq_ok hE
  have hpart {c : ExprId} (hc : c ∈ E.form.children) : P (enter c) :=
    hstarts c (.part ((Program.mem_parts_iff hE).2 (.inl hc)))
  have hoption {o : Option ExprId} (ho : o.toList ⊆ E.form.children) : P (Operations.evalOption enter o) :=
    hP.evalOption fun c hc => hpart (ho (Option.mem_toList.2 hc))
  have hlist {cs : List ExprId} (hcs : cs ⊆ E.form.children) : P (Operations.evalList enter cs) :=
    hP.evalList fun c hc => hpart (hcs hc)
  have hinitial {field : DeclId} (hfield : field ∈ m.program.initializes E.form) (init : ExprId)
      (hinit : m.program.fieldInit? field = some init) : P (enter init) :=
    hstarts init (.initializer hE hfield hinit)
  cases hform : E.form <;> rw [hform] at hpart hoption hlist hinitial
  case const c => exact hP.pure _
  case getValue d => exact hP.lift (.getValue d)
  case setValue target value =>
    refine hP.bind (hpart (by simp [ExprForm.children])) fun v => ?_
    exact hP.bind (hP.lift (.setLocal target v)) fun _ => hP.pure _
  case declare d =>
    refine hP.bind (hP.declare fun init hinit => hstarts init (.part ?_)) fun _ => hP.pure _
    rw [Program.Contains, Program.mem_parts_iff hE, hform]
    exact .inr hinit
  case getField field receiver =>
    refine hP.bind (hoption (by simp [ExprForm.children])) fun this => hP.loadField (fun D hD hstatic => ?_) this
    have haccess : m.program.Accesses e field := ⟨E, hE, .inl ⟨receiver, hform⟩⟩
    exact hread field D haccess hD hstatic (hinitial (by simp [Program.initializes, hD, hstatic]))
  case setField field receiver value =>
    have haccess : m.program.Accesses e field := ⟨E, hE, .inr ⟨receiver, value, hform⟩⟩
    refine hP.bind (hoption (by simp [ExprForm.children])) fun this => ?_
    refine hP.bind (hpart (by simp [ExprForm.children])) fun v => ?_
    exact hP.bind (hP.storeField (hstore field v haccess) this) fun _ => hP.pure _
  case call callee dispatch extension args =>
    have hthis : P (Operations.evalOption enter dispatch) := hoption (by simp [ExprForm.children])
    have hext : P (Operations.evalOption enter extension) := hoption (by simp [ExprForm.children])
    have hargs : P (Operations.evalList enter args) := hlist (by simp [ExprForm.children])
    cases callee with
    | library hash =>
      exact hP.bind hthis fun _ => hP.bind hext fun _ => hP.bind hargs fun vs => hP.lift (.libraryFault hash vs)
    | declared function =>
      refine hP.bind hthis fun this => hP.bind hext fun ext => hP.bind hargs fun vs => ?_
      refine hcall function this ext vs fun D f body hD hf hbody => ?_
      exact ⟨E, function, dispatch, extension, args, D, f, hE, hform, hD, hf, hbody⟩
  case propertyRef property dispatch extension =>
    refine hP.bind (hoption ?_) fun _ => hP.pure _
    cases dispatch <;> simp [ExprForm.children]
  case block stmts => exact hP.evalBlock (fun c hc => hpart hc) .unit
  case cond condition thenBranch elseBranch =>
    refine hP.bind (hpart (by simp [ExprForm.children])) fun v => hP.bind (hP.lift (.truth v)) fun taken => ?_
    cases taken with
    | true => exact hpart (by simp [ExprForm.children])
    | false =>
      cases elseBranch with
      | none => exact hP.pure _
      | some c => exact hpart (by simp [ExprForm.children])
  case binary op lhs rhs =>
    refine hP.bind (hpart (by simp [ExprForm.children])) fun a => ?_
    exact hP.bind (hpart (by simp [ExprForm.children])) fun b => hP.lift (.applyBinary op a b)
  case ret function value => exact hP.bind (hoption (by simp [ExprForm.children])) fun v => hP.returns function _
  case construct cls => exact hP.instantiate fun field hfield => hinitial hfield

end Compositional

end DeferredInit
