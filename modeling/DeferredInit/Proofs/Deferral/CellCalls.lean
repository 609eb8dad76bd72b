import DeferredInit.Proofs.Deferral.Cells
import DeferredInit.Proofs.Deferral.Kept
import DeferredInit.Proofs.Machine.Memory

/-!
# What the functions of a cell do

In a program of deferred properties the reference calls a getter, a setter or a query on what is in memory alone: a
getter reads the cell and reports an access before initialization if it holds null (`get_run`), a setter stores into
it (`set_run`), a query reads it and says whether it holds anything but null (`ask_run`), and to make an object
stores nothing (`construct_run`).  Which cell that is depends on the property and, unless the property is static, on
the object (`place`).
-/

namespace DeferredInit

open Program Reference

variable {w : Lowering} {m : Machine} {n : Nat} {s : State}

/-! ## Receivers and parameters -/

/-- What receivers and parameters of a function hold when it is called. -/
theorem Machine.get?_arguments {f : FunctionDecl} (hextension : f.extensionReceiver = none)
    (hnodup : (f.dispatchReceiver.toList ++ f.params).Nodup) {this : Option Value} {args : List Value}
    (harity : f.params.length = args.length) {asked : Asked} {x : DeclId} {v : Value}
    (hx : asked.among f.dispatchReceiver f.params = some x) (hv : asked.among this args = some v) :
    (arguments f this none args).get? x = some v := by
  refine Table.get?_ofList (hnodup.sublist ?_) ?_
  · rw [List.map_append, List.map_fst_zip (Nat.le_of_eq harity)]
    refine List.Sublist.append ?_ (.refl _)
    rw [hextension]
    cases f.dispatchReceiver <;> cases this <;> simp
  · cases asked with
    | nothing => cases hx
    | this =>
      obtain rfl : this = some v := hv
      refine List.mem_append_left _ ?_
      simp [show f.dispatchReceiver = some x from hx]
    | parameter i =>
      refine List.mem_append_right _ (List.mem_of_getElem? (i := i) ?_)
      rw [List.getElem?_zip_eq_some]
      exact ⟨hx, hv⟩

namespace Program.IsFunction

variable {p : Program} {f : DeclId} {receiver property : Option DeclId} {params : List DeclId} {body : ExprId}

/-- The receiver and the parameters of a function are all different. -/
theorem nodup (hf : p.IsFunction f receiver params body property) (hforest : p.IsForest)
    (hreach : p.Reachable (.decl f)) : (receiver.toList ++ params).Nodup := by
  obtain ⟨F, returnType, hF, hform⟩ := hf.decl?
  have h := (enclosed_nodes hforest).kids_nodup ((mem_nodes_iff hforest).2 hreach)
  rw [kids_decl hF, hform, DeclForm.owned] at h
  have h := h.of_append_left.of_map
  simpa [DeclForm.ownedDecls] using h

/-- Whatever the function asks of is one of its parameters, or its receiver. -/
theorem isParameter (hf : p.IsFunction f receiver params body property) {asked : Asked} {x : DeclId}
    (hx : asked.among receiver params = some x) : p.IsParameter x := by
  cases asked with
  | nothing => cases hx
  | this => exact hf.receiver x hx
  | parameter i => exact hf.params x (List.mem_of_getElem? hx)

theorem mem_entrances (hf : p.IsFunction f receiver params body property) (hforest : p.IsForest)
    (hreach : p.Reachable (.decl f)) : body ∈ p.entrances := by
  obtain ⟨F, returnType, hF, hform⟩ := hf.decl?
  exact Lowering.mem_entrances_iff.2 ⟨f, F, (mem_nodes_iff hforest).2 hreach, hF, by simp [hform, DeclForm.ownedExprs]⟩

end Program.IsFunction

/-! ## Accessors -/

/-- What the reference guards belongs to a property, and to no other declaration. -/
theorem Program.owner_of_guardedField? {p : Program} (hp : p.IsForest) {n : NodeId} {f field : DeclId} {name : String}
    (hn : p.Reachable n) (hf : .decl f ∈ p.kids n) (h : p.guardedField? f = some (field, name)) :
    ∃ d D r F, n = .decl d ∧ p.decl? d = some D ∧ D.form = .property r ∧ r.getter = some f ∧
      r.backingField = some field ∧ p.decl? field = some F ∧ F.name = name := by
  obtain ⟨d, D, r, F, hd, hD, hr, -, -, hgetter, hfield, hF, hname⟩ := Lowering.guardedField?_eq_some h
  have hkid : NodeId.decl f ∈ p.kids (.decl d) := by
    simp [kids_decl hD, hr, DeclForm.owned, DeclForm.ownedDecls, hgetter]
  exact ⟨d, D, r, F, (enclosed_nodes hp).owner_unique ((mem_nodes_iff hp).2 hn) hd hf hkid, hD, hr, hgetter, hfield, hF,
    hname⟩

namespace Program.HasCell

variable {p : Program} {x : Cell} (hx : p.HasCell x) (hp : p.IsForest)
include hx

theorem reachable : p.Reachable (.decl x.property) := hx.attached.reachable

theorem getter_mem_kids : .decl x.getter ∈ p.kids (.decl x.property) := by
  obtain ⟨D, r, hD, -, -, hr, -, hgetter, -⟩ := hx.property
  simp [kids_decl hD, hr, DeclForm.owned, DeclForm.ownedDecls, hgetter]

theorem setter_mem_kids : .decl x.setter ∈ p.kids (.decl x.property) := by
  obtain ⟨D, r, hD, -, -, hr, -, -, hsetter⟩ := hx.property
  simp [kids_decl hD, hr, DeclForm.owned, DeclForm.ownedDecls, hsetter]

theorem reachable_getter : p.Reachable (.decl x.getter) := .owned hx.reachable hx.getter_mem_kids

theorem reachable_setter : p.Reachable (.decl x.setter) := .owned hx.reachable hx.setter_mem_kids

include hp

/-- **The reference guards the getter**, with the field and the name of the property. -/
theorem guardedField?_getter : p.guardedField? x.getter = some (x.field, x.name) := by
  obtain ⟨D, r, hD, hdef, hfake, hr, hfield, hgetter, -⟩ := hx.property
  obtain ⟨F, content, hF, hname, -⟩ := hx.field
  cases h : p.guardedField? x.getter with
  | none =>
    have hnone := List.findSome?_eq_none_iff.1 h _ ((mem_nodes_iff hp).2 hx.reachable)
    simp [hD, hr, DeclForm.property?, hdef, hfake, hgetter, hfield, hF] at hnone
  | some found =>
    -- a forest has one owner for the getter, so the property that was found is this one
    obtain ⟨d, D', r', F', hd, hD', hr', -, hfield', hF', hname'⟩ :=
      owner_of_guardedField? hp hx.reachable hx.getter_mem_kids h
    cases hd
    rw [hD] at hD'
    obtain rfl := Option.some.inj hD'
    obtain rfl := DeclForm.property.inj (hr.symm.trans hr')
    rw [hfield] at hfield'
    obtain hfield' := Option.some.inj hfield'
    rw [← hfield', hF] at hF'
    obtain rfl := Option.some.inj hF'
    rw [hfield', ← hname, hname']

/-- It leaves the setter alone. -/
theorem guardedField?_setter : p.guardedField? x.setter = none := by
  obtain ⟨D, r, hD, -, -, hr, -, hgetter, hsetter⟩ := hx.property
  rw [Option.eq_none_iff_forall_ne_some]
  rintro ⟨field, name⟩ h
  obtain ⟨d, D', r', -, hd, hD', hr', hgetter', -⟩ := owner_of_guardedField? hp hx.reachable hx.setter_mem_kids h
  cases hd
  rw [hD] at hD'
  obtain rfl := Option.some.inj hD'
  obtain rfl := DeclForm.property.inj (hr.symm.trans hr')
  have hnodup := (enclosed_nodes hp).kids_nodup ((mem_nodes_iff hp).2 hx.reachable)
  rw [kids_decl hD, hr, DeclForm.owned] at hnodup
  have hnodup := hnodup.of_append_left.of_map
  rw [hgetter] at hgetter'
  rw [DeclForm.ownedDecls, List.append_assoc, hgetter, hsetter, Option.some.inj hgetter'] at hnodup
  exact absurd hnodup.of_append_right (by simp)

end Program.HasCell

/-- The reference leaves a function alone that is outermost or a member of a class. -/
theorem Program.Attached.guardedField? {p : Program} (hp : p.IsForest) {k : DeclId} (hk : p.Attached k) :
    p.guardedField? k = none := by
  rw [Option.eq_none_iff_forall_ne_some]
  rintro ⟨field, name⟩ h
  rcases hk with hk | ⟨o, C, c, hreach, hC, hc, hk⟩
  · obtain ⟨d, D, r, -, hd, hD, hr, -, -, hgetter, -⟩ := Lowering.guardedField?_eq_some h
    have hkid : NodeId.decl k ∈ p.kids (.decl d) := by
      simp [kids_decl hD, hr, DeclForm.owned, DeclForm.ownedDecls, hgetter]
    exact (enclosed_nodes hp).not_mem_kids (List.mem_map_of_mem hk) hd hkid
  · have hkid : NodeId.decl k ∈ p.kids (.decl o) := by
      simp [kids_decl hC, hc, DeclForm.owned, DeclForm.ownedDecls, hk]
    obtain ⟨d, D, r, -, hd, hD, hr, -⟩ := owner_of_guardedField? hp hreach hkid h
    cases hd
    rw [hC] at hD
    obtain rfl := Option.some.inj hD
    rw [hc] at hr
    cases hr

/-! ## Nodes -/

namespace Reference

theorem eval_form {e : ExprId} {form : ExprForm} (he : m.program.form? e = some form)
    (hform : w.queried? m.program form = none) : (semantics w m).eval (n + 1) e =
      (operations w m ((semantics w m).eval n)).evalNode ((semantics w m).eval n) form := by
  obtain ⟨E, hE, rfl⟩ := Option.map_eq_some_iff.1 he
  show node w m ((semantics w m).eval n) e = _
  simp only [node, Machine.expr, hE, pure_bind, hform]

/-- A parameter is no deferred variable. -/
theorem getValue_parameter {x : DeclId} (hx : m.program.IsParameter x) {v : Value} (h : s.local? x = some v) :
    getValue w m x s = .ok v s := by
  obtain ⟨X, content, hX, hcontent⟩ := hx
  have hdef : X.isDeferredVariable = false := by simp [Decl.isDeferredVariable, hcontent, DeclForm.var?]
  simp only [getValue, Machine.decl, hX, pure_bind, hdef, Bool.false_eq_true, if_false, bind_pure]
  exact m.getValue_of_local? h

/-- **A function has been called** in a state: its receiver and its parameters hold what it was called with, and
nothing else has happened yet. -/
structure Called (s : State) (receiver : Option DeclId) (params : List DeclId) (this : Option Value)
    (args : List Value) (s₁ : State) : Prop where
  frames : s₁.frames.tail = s.frames
  memory : s₁.memory = s.memory
  locals : ∀ (asked : Asked) x v, asked.among receiver params = some x → asked.among this args = some v →
    s₁.local? x = some v

/-- The receiver that something is called or accessed of, if it has one. -/
def received {α : Type} (receiver : Option α) (this : Option Value) : Option Value :=
  if receiver.isSome then this else none

theorem received_some {α : Type} (a : α) (this : Option Value) : received (some a) this = this := rfl

section Calls

variable {receiver property : Option DeclId} {params : List DeclId} {this : Option Value} {args : List Value}
variable {s₁ : State}

/-- **A call** is what the body does once the function has been called. -/
theorem invoke_run {eval : ExprId → EvalM Value} {f : DeclId} {body : ExprId} (run : EvalM Value)
    {outcome : Except RuntimeFault Value} {μ : Memory} (hp : m.program.IsForest)
    (hf : m.program.IsFunction f receiver params body property) (hreach : m.program.Reachable (.decl f))
    (harity : params.length = args.length) (hdepth : s.frames.length < m.maxDepth)
    (hbody : ∀ F : FunctionDecl, F.dispatchReceiver = receiver → F.body = some body →
      Reference.body w m eval f F = some run)
    (hrun : ∀ s₁, Called s receiver params this args s₁ →
      ∃ t, Machine.Finishes f (run s₁) (outcome, t) ∧ t.frames = s₁.frames ∧ t.memory = μ) :
    ∃ t, invoke w m eval f this none args s = Answer.result (outcome, t) ∧ t.frames = s.frames ∧ t.memory = μ := by
  obtain ⟨D, returnType, hD, hform⟩ := hf.decl?
  have hnodup := hf.nodup hp hreach
  let F : FunctionDecl := { returnType, params, dispatchReceiver := receiver, body := some body, property }
  obtain ⟨t, hfinishes, hframes, hmemory⟩ := hrun (s.enter ⟨f, Machine.arguments F this none args⟩)
    ⟨rfl, rfl, fun asked x v hx hv => Machine.get?_arguments (f := F) rfl hnodup harity hx hv⟩
  refine ⟨t.leave, m.invokeWith_run hdepth hD hform harity (hbody _ rfl rfl) hfinishes, ?_, hmemory⟩
  rw [State.leave, hframes]
  rfl

variable (h : Called s receiver params this args s₁)
include h

/-- What is read to get at something that the function was called with. -/
theorem Called.evalThis_run (asked : Asked) {subject : Option ExprId}
    (hsubject : m.program.ReadsThis (asked.among receiver params) subject)
    {f : DeclId} {body : ExprId} (hf : m.program.IsFunction f receiver params body property)
    (hthere : (asked.among receiver params).isSome = true → (asked.among this args).isSome = true) :
    Operations.evalOption ((semantics w m).eval (n + 1)) subject s₁ =
      .ok (received (asked.among receiver params) (asked.among this args)) s₁ := by
  cases hx : asked.among receiver params with
  | none =>
    rw [hx] at hsubject
    obtain rfl : subject = none := by simpa [ReadsThis] using hsubject
    rfl
  | some x =>
    obtain ⟨v, hv⟩ := Option.isSome_iff_exists.1 (hthere (by simp [hx]))
    rw [hx] at hsubject
    obtain ⟨t, rfl, ht⟩ : ∃ t, subject = some t ∧ m.program.form? t = some (.getValue x) := by
      simpa [ReadsThis] using hsubject
    have heval : (semantics w m).eval (n + 1) t s₁ = .ok v s₁ := by
      rw [eval_form ht rfl]
      exact getValue_parameter (hf.isParameter hx) (h.locals asked x v hx hv)
    simp only [Operations.evalOption, Functor.map, EStateM.map, heval, hv, received_some]

theorem Called.loadReceived_eq {field : DeclId} {enter : ExprId → EvalM Value}
    (hthere : receiver.isSome = true → this.isSome = true) :
    m.loadReceived enter receiver field s₁ = m.loadField enter field (received receiver this) s₁ := by
  cases hr : receiver with
  | none => rfl
  | some r =>
    obtain ⟨v, rfl⟩ := Option.isSome_iff_exists.1 (hthere (by simp [hr]))
    have hv := h.locals .this r v hr rfl
    simp only [Machine.loadReceived, bind, EStateM.bind, Functor.map, EStateM.map, m.getValue_of_local? hv,
      received_some]

end Calls

end Reference

/-! ## Cells -/

/-- **Whether a cell can be accessed** of a receiver, where there are these objects: a member of a class has a receiver,
and what is not static is kept in an object. -/
def Cell.Accepts (x : Cell) (objects : List ObjectRef) (this : Option Value) : Prop :=
  (x.isMember = true → this.isSome = true) ∧ (x.isStatic = false → ∃ o ∈ objects, this = some (.object o))

theorem Cell.Accepts.received {p : Program} {x : Cell} {objects : List ObjectRef} {this : Option Value}
    (h : x.Accepts objects this) (hx : p.HasCell x) {α : Type} {receiver : Option α}
    (hr : receiver.isSome = x.isMember) :
    (x.isStatic = false → ∃ o ∈ objects, Reference.received receiver this = some (.object o)) ∧
      place x.isStatic (Reference.received receiver this) = place x.isStatic this := by
  cases receiver with
  | none => simp [hx.static hr.symm, place]
  | some a => exact ⟨h.2, rfl⟩

namespace Reference

/-- What is observed where a value is stored: the value, or an access before initialization. -/
def observed (w : Lowering) (name : String) (v : Value) : Except RuntimeFault Value :=
  if v.isNull then .error (uninitialized w name) else .ok v

section

variable {classes : List DeclId} {cells : List Cell} {queries : List Query} {x : Cell} {objects : List ObjectRef}
variable {this : Option Value} (hi : Inventory w.intrinsics.isInitializedGetter m.program classes cells queries)

/-- A cell is read by whatever has been called. -/
theorem load_run {s₁ : State} (hx : m.program.HasCell x) (haccepts : x.Accepts objects this) {α : Type}
    {receiver : Option α} (hr : receiver.isSome = x.isMember) (hmemory : s₁.memory = s.memory)
    (enter : ExprId → EvalM Value) :
    ∃ t, m.loadField enter x.field (received receiver this) s₁ = .ok (s.cell x.field (place x.isStatic this)) t ∧
      t.frames = s₁.frames ∧ t.memory = s.memory.read := by
  obtain ⟨F, content, hF, -, hstatic, hcontent, hinit, -⟩ := hx.field
  obtain ⟨hobject, hplace⟩ := haccepts.received hx hr
  obtain ⟨t, hload, hframes, hread⟩ := m.loadField_run enter hF (by simp [hcontent, DeclForm.field?, hinit])
    (fun hs => (hobject (hstatic ▸ hs)).imp fun _ ho => ho.2) s₁
  have hcell : s₁.cell = s.cell := congrArg Memory.cell hmemory
  rw [hstatic, hplace, hcell] at hload
  exact ⟨t, hload, hframes, by rw [hread, hmemory]⟩

variable (hdepth : s.frames.length < m.maxDepth)
include hi hdepth

/-- **The getter** reads the cell. -/
theorem get_run (hx : x ∈ cells) (haccepts : x.Accepts objects this) (eval : ExprId → EvalM Value) :
    ∃ t, invoke w m eval x.getter this none [] s =
        Answer.result (observed w x.name (s.cell x.field (place x.isStatic this)), t) ∧
      t.frames = s.frames ∧ t.memory = s.memory.read := by
  have hcell := hi.cell x hx
  obtain ⟨receiver, body, hf, hr⟩ := hcell.getter
  refine invoke_run (readProperty w m eval x.getter receiver x.field x.name) hi.forest hf hcell.reachable_getter
    rfl hdepth (fun F hF _ => ?_) fun s₁ hcalled => ?_
  · simp only [Reference.body, hcell.guardedField?_getter hi.forest, hF]
  · obtain ⟨t, hload, hframes, hmemory⟩ := load_run hcell haccepts hr hcalled.memory (m.program.inside eval)
    refine ⟨t, ?_, hframes, hmemory⟩
    have hthere : receiver.isSome = true → this.isSome = true := fun h => haccepts.1 (hr ▸ h)
    simp only [readProperty, bind, EStateM.bind, hcalled.loadReceived_eq hthere, hload, assigned, observed]
    cases (s.cell x.field (place x.isStatic this)).isNull with
    | true => exact .fault _ _
    | false => exact .ret _ _

/-- **The setter** stores into the cell. -/
theorem set_run (hx : x ∈ cells) (haccepts : x.Accepts objects this)
    (hobjects : ∀ o ∈ objects, o.serial < s.objects.size) (v : Value) :
    ∃ t, invoke w m ((semantics w m).eval (n + 3)) x.setter this none [v] s = Answer.result (.ok .unit, t) ∧
      t.frames = s.frames ∧ t.memory = s.memory.store x.field (place x.isStatic this) v := by
  have hcell := hi.cell x hx
  obtain ⟨F, content, hF, -, hstatic, -⟩ := hcell.field
  obtain ⟨receiver, value, body, hf, hr, store, subject, newValue, hbody, hstore, hvalue, hsubject⟩ := hcell.setter
  obtain ⟨hobject, hplace⟩ := haccepts.received hcell hr
  refine invoke_run ((semantics w m).eval (n + 3) body) hi.forest hf hcell.reachable_setter rfl hdepth
    (fun F _ hF => ?_) fun s₁ hcalled => ?_
  · simp only [Reference.body, hcell.guardedField?_setter hi.forest, hF, Option.map_some, inside,
      if_pos (hf.mem_entrances hi.forest hcell.reachable_setter)]
  · have hsize : s₁.objects.size = s.objects.size := congrArg Memory.objects hcalled.memory
    obtain ⟨t, hstored, hframes, hmemory⟩ := m.storeField_run (s := s₁) hF (received receiver this) v
      fun h => by
        obtain ⟨o, ho, hthis⟩ := hobject (hstatic ▸ h)
        exact ⟨o, hthis, hsize ▸ hobjects o ho⟩
    have hthis := hcalled.evalThis_run (w := w) (n := n) .this hsubject hf
      fun h => haccepts.1 (hr ▸ h)
    have hnew : (semantics w m).eval (n + 1) newValue s₁ = .ok v s₁ := by
      rw [eval_form hvalue rfl]
      exact getValue_parameter (hf.params value List.mem_cons_self) (hcalled.locals (.parameter 0) value v rfl rfl)
    have hstep : (semantics w m).eval (n + 2) store s₁ = .ok .unit t := by
      rw [eval_form hstore rfl]
      simp only [Operations.evalNode, bind, EStateM.bind, hthis, hnew]
      show (m.storeField x.field (received receiver this) v >>= fun _ => pure .unit : EvalM Value) s₁ = _
      simp only [bind, EStateM.bind, hstored]
      rfl
    refine ⟨t, ?_, hframes, ?_⟩
    · rw [eval_form hbody rfl]
      simp only [Operations.evalNode, Operations.evalBlock, bind, EStateM.bind, hstep]
      exact .value _ _
    · rw [hmemory, hcalled.memory, hstatic, hplace]

/-- **A query** reads the cell and says whether it holds anything but null. -/
theorem ask_run {query : Query} (hquery : query ∈ queries) {args : List Value} (harity : args.length = query.arity)
    (haccepts : query.cell.Accepts objects (query.asked.among this args)) :
    ∃ t, invoke w m ((semantics w m).eval (n + 4)) query.function this none args s =
        Answer.result (.ok (.bool
          !(s.cell query.cell.field (place query.cell.isStatic (query.asked.among this args))).isNull), t) ∧
      t.frames = s.frames ∧ t.memory = s.memory.read := by
  obtain ⟨hx, hfunction, hattached⟩ := hi.query query hquery
  have hcell := hi.cell _ hx
  obtain ⟨D, r, hD, -, -, hr, hfield, -⟩ := hcell.property
  obtain ⟨receiver, params, body, hf, hparams, hasked, hreturns⟩ := hfunction
  obtain ⟨result, call, reference, subject, hbody, hresult, hcall, href, hsubject⟩ := hreturns
  refine invoke_run ((semantics w m).eval (n + 4) body) hi.forest hf hattached.reachable
    (hparams.trans harity.symm) hdepth (fun F _ hF => ?_) fun s₁ hcalled => ?_
  · simp only [Reference.body, hattached.guardedField? hi.forest, hF, Option.map_some, inside,
      if_pos (hf.mem_entrances hi.forest hattached.reachable)]
  · obtain ⟨t, hload, hframes, hmemory⟩ := load_run hcell haccepts hasked hcalled.memory
      (m.program.inside ((semantics w m).eval (n + 1)))
    -- the value is the same whatever is read to get at it; the steps below only pass it on
    generalize s.cell query.cell.field (place query.cell.isStatic (query.asked.among this args)) = v at hload ⊢
    have hthis := hcalled.evalThis_run (w := w) (n := n) query.asked hsubject hf fun h => haccepts.1 (hasked ▸ h)
    have hanswer : (semantics w m).eval (n + 2) call s₁ = .ok (.bool !v.isNull) t := by
      obtain ⟨E, hE, hEform⟩ := Option.map_eq_some_iff.1 hcall
      obtain ⟨N, hN, hNform⟩ := Option.map_eq_some_iff.1 href
      show node w m ((semantics w m).eval (n + 1)) call s₁ = _
      simp only [node, Machine.expr, hE, pure_bind, Lowering.queried?_eq hEform hN hNform hD hr hfield]
      simp only [Reference.query, bind, EStateM.bind, hthis, hload]
      rfl
    have hret : (semantics w m).eval (n + 3) result s₁ = .error (.ret query.function (.bool !v.isNull)) t := by
      rw [eval_form hresult rfl]
      simp only [Operations.evalNode, Operations.evalOption, bind, EStateM.bind, Functor.map, EStateM.map, hanswer]
      rfl
    refine ⟨t, ?_, hframes, hmemory⟩
    rw [eval_form hbody rfl]
    simp only [Operations.evalNode, Operations.evalBlock, bind, EStateM.bind, hret]
    exact .ret _ _

omit hdepth in
/-- **An object is made** that nothing has been stored in. -/
theorem construct_run {cls : DeclId} (hcls : cls ∈ classes) :
    ∃ t, (semantics w m).construct n cls s = Answer.result (.ok (.object ⟨s.objects.size, some cls⟩), t) ∧
      t.frames = s.frames ∧ t.memory = s.memory.add := by
  obtain ⟨-, C, c, hC, hc, hmembers⟩ := hi.cls cls hcls
  have hempty : ∀ k ∈ c.members, m.StartsEmpty k := by
    intro k hk
    rcases hmembers k hk with ⟨x, hx, rfl⟩ | ⟨F, f, hF, hf⟩
    · obtain ⟨D, r, hD, -, -, hr, hfield, -⟩ := (hi.cell x hx).property
      obtain ⟨F, content, hF, -, -, hcontent, hinit, -⟩ := (hi.cell x hx).field
      exact .property hD hr hfield hF (by simp [hcontent, DeclForm.field?, hinit])
    · exact .function hF hf
  obtain ⟨t, hmade, hframes, hmemory⟩ :=
    Machine.instantiate_run (m.program.inside ((semantics w m).eval n)) hC hc hempty s
  refine ⟨t, ?_, hframes, hmemory⟩
  have hmade : (semantics w m).instantiate ((semantics w m).eval n) cls s = _ := hmade
  simp only [Semantics.construct, hmade, Answer.result]

end

end Reference

end DeferredInit
