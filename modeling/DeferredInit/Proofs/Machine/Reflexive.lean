import DeferredInit.Proofs.Machine.Semantics
import DeferredInit.Proofs.Program.Initialization

/-!
# Comparing a machine with itself

Two evaluators of the same program may differ in where they start, in how deep they go and in how many functions they
let run at once.  If a comparison finds the same faults alike, and what has nothing to do with frames
(`Comparison.Reflexive`), then all that a node can do ends alike as soon as the code does that it starts.  Left to each
comparison is what has to do with frames: reading a variable, giving it a value, and calls
(`Comparison.Reflexive.node`).
-/

namespace DeferredInit

/-- A machine that lets another number of functions run at once. -/
abbrev Machine.withLimit (m : Machine) (limit : Nat) : Machine := { m with maxDepth := limit }

/-! ## What has nothing to do with frames -/

/-- **A computation that has nothing to do with frames**, and comes to a value. -/
def Frameless {α : Type} (act : EvalM α) : Prop :=
  ∀ s : State, ∃ a t, act s = .ok a t ∧ t.frames = s.frames ∧
    ∀ fs, act { s with frames := fs } = .ok a { t with frames := fs }

namespace Frameless

theorem countRead : Frameless EvalM.countRead := fun _ => ⟨_, _, rfl, rfl, fun _ => rfl⟩

theorem static? (field : DeclId) : Frameless (EvalM.static? field) := fun _ => ⟨_, _, rfl, rfl, fun _ => rfl⟩

theorem writeStatic (field : DeclId) (v : Value) : Frameless (EvalM.writeStatic field v) :=
  fun _ => ⟨_, _, rfl, rfl, fun _ => rfl⟩

theorem readField (o : ObjectRef) (field : DeclId) : Frameless (EvalM.readField o field) :=
  fun _ => ⟨_, _, rfl, rfl, fun _ => rfl⟩

theorem writeField (o : ObjectRef) (field : DeclId) (v : Value) : Frameless (EvalM.writeField o field v) :=
  fun _ => ⟨_, _, rfl, rfl, fun _ => rfl⟩

theorem newObject (cls : Option DeclId) (fields : Table DeclId Value) : Frameless (EvalM.newObject cls fields) :=
  fun _ => ⟨_, _, rfl, rfl, fun _ => rfl⟩

end Frameless

namespace Comparison

/-- **A comparison in which a machine is like itself**, frames apart. -/
structure Reflexive (c : Comparison Unwind) : Prop where
  fault : ∀ f, c.error (.fault f) (.fault f)
  frameless : ∀ {α : Type} {act : EvalM α}, Frameless act → Tied c (· = ·) act act

/-- There is such a node, unless a dangling handle is found to be like itself. -/
def Known (c : Comparison Unwind) (p : Program) (n : NodeId) : Prop :=
  c.error (.halt .dangling) (.halt .dangling) ∨ p.Has n

variable {c : Comparison Unwind} {m : Machine}

theorem Known.decl {d : DeclId} (hd : c.Known m.program (.decl d)) :
    Tied c (fun D D' => D = D' ∧ m.program.decl? d = some D) (m.decl d) (m.decl d) := by
  unfold Machine.decl
  cases hD : m.program.decl? d with
  | some D => exact .pure ⟨rfl, rfl⟩
  | none => exact .throw (hd.resolve_right (Program.not_has_of_decl? hD))

theorem Known.expr {e : ExprId} (he : c.Known m.program (.expr e)) :
    Tied c (fun E E' => E = E' ∧ m.program.expr? e = some E) (m.expr e) (m.expr e) := by
  unfold Machine.expr
  cases hE : m.program.expr? e with
  | some E => exact .pure ⟨rfl, rfl⟩
  | none => exact .throw (he.resolve_right (Program.not_has_of_expr? hE))

theorem Known.storageOf {k : DeclId} (hk : c.Known m.program (.decl k)) :
    Tied c (fun field field' => field = field' ∧ ∃ D, m.program.decl? k = some D ∧ D.form.storage? k = field)
      (m.storageOf k) (m.storageOf k) := by
  refine .bind hk.decl fun D D' ⟨hDD', hD⟩ => ?_
  subst hDD'
  cases hform : D.form with
  | property q => exact .pure ⟨rfl, D, hD, by rw [hform]; rfl⟩
  | _ => exact .pure ⟨rfl, D, hD, by rw [hform]; rfl⟩

/-- In a closed program the declaration that a member keeps its content in exists. -/
theorem known_storage (hp : c.error (.halt .dangling) (.halt .dangling) ∨ m.program.Closed) {k field : DeclId}
    {D : Decl} (hD : m.program.decl? k = some D) (hfield : D.form.storage? k = some field) :
    c.Known m.program (.decl field) := by
  refine hp.imp_right fun hp => ?_
  cases hform : D.form with
  | property q =>
    rw [hform, DeclForm.storage?] at hfield
    exact hp.has_of_decl hD (by simp [hform, DeclForm.mentioned, hfield])
  | field content =>
    rw [hform, DeclForm.storage?] at hfield
    obtain rfl := Option.some.inj hfield
    exact Program.has_of_decl? hD
  | _ =>
    rw [hform] at hfield
    cases hfield

namespace Reflexive

variable (hc : c.Reflexive)
include hc

/-! ## Operations without operands of their own -/

theorem fail {α : Type} (f : RuntimeFault) : Tied c (· = ·) (EvalM.fail f : EvalM α) (EvalM.fail f) :=
  .throw (hc.fault f)

/-- A variable is read alike if it is looked up alike. -/
theorem getValue {d : DeclId} (hd : c.Known m.program (.decl d))
    (hlocal : Tied c (· = ·) (EvalM.local? d) (EvalM.local? d)) : Tied c (· = ·) (m.getValue d) (m.getValue d) := by
  refine .bind hlocal fun held held' hheld => ?_
  subst hheld
  cases held with
  | some v => exact .pure rfl
  | none =>
    refine .bind hd.decl fun D D' ⟨hDD', _⟩ => ?_
    subst hDD'
    exact hc.fail _

theorem instanceOf (D : Decl) (op : String) (receiver : Option Value) :
    Tied c (· = ·) (Machine.instanceOf D op receiver) (Machine.instanceOf D op receiver) := by
  unfold Machine.instanceOf
  split
  · exact .pure rfl
  · exact hc.fail _
  · exact hc.fail _

theorem storeField {field : DeclId} (hd : c.Known m.program (.decl field)) (receiver : Option Value) (v : Value) :
    Tied c (· = ·) (m.storeField field receiver v) (m.storeField field receiver v) := by
  refine .bind hd.decl fun D D' ⟨hDD', _⟩ => ?_
  subst hDD'
  split
  · exact hc.frameless (.writeStatic field v)
  · refine .bind (hc.instanceOf D _ receiver) fun o o' ho => ?_
    subst ho
    exact hc.frameless (.writeField o field v)

/-! ## Operations that enter other code -/

variable {enter₁ enter₂ : ExprId → EvalM Value}

theorem staticField {field : DeclId} {D : Decl} (hD : m.program.decl? field = some D)
    (henter : ∀ init, m.program.fieldInit? field = some init → Tied c (· = ·) (enter₁ init) (enter₂ init)) :
    Tied c (· = ·) (Machine.staticField enter₁ field D) (Machine.staticField enter₂ field D) := by
  refine .bind (hc.frameless (.static? field)) fun held held' hheld => ?_
  subst hheld
  have hstore (v v' : Value) (hv : v = v') : Tied c (· = ·)
      (do EvalM.writeStatic field v; return v) (do EvalM.writeStatic field v'; return v') := by
    subst hv
    exact .bind (hc.frameless (.writeStatic field v)) fun _ _ _ => .pure rfl
  cases held with
  | some v => exact .pure rfl
  | none =>
    cases hinit : D.form.field?.bind (·.initializer) with
    | none => exact .bind (.pure rfl) hstore
    | some init => exact .bind (henter init (by rw [Program.fieldInit?, hD, Option.bind_some, hinit])) hstore

theorem loadField {field : DeclId} (hd : c.Known m.program (.decl field)) (receiver : Option ExprId)
    (henter : ∀ f ∈ m.program.initializes (.getField field receiver), ∀ init, m.program.fieldInit? f = some init →
      Tied c (· = ·) (enter₁ init) (enter₂ init)) (this : Option Value) :
    Tied c (· = ·) (m.loadField enter₁ field this) (m.loadField enter₂ field this) := by
  refine .bind (hc.frameless .countRead) fun _ _ _ => .bind hd.decl fun D D' ⟨hDD', hD⟩ => ?_
  subst hDD'
  cases hstatic : D.modifiers.isStatic with
  | true =>
    simp only [if_true]
    exact hc.staticField hD (henter field (by simp [Program.initializes, hD, hstatic]))
  | false =>
    simp only [Bool.false_eq_true, if_false]
    refine .bind (hc.instanceOf D _ this) fun o o' ho => ?_
    subst ho
    exact hc.frameless (.readField o field)

omit hc in
theorem initField (hp : c.error (.halt .dangling) (.halt .dangling) ∨ m.program.Closed) {k : DeclId}
    (hk : c.Known m.program (.decl k))
    (henter : ∀ D field, m.program.decl? k = some D → D.form.storage? k = some field → ∀ init,
      m.program.fieldInit? field = some init → Tied c (· = ·) (enter₁ init) (enter₂ init))
    (fields : Table DeclId Value) :
    Tied c (· = ·) (m.initField enter₁ fields k) (m.initField enter₂ fields k) := by
  refine .bind hk.storageOf fun field field' ⟨heq, D, hD, hfield⟩ => ?_
  subst heq
  cases field with
  | none => exact .pure rfl
  | some field =>
    refine .bind (known_storage hp hD hfield).decl fun F F' ⟨hFF', hF⟩ => ?_
    subst hFF'
    cases hinit : F.form.field?.bind (·.initializer) with
    | none => exact .pure rfl
    | some init =>
      have hfieldInit : m.program.fieldInit? field = some init := by
        rw [Program.fieldInit?, hF, Option.bind_some, hinit]
      refine .bind (henter D field hD hfield init hfieldInit) fun v v' hv => ?_
      subst hv
      exact .pure rfl

/-- **An instance is made alike** if what its fields hold at first is evaluated alike. -/
theorem instantiate (hp : c.error (.halt .dangling) (.halt .dangling) ∨ m.program.Closed) {cls : DeclId}
    (hd : c.Known m.program (.decl cls))
    (henter : ∀ field ∈ m.program.storage cls, ∀ init, m.program.fieldInit? field = some init →
      Tied c (· = ·) (enter₁ init) (enter₂ init)) :
    Tied c (· = ·) (m.instantiate enter₁ cls) (m.instantiate enter₂ cls) := by
  refine .bind hd.decl fun C C' ⟨hCC', hC⟩ => ?_
  subst hCC'
  cases hcls : C.form.cls? with
  | none => exact hc.fail _
  | some members =>
    have hknown : ∀ k ∈ members.members, c.Known m.program (.decl k) := by
      intro k hk
      refine hp.imp_right fun hp => hp.has_of_decl hC ?_
      cases hform : C.form <;> simp_all [DeclForm.cls?, DeclForm.mentioned]
    have hcollect (some : List DeclId) (hsub : some ⊆ members.members) (fields : Table DeclId Value) :
        Tied c (· = ·) (some.foldlM (m.initField enter₁) fields) (some.foldlM (m.initField enter₂) fields) := by
      induction some generalizing fields with
      | nil => exact .pure rfl
      | cons k rest ih =>
        have hk : k ∈ members.members := hsub List.mem_cons_self
        rw [List.foldlM_cons, List.foldlM_cons]
        refine .bind (initField hp (hknown k hk) (fun D field hD hfield => ?_) fields) fun a b hab => ?_
        · exact henter field (Program.mem_storage hC hcls hk hD hfield)
        · subst hab
          exact ih (fun k hk => hsub (List.mem_cons_of_mem _ hk)) a
    refine .bind (hcollect members.members (fun _ h => h) ∅) fun a b hab => ?_
    subst hab
    exact hc.frameless (.newObject _ a)

omit hc in
theorem declare {d : DeclId} (hd : c.Known m.program (.decl d))
    (henter : ∀ init, m.program.variableInit? d = some init → Tied c (· = ·) (enter₁ init) (enter₂ init))
    (hset : (m.program.variableInit? d).isSome → ∀ v, Tied c (· = ·) (EvalM.setLocal d v) (EvalM.setLocal d v)) :
    Tied c (· = ·) (m.declare enter₁ d) (m.declare enter₂ d) := by
  refine .bind hd.decl fun D D' ⟨hDD', hD⟩ => ?_
  subst hDD'
  have hvariable : m.program.variableInit? d = D.form.var?.bind (·.initializer) := by
    rw [Program.variableInit?, hD, Option.bind_some]
  cases hinit : D.form.var?.bind (·.initializer) with
  | none => exact .pure rfl
  | some init =>
    refine .bind (henter init (hvariable.trans hinit)) fun v v' hv => ?_
    subst hv
    exact hset (by rw [hvariable, hinit]; rfl) v

/-! ## Nodes -/

/-- **The operation of a node ends alike** if what the node starts does, and so does what has to do with frames. -/
theorem performs (limit : Nat) (hp : c.error (.halt .dangling) (.halt .dangling) ∨ m.program.Closed) {e : ExprId}
    {E : Expr} (hE : m.program.expr? e = some E)
    (hstarts : ∀ part, m.program.Starts e part → Tied c (· = ·) (enter₁ part) (enter₂ part))
    (hget : ∀ d, E.form = .getValue d → Tied c (· = ·) (m.getValue d) (m.getValue d))
    (hset : ∀ d, ((∃ value, E.form = .setValue d value) ∨ E.form = .declare d ∧ (m.program.variableInit? d).isSome) →
      ∀ v, Tied c (· = ·) (EvalM.setLocal d v) (EvalM.setLocal d v))
    (hcall : ∀ function this extension args, c.Known m.program (.decl function) →
      Tied c (· = ·) (m.invoke enter₁ function this extension args).evaluated
        ((m.withLimit limit).invoke enter₂ function this extension args).evaluated) :
    c.Performs (m.operations enter₁) ((m.withLimit limit).operations enter₂) E.form := by
  have hsubject {d : DeclId} (hd : E.form.subject? = some d) : c.Known m.program (.decl d) :=
    hp.imp_right fun hp => hp.has_of_expr hE (by simp [ExprForm.mentioned, hd])
  have hfields : ∀ field ∈ m.program.initializes E.form, ∀ init, m.program.fieldInit? field = some init →
      Tied c (· = ·) (enter₁ init) (enter₂ init) :=
    fun field hfield init hinit => hstarts init (.initializer hE hfield hinit)
  cases hform : E.form with
  | getValue d => exact hget d hform
  | setValue d value => exact hset d (.inl ⟨value, hform⟩)
  | declare d =>
    have hd := hsubject (d := d) (by rw [hform]; rfl)
    refine declare hd (fun init hinit => hstarts init (.part ?_)) fun hinit => hset d (.inr ⟨hform, hinit⟩)
    rw [Program.Contains, Program.mem_parts_iff hE, hform]
    exact .inr hinit
  | getField field receiver =>
    rw [hform] at hfields
    exact hc.loadField (hsubject (by rw [hform]; rfl)) receiver hfields
  | setField field _ _ => exact hc.storeField (hsubject (by rw [hform]; rfl))
  | call callee _ _ _ =>
    intro this extension args
    cases callee with
    | library hash => exact hc.fail (m.libraryFault hash args)
    | declared function => exact hcall function this extension args (hsubject (by rw [hform]; rfl))
  | construct cls =>
    rw [hform] at hfields
    exact hc.instantiate hp (hsubject (by rw [hform]; rfl)) hfields
  | _ => exact trivial

/-- **A node ends alike** if what it starts does, and so does what has to do with frames. -/
theorem node (limit : Nat) (hp : c.error (.halt .dangling) (.halt .dangling) ∨ m.program.Closed) {e : ExprId}
    (he : c.Known m.program (.expr e))
    (hstarts : ∀ part, m.program.Starts e part → Tied c (· = ·) (enter₁ part) (enter₂ part))
    (hget : ∀ E d, m.program.expr? e = some E → E.form = .getValue d → Tied c (· = ·) (m.getValue d) (m.getValue d))
    (hset : ∀ E d, m.program.expr? e = some E →
      ((∃ value, E.form = .setValue d value) ∨ E.form = .declare d ∧ (m.program.variableInit? d).isSome) →
      ∀ v, Tied c (· = ·) (EvalM.setLocal d v) (EvalM.setLocal d v))
    (hcall : ∀ function this extension args, c.Known m.program (.decl function) →
      Tied c (· = ·) (m.invoke enter₁ function this extension args).evaluated
        ((m.withLimit limit).invoke enter₂ function this extension args).evaluated)
    (hret : ∀ E f value, m.program.expr? e = some E → E.form = .ret f value → ∀ v, c.error (.ret f v) (.ret f v)) :
    Tied c (· = ·) (m.semantics.node enter₁ e) ((m.withLimit limit).semantics.node enter₂ e) := by
  refine .bind he.expr fun E E' ⟨hEE', hE⟩ => ?_
  subst hEE'
  have hops := hc.performs limit hp hE hstarts (fun d => hget E d hE) (fun d => hset E d hE) hcall
  exact Tied.evalNode hc.fault (fun f value => hret E f value hE) hops
    fun part hpart => hstarts part (.part ((Program.mem_parts_iff hE).2 (.inl hpart)))

end Reflexive

end Comparison

end DeferredInit
