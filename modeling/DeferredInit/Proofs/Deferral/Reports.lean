import DeferredInit.Proofs.Deferral.Simulation
import DeferredInit.Proofs.Machine.Calls

/-!
# Under which name accesses before initialization are reported

A guard reports under the name that it was built with, if reports carry names.  For the guard of a read that is the
name of the variable.  For that of a getter it is the name of the property's field and not that of the property
(`reports_of_lower`).  A property and its field are declared with the same name, but a front end may give a property a
field of another name, and then nothing in the source has the name that is reported (`reports_storageSample`).

Whatever else goes wrong in a guard, or before it, is no access before initialization: `Reports` says which one an
evaluation may report, and is preserved as evaluations are put together.
-/

namespace DeferredInit

open Program Reference

/-- **What an evaluation may report** as an access before initialization: this fault and no other. -/
def Reports {α : Type} (fault : RuntimeFault) (act : EvalM α) : Prop :=
  ∀ s name t, act s = .error (.fault (.uninitializedAccess name)) t → .uninitializedAccess name = fault

namespace Reports

variable {α β : Type} {fault : RuntimeFault} {act : EvalM α}

theorem bind {next : α → EvalM β} (h : Reports fault act) (hnext : ∀ a, Reports fault (next a)) :
    Reports fault (act >>= next) := by
  intro s name t hrun
  simp only [Bind.bind, EStateM.bind] at hrun
  cases hact : act s with
  | ok a s' =>
    rw [hact] at hrun
    exact hnext a s' name t hrun
  | error u s' =>
    rw [hact] at hrun
    cases hrun
    exact h s name t hact

theorem of_ok (h : ∀ s, ∃ a t, act s = .ok a t) : Reports fault act := by
  intro s name t hrun
  obtain ⟨a, t', hact⟩ := h s
  rw [hact] at hrun
  cases hrun

theorem pure (a : α) : Reports fault (Pure.pure a) := of_ok fun s => ⟨a, s, rfl⟩

theorem ret (function : DeclId) (v : Value) : Reports fault (throw (.ret function v) : EvalM α) := nofun

theorem dangling : Reports fault (throw (.halt .dangling) : EvalM α) := nofun

theorem fail : Reports fault (EvalM.fail fault : EvalM α) := by
  intro s name t hrun
  cases hrun
  rfl

theorem fail_of_ne {f : RuntimeFault} (hf : ∀ name, f ≠ .uninitializedAccess name) :
    Reports fault (EvalM.fail f : EvalM α) := by
  intro s name t hrun
  cases hrun
  exact absurd rfl (hf name)

/-! ## Machines -/

variable (m : Machine)

theorem decl (d : DeclId) : Reports fault (m.decl d) := by
  unfold Machine.decl
  split
  · exact pure _
  · exact dangling

theorem getValue (d : DeclId) : Reports fault (m.getValue d) := by
  refine bind (of_ok fun s => ⟨_, _, EvalM.local?_run d s⟩) fun v => ?_
  cases v with
  | some v => exact pure v
  | none => exact bind (decl m d) fun D => fail_of_ne nofun

theorem staticField {enter : ExprId → EvalM Value} {field : DeclId} {F : Decl}
    (hinit : ∀ e, F.form.field?.bind (·.initializer) = some e → Reports fault (enter e)) :
    Reports fault (Machine.staticField enter field F) := by
  have hstore (v : Value) : Reports fault (EvalM.writeStatic field v >>= fun _ => Pure.pure v) :=
    bind (of_ok fun s => ⟨_, _, EvalM.writeStatic_run field v s⟩) fun _ => pure v
  refine bind (of_ok fun s => ⟨_, _, EvalM.static?_run field s⟩) fun v => ?_
  cases v with
  | some v => exact pure v
  | none =>
    cases he : F.form.field?.bind (·.initializer) with
    | none => exact bind (pure _) hstore
    | some e => exact bind (hinit e he) hstore

/-- To read a field reports what its initializer reports. -/
theorem loadField {enter : ExprId → EvalM Value} {field : DeclId} {F : Decl} (hF : m.program.decl? field = some F)
    (hinit : ∀ e, F.form.field?.bind (·.initializer) = some e → Reports fault (enter e)) (this : Option Value) :
    Reports fault (m.loadField enter field this) := by
  refine bind (of_ok fun s => ⟨_, _, EvalM.countRead_run s⟩) fun _ => ?_
  simp only [Machine.decl, hF, pure_bind]
  split
  · exact staticField hinit
  · refine bind ?_ fun o => of_ok fun s => ⟨_, _, rfl⟩
    unfold Machine.instanceOf
    split
    · exact pure _
    · exact fail_of_ne fun _ h => by cases h
    · exact fail_of_ne fun _ h => by cases h

theorem loadReceived {enter : ExprId → EvalM Value} {field : DeclId} {F : Decl} (hF : m.program.decl? field = some F)
    (hinit : ∀ e, F.form.field?.bind (·.initializer) = some e → Reports fault (enter e)) (receiver : Option DeclId) :
    Reports fault (m.loadReceived enter receiver field) := by
  cases receiver with
  | none => exact loadField m hF hinit none
  | some r =>
    show Reports fault (some <$> m.getValue r >>= m.loadField enter field)
    rw [map_eq_pure_bind, bind_assoc]
    exact bind (getValue m r) fun v => loadField m hF hinit (some v)

/-- What is reported at no greater depth is reported at any. -/
theorem of_deeper {e : ExprId} {k : Nat} (h : ∀ depth, Reports fault (m.eval (depth + k) e)) (depth : Nat) :
    Reports fault (m.eval depth e) := by
  intro s name t hrun
  -- either evaluation stops with the same fault, or the shallow one has run out, which is no report
  have hdeeper := Tie.eval_deeper m (Nat.le_add_right depth k) e s s (.refl (fun _ _ => rfl) s)
  have h := h depth s
  rw [hrun] at hdeeper
  generalize m.eval (depth + k) e s = r at hdeeper h
  generalize hu : Unwind.fault (.uninitializedAccess name) = u at hdeeper
  cases hdeeper with
  | error huv _ =>
    cases huv with
    | ret => cases hu
    | stop hstop =>
      cases hstop with
      | fault hfg =>
        cases hu
        obtain rfl := hfg
        exact h name _ rfl
      | halt => cases hu
  | left hl =>
    obtain ⟨_, rfl, rfl⟩ := hl
    cases hu
  | right hr =>
    obtain ⟨_, hr, _⟩ := hr
    exact hr.elim

/-- **A call reports** what the body of the function reports. -/
theorem invoke {enter : ExprId → EvalM Value} {function : DeclId} {D : Decl} {f : FunctionDecl}
    (hD : m.program.decl? function = some D) (hf : D.form = .function f)
    (hbody : ∀ e, f.body = some e → Reports fault (enter e)) {this extension : Option Value} {args : List Value}
    {s t : State} {name : Option String}
    (hrun : m.invoke enter function this extension args s = .error (.fault (.uninitializedAccess name)) t) :
    .uninitializedAccess name = fault := by
  rw [m.invoke_eq] at hrun
  by_cases hdepth : m.maxDepth ≤ s.frames.length
  · rw [if_pos hdepth] at hrun
    cases hrun
  rw [if_neg hdepth] at hrun
  cases hcallee : m.callee function args with
  | error stop =>
    rw [hcallee] at hrun
    obtain ⟨rfl, -⟩ := EStateM.Result.error.inj hrun
    rcases Machine.callee_eq_error hcallee with ⟨hstop, -⟩ | ⟨D, -, hstop | ⟨f, -, hstop⟩ | hstop⟩ <;> cases hstop
  | ok called =>
    obtain ⟨f', e⟩ := called
    obtain ⟨D', hD', hf', he⟩ := Machine.callee_eq_ok hcallee
    obtain rfl := Option.some.inj (hD.symm.trans hD')
    obtain rfl := DeclForm.function.inj (hf.symm.trans hf')
    simp only [hcallee] at hrun
    generalize hr : enter e _ = r at hrun
    cases r with
    | ok => cases hrun
    | error u u' =>
      cases u with
      | fault f =>
        cases hrun
        exact hbody e he _ name _ hr
      | halt => cases hrun
      | ret target v =>
        -- a stray return is a fault, but of another kind
        by_cases htarget : target = function
        · subst htarget
          rw [m.finish_ret_self] at hrun
          cases hrun
        · rw [m.finish_ret_of_ne htarget, Machine.strayFault] at hrun
          split at hrun <;> cases hrun

end Reports

namespace Lowering

variable {w : Lowering} {p q : Program}

/-- What lowering makes of the read of a deferred variable reports under the variable's name. -/
theorem reports_read {m : Machine} (h : Lowered w p m.program (· ∈ p.nodes))
    (hthrow : m.throwFunction? = some w.intrinsics.throwUninitialized) {e : ExprId} {E : Expr} {x : DeclId} {X : Decl}
    (he : .expr e ∈ p.nodes) (hE : p.expr? e = some E) (hread : E.form = .getValue x) (hX : p.decl? x = some X)
    (hdef : X.isDeferredVariable = true) (depth : Nat) : Reports (uninitialized w X.name) (m.eval depth e) := by
  have hc : w.construct? p (.expr e) = some .read := by simp [construct?, hE, hread, hX, hdef]
  cases h.changed he hc with
  | @read _ E' x' X' ty name g hE' hread' hX' _ hname _ hq =>
    rw [hE] at hE'
    obtain rfl := Option.some.inj hE'
    rw [hread] at hread'
    obtain rfl := ExprForm.getValue.inj hread'
    rw [hX] at hX'
    obtain rfl := Option.some.inj hX'
    subst hname
    refine Reports.of_deeper m (k := 4) (fun depth => ?_) depth
    rw [m.eval_readGuard hthrow g hq rfl]
    refine Reports.bind (Reports.getValue m x) fun v => ?_
    unfold assigned
    split
    · exact Reports.fail
    · exact Reports.pure v

/-- The guarded body of a getter reports under the name that the guard was built with. -/
theorem reports_bodyGuard {m : Machine} (hthrow : m.throwFunction? = some w.intrinsics.throwUninitialized)
    {span : Span} {getter field : DeclId} {receiver : Option DeclId} {ty : Ty} {name : String}
    (g : BodyGuard w m.program span getter receiver field ty name) (hfield : GivenNull p m.program field)
    (depth : Nat) : Reports (uninitialized w name) (m.eval depth g.body) := by
  obtain ⟨F, content, null, span', ty', hF, hcontent, hinit, hnull, hq⟩ := hfield
  refine Reports.of_deeper m (k := 4) (fun depth => ?_) depth
  rw [m.eval_block g.body_eq, m.eval_declaration g, m.eval_choice g hthrow, m.eval_current g, bind_assoc]
  refine Reports.bind (Reports.loadReceived m hq (fun e he => ?_) receiver) fun v => ?_
  · obtain rfl : null = e := by
      simpa [Decl.withInitializer, hcontent, DeclForm.withInitializer, DeclForm.field?] using he
    rw [m.eval_const hnull]
    exact Reports.pure _
  · refine Reports.bind (Reports.bind (Reports.of_ok fun s => ⟨_, _, EvalM.setLocal_run g.held v s⟩) fun _ =>
      Reports.pure _) fun _ => Reports.bind (Reports.getValue m g.held) fun v => ?_
    split
    · exact Reports.fail
    · exact Reports.bind (Reports.getValue m g.held) fun v => Reports.ret getter v

/-- **Under which name an access before initialization is reported** in a lowered program, if reports carry names: that
of the variable that was read, or that of the *field* of the property whose getter was called.  Whatever is running
and whatever is in memory, a guard reports nothing else. -/
theorem reports_of_lower {l : Library} {options : LoweringOptions} (hw : ofLibrary l options = .ok w)
    (hp : p.Closed) (hf : p.findShared = .ok none) {stats : LoweringStats} (h : w.lower p = (.ok stats, q))
    (maxDepth : Nat) :
    let m : Machine := ⟨q, l, maxDepth⟩
    (∀ e E x X, p.Reachable (.expr e) → p.expr? e = some E → E.form = .getValue x → p.decl? x = some X →
      X.isDeferredVariable = true → ∀ depth, Reports (uninitialized w X.name) (m.eval depth e)) ∧
    (∀ d D r field F getter, p.Reachable (.decl d) → p.decl? d = some D → D.form = .property r →
      D.isDeferredInit = true → D.modifiers.isFakeOverride = false → r.backingField = some field →
      p.decl? field = some F → r.getter = some getter → ∀ depth this extension args s name t,
        m.invoke (m.eval depth) getter this extension args s = .error (.fault (.uninitializedAccess name)) t →
          .uninitializedAccess name = uninitialized w F.name) := by
  intro m
  have hforest := findShared_eq_none_iff.1 hf
  have hlowered := (done_of_lower hp hforest h).lowered
  have hthrow : m.throwFunction? = some w.intrinsics.throwUninitialized := throwFunction?_of_ofLibrary hw rfl
  refine ⟨fun e E x X he hE hread hX hdef depth =>
    reports_read hlowered hthrow ((mem_nodes_iff hforest).2 he) hE hread hX hdef depth, ?_⟩
  intro d D r field F getter hd hD hr hdef hfake hfield hF hgetter depth this extension args s name t hrun
  have hc : w.construct? p (.decl d) = some .property :=
    construct?_decl_eq_some.2 ⟨D, hD, hdef, .inr ⟨⟨r, hr⟩, hfake, rfl⟩⟩
  obtain ⟨field', getter', F', G, content, f, null, g, hfield', hgetter', hF', hcontent, hinit, hnull, hq, -, -, -,
    hq'⟩ := (hlowered.changed ((mem_nodes_iff hforest).2 hd) hc).parts hD hr
  obtain rfl := Option.some.inj (hgetter.symm.trans hgetter')
  obtain rfl := Option.some.inj (hfield.symm.trans hfield')
  obtain rfl := Option.some.inj (hF.symm.trans hF')
  refine Reports.invoke m hq' rfl (fun e he => ?_) hrun
  obtain rfl := Option.some.inj he
  exact reports_bodyGuard hthrow g ⟨F, content, null, _, _, hF, hcontent, hinit, hnull, hq⟩ depth

/-- The sample program with another name for the field of its property. -/
def storageSample : Program :=
  sample.setDecl ⟨2⟩
    { name := "storage", span := ⟨2, 3, 4⟩,
      form := .field { ty := Sample.text, owner := some ⟨0⟩, property := some ⟨1⟩ } }

/-- The standard library hosts a lowering that names what it reports. -/
def namingLowering : Lowering := { Sample.lowering with options := { namesInReports := true } }

theorem reports_of_lower_storageSample :
    ofLibrary Library.standard { namesInReports := true } = .ok namingLowering ∧ storageSample.Closed ∧
      storageSample.findShared = .ok none ∧
      (namingLowering.lower storageSample).1 = .ok { vars := 1, reads := 2, queries := 1, properties := 1 } ∧
      ∀ depth this args s name t,
        Machine.invoke ⟨(namingLowering.lower storageSample).2, Library.standard, 256⟩
          (Machine.eval ⟨(namingLowering.lower storageSample).2, Library.standard, 256⟩ depth) ⟨3⟩ this none args s =
            .error (.fault (.uninitializedAccess name)) t → name = some "storage" := by
  have hw : ofLibrary Library.standard { namesInReports := true } = .ok namingLowering := by decide +kernel
  have hp : storageSample.Closed := by decide
  have hf : storageSample.findShared = .ok none := by decide +kernel
  have hstats : (namingLowering.lower storageSample).1 =
      .ok { vars := 1, reads := 2, queries := 1, properties := 1 } := by
    decide +kernel
  have hlower : namingLowering.lower storageSample =
      (.ok { vars := 1, reads := 2, queries := 1, properties := 1 }, (namingLowering.lower storageSample).2) := by
    rw [← hstats]
  have hreach : storageSample.Reachable (.decl ⟨1⟩) := .owned (.outermost (n := .decl ⟨0⟩) (by decide)) (by decide)
  refine ⟨hw, hp, hf, hstats, fun depth this args s name t hrun => ?_⟩
  exact RuntimeFault.uninitializedAccess.inj ((reports_of_lower hw hp hf hlower 256).2 ⟨1⟩ _ _ ⟨2⟩ _ ⟨3⟩ hreach rfl rfl
    rfl rfl rfl rfl rfl depth this none args s name t hrun)

/-- A property named "name" whose field is named "storage" is reported as "storage". -/
theorem reports_storageSample :
    (storageSample.decl? ⟨1⟩).map (·.name) = some "name" ∧
      (takeSteps (Machine.take ⟨(namingLowering.lower storageSample).2, Library.standard, 256⟩)
        [.construct ⟨0⟩, .callMethod ⟨3⟩ (.object ⟨0, some ⟨0⟩⟩) []] {}).map (·.map (·.1)) =
          .ok [.ok (.object ⟨0, some ⟨0⟩⟩), .error (.uninitializedAccess (some "storage"))] := by
  decide +kernel

end Lowering

end DeferredInit
