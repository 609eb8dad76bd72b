import DeferredInit.Machine.Eval
import DeferredInit.Proofs.Machine.Comparison
import DeferredInit.Proofs.Program.Alike

/-!
# Comparing the operations of two machines

Two machines whose programs are alike differ only in the code that they enter: in what a field or a variable holds
at first, and in what the body of a function does.  If that ends alike, so does every operation.  The lemmas here
say so of each operation, and `evalNode_tied` of a whole node.

A field may be without an initializer on the left and start out with null on the right.  Fields of objects show no
difference then, and static fields end up holding null on both sides.
-/

namespace DeferredInit

theorem DeclForm.cls?_skeleton (form : DeclForm) : form.skeleton.cls? = form.cls? := by
  cases form <;> rfl

theorem DeclForm.var?_isSome_skeleton (form : DeclForm) : form.skeleton.var?.isSome = form.var?.isSome := by
  cases form <;> rfl

/-- The parts of a declaration that are the same in declarations that are alike. -/
theorem Decl.eq_of_skeleton {D D' : Decl} (h : D'.skeleton = D.skeleton) :
    D'.name = D.name ∧ D'.modifiers = D.modifiers ∧ D'.form.skeleton = D.form.skeleton := by
  obtain ⟨hname, -, hmod, hform⟩ := Decl.mk.inj h
  exact ⟨hname, hmod, hform⟩

namespace Machine

/-- The value of a variable is found without changing anything. -/
theorem getValue_run (m : Machine) (d : DeclId) (s : State) :
    (∃ v, m.getValue d s = .ok v s) ∨ ∃ u, m.getValue d s = .error u s := by
  simp only [getValue, bind, EStateM.bind, EvalM.local?_run]
  cases s.local? d with
  | some v => exact .inl ⟨v, rfl⟩
  | none =>
    right
    simp only [decl]
    cases m.program.decl? d <;> exact ⟨_, rfl⟩

theorem getValue_of_local? (m : Machine) {d : DeclId} {s : State} {v : Value} (h : s.local? d = some v) :
    m.getValue d s = .ok v s := by
  simp only [getValue, bind, EStateM.bind, EvalM.local?_run, h]
  rfl

end Machine

namespace Tie

variable {T : Tie} {m₁ m₂ : Machine} {enter₁ enter₂ : ExprId → EvalM Value}

/-- **Machines that are alike**: nothing but initializers and bodies differs, except that the right one may have
more declarations if the left one is excused for lacking them. -/
structure Machines (T : Tie) (m₁ m₂ : Machine) : Prop where
  library_eq : m₁.library = m₂.library
  maxDepth_eq : m₁.maxDepth = m₂.maxDepth
  alike : Program.Alike m₁.program m₂.program
  missing : ∀ d, m₁.program.decl? d = none → m₂.program.decl? d = none ∨ T.left (.halt .dangling)

/-- What storage holds at first, on both sides. -/
inductive Initial (T : Tie) (enter₁ enter₂ : ExprId → EvalM Value) : Option ExprId → Option ExprId → Prop
  | none : Initial T enter₁ enter₂ none none
  | some {e e' : ExprId} : Tied T.evals (· = ·) (enter₁ e) (enter₂ e') → Initial T enter₁ enter₂ (some e) (some e')
  | null {e' : ExprId} : Tied T.evals (fun v v' : Value => v = .null ∧ v' = .null) (pure .null) (enter₂ e') →
      Initial T enter₁ enter₂ none (some e')

/-- What a field holds at first ends alike. -/
def InitialField (T : Tie) (m₁ m₂ : Machine) (enter₁ enter₂ : ExprId → EvalM Value) (field : DeclId) : Prop :=
  ∀ D D', m₁.program.decl? field = some D → m₂.program.decl? field = some D' →
    T.Initial enter₁ enter₂ (D.form.field?.bind (·.initializer)) (D'.form.field?.bind (·.initializer))

/-- What the bodies of a function do, on both sides.  A body finds a frame when it runs. -/
inductive Bodies (T : Tie) : Option (EvalM Value) → Option (EvalM Value) → Prop
  | none : Bodies T none none
  | some {x y : EvalM Value} :
      (∀ s t, s.Resembles T.locals t → t.frames ≠ [] → Agree T.evals (· = ·) (x s) (y t)) → Bodies T (some x) (some y)

/-! ## Operations without operands of their own -/

theorem decl (h : T.Machines m₁ m₂) (d : DeclId) :
    Tied T.evals (fun D D' => m₁.program.decl? d = some D ∧ m₂.program.decl? d = some D' ∧ D'.skeleton = D.skeleton)
      (m₁.decl d) (m₂.decl d) := by
  unfold Machine.decl
  cases hd : m₁.program.decl? d with
  | some D =>
    obtain ⟨D', hD', hsk⟩ := h.alike d D hd
    rw [hD']
    exact .pure ⟨rfl, rfl, hsk⟩
  | none =>
    rcases h.missing d hd with hd' | hl
    · rw [hd']
      exact halt .dangling
    · exact left_halt hl

theorem getValue (h : T.Machines m₁ m₂) {d : DeclId} (hd : T.Tight d) :
    Tied T.evals (· = ·) (m₁.getValue d) (m₂.getValue d) := by
  refine .bind (local? hd) fun a b hab => ?_
  subst hab
  cases a with
  | some v => exact .pure rfl
  | none =>
    refine .bind (decl h d) fun D D' ⟨_, _, hsk⟩ => ?_
    rw [(Decl.eq_of_skeleton hsk).1]
    exact fail _

theorem instanceOf {D D' : Decl} (h : D'.name = D.name) (op : String) (receiver : Option Value) :
    Tied T.evals (· = ·) (Machine.instanceOf D op receiver) (Machine.instanceOf D' op receiver) := by
  unfold Machine.instanceOf
  rw [h]
  split
  · exact .pure rfl
  · exact fail _
  · exact fail _

theorem storageOf (h : T.Machines m₁ m₂) (member : DeclId) :
    Tied T.evals (· = ·) (m₁.storageOf member) (m₂.storageOf member) := by
  refine .bind (decl h member) fun D D' ⟨_, _, hsk⟩ => ?_
  have hform := (Decl.eq_of_skeleton hsk).2.2
  cases hD : D.form <;> cases hD' : D'.form <;> rw [hD, hD'] at hform <;>
    simp only [DeclForm.skeleton, DeclForm.property.injEq, reduceCtorEq] at hform
  case property.property => rw [hform]; exact .pure rfl
  all_goals exact .pure rfl

theorem storeField (h : T.Machines m₁ m₂) (field : DeclId) (receiver : Option Value) (v : Value) :
    Tied T.evals (· = ·) (m₁.storeField field receiver v) (m₂.storeField field receiver v) := by
  refine .bind (decl h field) fun D D' ⟨_, _, hsk⟩ => ?_
  obtain ⟨hname, hmod, -⟩ := Decl.eq_of_skeleton hsk
  rw [hmod]
  split
  · exact writeStatic field v
  · refine .bind (instanceOf hname _ receiver) fun o o' ho => ?_
    subst ho
    exact writeField o field v

theorem libraryFault (h : T.Machines m₁ m₂) (hash : SymbolHash) (args : List Value) :
    m₁.libraryFault hash args = m₂.libraryFault hash args := by
  unfold Machine.libraryFault Machine.throwFunction?
  rw [h.library_eq]

/-! ## Operations that enter other code -/

theorem staticField {field : DeclId} {D D' : Decl} (hinitial : T.InitialField m₁ m₂ enter₁ enter₂ field)
    (hD : m₁.program.decl? field = some D) (hD' : m₂.program.decl? field = some D') :
    Tied T.evals (· = ·) (Machine.staticField enter₁ field D) (Machine.staticField enter₂ field D') := by
  refine .bind (static? field) fun a b hab => ?_
  subst hab
  cases a with
  | some v => exact .pure rfl
  | none =>
    have hinitial := hinitial D D' hD hD'
    generalize D.form.field?.bind (·.initializer) = i, D'.form.field?.bind (·.initializer) = i' at hinitial
    have store (v v' : Value) (hv : v = v') : Tied T.evals (· = ·)
        (do EvalM.writeStatic field v; return v) (do EvalM.writeStatic field v'; return v') := by
      subst hv
      exact .bind (writeStatic field v) fun _ _ _ => .pure rfl
    cases hinitial with
    | none => exact .bind (.pure rfl) store
    | some h => exact .bind h store
    | null h => exact .bind h fun v v' ⟨hv, hv'⟩ => store v v' (hv.trans hv'.symm)

theorem loadField (h : T.Machines m₁ m₂) {field : DeclId} (hinitial : T.InitialField m₁ m₂ enter₁ enter₂ field)
    (receiver : Option Value) :
    Tied T.evals (· = ·) (m₁.loadField enter₁ field receiver) (m₂.loadField enter₂ field receiver) := by
  refine .bind countRead fun _ _ _ => .bind (decl h field) fun D D' ⟨hD, hD', hsk⟩ => ?_
  obtain ⟨hname, hmod, -⟩ := Decl.eq_of_skeleton hsk
  rw [hmod]
  split
  · exact staticField hinitial hD hD'
  · refine .bind (instanceOf hname _ receiver) fun o o' ho => ?_
    subst ho
    exact readField o field

/-- Fields that an instance is being made of, on both sides: those without an initializer are not yet stored. -/
def Collected (m : Machine) (a b : Table DeclId Value) : Prop :=
  Table.SameContents a b ∧ ∀ k D, m.program.decl? k = some D →
    D.form.field?.bind (·.initializer) = none → a.get? k = none

theorem initField (h : T.Machines m₁ m₂) (hfields : ∀ field, T.InitialField m₁ m₂ enter₁ enter₂ field)
    {a b : Table DeclId Value} (hab : Collected m₁ a b) (member : DeclId) :
    Tied T.evals (Collected m₁) (m₁.initField enter₁ a member) (m₂.initField enter₂ b member) := by
  refine .bind (storageOf h member) fun field field' heq => ?_
  subst heq
  cases field with
  | none => exact .pure hab
  | some field =>
    refine .bind (decl h field) fun D D' ⟨hD, hD', _⟩ => ?_
    have hinitial := hfields field D D' hD hD'
    generalize hi : D.form.field?.bind (·.initializer) = i, D'.form.field?.bind (·.initializer) = i' at hinitial
    cases hinitial with
    | none => exact .pure hab
    | some hv =>
      refine .bind hv fun v v' heq => .pure ?_
      subst heq
      refine ⟨hab.1.insert field v, fun k Dk hk hnone => ?_⟩
      have hne : field ≠ k := by
        rintro rfl
        rw [hD] at hk
        obtain rfl := Option.some.inj hk
        rw [hi] at hnone
        cases hnone
      rw [Table.get?_insert_of_ne _ _ hne]
      exact hab.2 k Dk hk hnone
    | @null e' hv =>
      -- nothing is stored on the left, where the field is still missing
      have hinsert : Tied T.evals (Collected m₁) (pure Value.null >>= fun _ => pure a)
          (enter₂ e' >>= fun v => pure (b.insert field v)) := by
        refine .bind hv fun v v' ⟨_, hv'⟩ => .pure ?_
        subst hv'
        exact ⟨hab.1.insert_null (hab.2 field D hD hi), hab.2⟩
      exact hinsert

theorem foldlM_initField (h : T.Machines m₁ m₂) (hfields : ∀ field, T.InitialField m₁ m₂ enter₁ enter₂ field)
    (members : List DeclId) {a b : Table DeclId Value} (hab : Collected m₁ a b) :
    Tied T.evals (Collected m₁) (members.foldlM (m₁.initField enter₁) a) (members.foldlM (m₂.initField enter₂) b) := by
  induction members generalizing a b with
  | nil => exact .pure hab
  | cons member rest ih =>
    rw [List.foldlM_cons, List.foldlM_cons]
    exact .bind (initField h hfields hab member) fun a' b' hab' => ih hab'

theorem instantiate (h : T.Machines m₁ m₂) (hfields : ∀ field, T.InitialField m₁ m₂ enter₁ enter₂ field)
    (cls : DeclId) : Tied T.evals (· = ·) (m₁.instantiate enter₁ cls) (m₂.instantiate enter₂ cls) := by
  refine .bind (decl h cls) fun D D' ⟨_, _, hsk⟩ => ?_
  obtain ⟨hname, -, hform⟩ := Decl.eq_of_skeleton hsk
  rw [← DeclForm.cls?_skeleton D'.form, hform, DeclForm.cls?_skeleton, hname]
  cases D.form.cls? with
  | none => exact fail _
  | some c =>
    have hempty : Collected m₁ (∅ : Table DeclId Value) ∅ := ⟨fun _ => rfl, fun _ _ _ _ => rfl⟩
    exact .bind (foldlM_initField h hfields c.members hempty) fun a b hab => newObject _ hab.1

theorem declare (h : T.Machines m₁ m₂) {d : DeclId}
    (hinitial : ∀ D D', m₁.program.decl? d = some D → m₂.program.decl? d = some D' →
      D.form.var?.bind (·.initializer) = none ∧ D'.form.var?.bind (·.initializer) = none ∨
        ∃ e e', D.form.var?.bind (·.initializer) = some e ∧ D'.form.var?.bind (·.initializer) = some e' ∧
          Tied T.evals (· = ·) (enter₁ e) (enter₂ e')) :
    Tied T.evals (· = ·) (m₁.declare enter₁ d) (m₂.declare enter₂ d) := by
  refine .bind (decl h d) fun D D' ⟨hD, hD', _⟩ => ?_
  rcases hinitial D D' hD hD' with ⟨hi, hi'⟩ | ⟨e, e', hi, hi', hv⟩
  · rw [hi, hi']
    exact .pure rfl
  · rw [hi, hi']
    refine .bind hv fun v v' heq => ?_
    subst heq
    exact setLocal d v

/-! ## Calls -/

theorem strayReturn (h : T.Machines m₁ m₂) (function : DeclId) :
    Tied T.runs (· = ·) (m₁.strayReturn function) (m₂.strayReturn function) := by
  unfold Machine.strayReturn
  cases hd : m₁.program.decl? function with
  | some D =>
    obtain ⟨D', hD', hsk⟩ := h.alike function D hd
    rw [hD']
    simp only
    rw [(Decl.eq_of_skeleton hsk).1]
    exact .pure rfl
  | none =>
    rcases h.missing function hd with hd' | hl
    · rw [hd']
      exact .throw (.halt .dangling)
    · exact .left_throw hl

theorem get : Tied T.runs (State.Resembles T.locals) (get : RunM State) (get : RunM State) := fun _ _ hst => .ok hst hst

theorem fault_bind {α β : Type} (f : RuntimeFault) (k₁ k₂ : α → RunM β) :
    Tied T.runs (· = ·) (throw (.fault f) >>= k₁) (throw (.fault f) >>= k₂) := fun _ _ hst =>
  .error (.fault (T.fault_refl f)) hst

/-- Bodies that end alike do so in frames that are alike, and what is made of their endings is alike. -/
theorem inFrame {x y : EvalM Value}
    (hxy : ∀ s t, s.Resembles T.locals t → t.frames ≠ [] → Agree T.evals (· = ·) (x s) (y t)) (frame : Frame)
    {k₁ k₂ : Except Unwind Value → RunM Value} (hok : ∀ v, Tied T.runs (· = ·) (k₁ (.ok v)) (k₂ (.ok v)))
    (hret : ∀ d v, Tied T.runs (· = ·) (k₁ (.error (.ret d v))) (k₂ (.error (.ret d v))))
    (h₁ : ∀ stop : Stop RuntimeFault, k₁ (.error stop.unwind) = throw stop)
    (h₂ : ∀ stop : Stop RuntimeFault, k₂ (.error stop.unwind) = throw stop) :
    Tied T.runs (· = ·) (RunM.inFrame frame x >>= k₁) (RunM.inFrame frame y >>= k₂) := by
  intro s t hst
  have h := hxy _ _ (State.Resembles.push hst T.locals_refl frame) (List.cons_ne_nil _ _)
  simp only [bind, EStateM.bind, RunM.inFrame]
  generalize x { s with frames := frame :: s.frames } = r, y { t with frames := frame :: t.frames } = r' at h
  cases h with
  | @ok v _ s' t' hv hst' =>
    subst hv
    exact hok v _ _ (State.Resembles.pop hst')
  | error huv hst' =>
    cases huv with
    | ret d v => exact hret d v _ _ (State.Resembles.pop hst')
    | stop hstop =>
      simp only [h₁, h₂]
      exact .error hstop (State.Resembles.pop hst')
  | left hl =>
    obtain ⟨stop, hl, rfl⟩ := hl
    simp only [h₁]
    exact .left hl
  | right hr =>
    obtain ⟨stop, hr, rfl⟩ := hr
    simp only [h₂]
    exact .right hr

/-- Of functions that are alike, only the bodies differ. -/
theorem function?_of_skeleton {F F' : DeclForm} (h : F'.skeleton = F.skeleton) :
    F.function? = none ∧ F'.function? = none ∨ ∃ f f', F = .function f ∧ F' = .function f' ∧ f'.params = f.params ∧
      f'.dispatchReceiver = f.dispatchReceiver ∧ f'.extensionReceiver = f.extensionReceiver := by
  cases F <;> cases F' <;> simp_all [DeclForm.skeleton, DeclForm.function?]

theorem invokeWith (h : T.Machines m₁ m₂) {body₁ body₂ : FunctionDecl → Option (EvalM Value)} {function : DeclId}
    (hbody : ∀ D D' f f', m₁.program.decl? function = some D → m₂.program.decl? function = some D' →
      D.form = .function f → D'.form = .function f' → T.Bodies (body₁ f) (body₂ f'))
    (this extension : Option Value) (args : List Value) :
    Tied T.runs (· = ·) (m₁.invokeWith body₁ function this extension args)
      (m₂.invokeWith body₂ function this extension args) := by
  unfold Machine.invokeWith
  refine .bind get fun s t hst => ?_
  rw [hst.frames.length_eq, h.maxDepth_eq]
  by_cases hdepth : m₂.maxDepth ≤ t.frames.length
  · rw [if_pos hdepth, if_pos hdepth]
    exact fault_bind _ _ _
  rw [if_neg hdepth, if_neg hdepth]
  cases hD : m₁.program.decl? function with
  | none =>
    rcases h.missing function hD with hD' | hl
    · rw [hD']
      exact .throw (.halt .dangling)
    · exact .left_throw hl
  | some D =>
    obtain ⟨D', hD', hsk⟩ := h.alike function D hD
    obtain ⟨hname, -, hform⟩ := Decl.eq_of_skeleton hsk
    rw [hD']
    simp only
    rcases function?_of_skeleton hform with ⟨hf, hf'⟩ | ⟨f, f', hf, hf', hparams, hthis, hext⟩
    · rw [hf, hf', hname]
      exact .throw (.fault (T.fault_refl _))
    · have hbodies := hbody D D' f f' hD hD' hf hf'
      have hargs : Machine.arguments f' this extension args = Machine.arguments f this extension args := by
        simp only [Machine.arguments, hparams, hthis, hext]
      rw [hf, hf', hname]
      simp only [DeclForm.function?, hparams, hargs]
      by_cases harity : f.params.length ≠ args.length
      · rw [if_pos harity, if_pos harity]
        exact fault_bind _ _ _
      rw [if_neg harity, if_neg harity]
      generalize body₁ f = b₁, body₂ f' = b₂ at hbodies
      cases hbodies with
      | none => exact .throw (.fault (T.fault_refl _))
      | some hxy =>
        refine inFrame hxy _ (fun v => .pure rfl) (fun d v => ?_) (fun stop => ?_) (fun stop => ?_)
        · by_cases hd : d = function
          · simp only [if_pos hd]
            exact .pure rfl
          · simp only [if_neg hd]
            refine .bind (strayReturn h d) fun a b hab => ?_
            subst hab
            exact .throw (.fault (T.fault_refl a))
        · cases stop <;> rfl
        · cases stop <;> rfl

/-- Calls of functions that do alike end alike. -/
theorem invoke (h : T.Machines m₁ m₂) {function : DeclId}
    (hbody : ∀ D D' f f', m₁.program.decl? function = some D → m₂.program.decl? function = some D' →
      D.form = .function f → D'.form = .function f' → T.Bodies (f.body.map enter₁) (f'.body.map enter₂))
    (this extension : Option Value) (args : List Value) :
    Tied T.runs (· = ·) (m₁.invoke enter₁ function this extension args)
      (m₂.invoke enter₂ function this extension args) :=
  invokeWith h hbody this extension args

end Tie

/-! ## Nodes -/

/-- What the operation of a node does ends alike. -/
def Comparison.Performs (c : Comparison Unwind) (ops₁ ops₂ : Operations) : ExprForm → Prop
  | .getValue d => Tied c (· = ·) (ops₁.getValue d) (ops₂.getValue d)
  | .setValue d _ => ∀ v, Tied c (· = ·) (ops₁.setValue d v) (ops₂.setValue d v)
  | .declare d => Tied c (· = ·) (ops₁.declare d) (ops₂.declare d)
  | .getField field _ => ∀ r, Tied c (· = ·) (ops₁.getField field r) (ops₂.getField field r)
  | .setField field _ _ => ∀ r v, Tied c (· = ·) (ops₁.setField field r v) (ops₂.setField field r v)
  | .call callee _ _ _ =>
    ∀ this ext args, Tied c (· = ·) (ops₁.call callee this ext args) (ops₂.call callee this ext args)
  | .construct cls => Tied c (· = ·) (ops₁.construct cls) (ops₂.construct cls)
  | .const _ | .propertyRef _ _ _ | .block _ | .cond _ _ _ | .binary _ _ _ | .ret _ _ => True

namespace Tied

variable {c : Comparison Unwind} {operand₁ operand₂ : ExprId → EvalM Value} {ops₁ ops₂ : Operations}

theorem evalOption {o : Option ExprId} (h : ∀ e ∈ o, Tied c (· = ·) (operand₁ e) (operand₂ e)) :
    Tied c (· = ·) (Operations.evalOption operand₁ o) (Operations.evalOption operand₂ o) := by
  cases o with
  | none => exact .pure rfl
  | some e => exact .map (h e rfl) fun a b hab => congrArg some hab

theorem evalList {es : List ExprId} (h : ∀ e ∈ es, Tied c (· = ·) (operand₁ e) (operand₂ e)) :
    Tied c (· = ·) (Operations.evalList operand₁ es) (Operations.evalList operand₂ es) := by
  induction es with
  | nil => exact .pure rfl
  | cons e es ih =>
    refine .bind (h e List.mem_cons_self) fun a b hab => ?_
    refine .bind (ih fun e' he' => h e' (List.mem_cons_of_mem e he')) fun as bs habs => .pure ?_
    rw [hab, habs]

theorem evalBlock {es : List ExprId} (h : ∀ e ∈ es, Tied c (· = ·) (operand₁ e) (operand₂ e)) (last : Value) :
    Tied c (· = ·) (Operations.evalBlock operand₁ last es) (Operations.evalBlock operand₂ last es) := by
  induction es generalizing last with
  | nil => exact .pure rfl
  | cons e es ih =>
    refine .bind (h e List.mem_cons_self) fun a b hab => ?_
    subst hab
    exact ih (fun e' he' => h e' (List.mem_cons_of_mem e he')) a

variable (hfault : ∀ f, c.error (.fault f) (.fault f))
include hfault

theorem applyBinary (op : BinaryOp) (a b : Value) :
    Tied c (· = ·) (Machine.applyBinary op a b) (Machine.applyBinary op a b) := by
  have h : (∃ v, Machine.applyBinary op a b = Pure.pure v) ∨ ∃ f, Machine.applyBinary op a b = EvalM.fail f := by
    unfold Machine.applyBinary
    split
    all_goals first | exact .inl ⟨_, rfl⟩ | exact .inr ⟨_, rfl⟩
  rcases h with ⟨v, h⟩ | ⟨f, h⟩ <;> rw [h]
  · exact .pure rfl
  · exact .throw (hfault f)

theorem truth (v : Value) : Tied c (· = ·) (Machine.truth v) (Machine.truth v) := by
  unfold Machine.truth
  cases v.bool? with
  | some b => exact .pure rfl
  | none => exact .throw (hfault _)

/-- **A node ends alike** if its operands do and then what it does with them. -/
theorem evalNode {form : ExprForm} (hret : ∀ d value, form = .ret d value → ∀ v, c.error (.ret d v) (.ret d v))
    (hops : c.Performs ops₁ ops₂ form) (h : ∀ e ∈ form.children, Tied c (· = ·) (operand₁ e) (operand₂ e)) :
    Tied c (· = ·) (ops₁.evalNode operand₁ form : EvalM Value) (ops₂.evalNode operand₂ form) := by
  cases form with
  | const _ => exact .pure rfl
  | getValue d => exact hops
  | setValue d value =>
    refine .bind (h value (by simp [ExprForm.children])) fun a b hab => ?_
    subst hab
    exact .bind (hops a) fun _ _ _ => .pure rfl
  | declare d => exact .bind hops fun _ _ _ => .pure rfl
  | getField field receiver =>
    refine .bind (evalOption fun e he => h e (by simp_all [ExprForm.children])) fun a b hab => ?_
    subst hab
    exact hops a
  | setField field receiver value =>
    refine .bind (evalOption fun e he => h e (by simp_all [ExprForm.children])) fun a b hab => ?_
    subst hab
    refine .bind (h value (by simp [ExprForm.children])) fun v v' hv => ?_
    subst hv
    exact .bind (hops a v) fun _ _ _ => .pure rfl
  | call callee dispatch extension args =>
    refine .bind (evalOption fun e he => h e (by simp_all [ExprForm.children])) fun this this' hthis => ?_
    subst hthis
    refine .bind (evalOption fun e he => h e (by simp_all [ExprForm.children])) fun ext ext' hext => ?_
    subst hext
    refine .bind (evalList fun e he => h e (by simp_all [ExprForm.children])) fun vs vs' hvs => ?_
    subst hvs
    exact hops this ext vs
  | propertyRef property dispatch extension =>
    have hreceiver : ∀ e ∈ (dispatch <|> extension), Tied c (· = ·) (operand₁ e) (operand₂ e) := by
      intro e he
      refine h e ?_
      cases dispatch <;> simp_all [ExprForm.children]
    refine .bind (evalOption hreceiver) fun a b hab => ?_
    subst hab
    exact .pure rfl
  | block stmts => exact evalBlock h .unit
  | cond condition thenBranch elseBranch =>
    refine .bind (h condition (by simp [ExprForm.children])) fun a b hab => ?_
    subst hab
    refine .bind (truth hfault a) fun taken taken' htaken => ?_
    subst htaken
    cases taken with
    | true => exact h thenBranch (by simp [ExprForm.children])
    | false =>
      cases elseBranch with
      | none => exact .pure rfl
      | some e => exact h e (by simp [ExprForm.children])
  | binary op lhs rhs =>
    refine .bind (h lhs (by simp [ExprForm.children])) fun a a' ha => ?_
    subst ha
    refine .bind (h rhs (by simp [ExprForm.children])) fun b b' hb => ?_
    subst hb
    exact applyBinary hfault op a b
  | ret function value =>
    refine .bind (evalOption fun e he => h e (by simp_all [ExprForm.children])) fun a b hab => ?_
    subst hab
    exact .throw (hret function value rfl _)
  | construct cls => exact hops

end Tied

namespace Tie

variable {T : Tie} {operand₁ operand₂ : ExprId → EvalM Value} {ops₁ ops₂ : Operations}

/-- What the operation of a node does ends alike. -/
abbrev Performs (T : Tie) (ops₁ ops₂ : Operations) (form : ExprForm) : Prop := T.evals.Performs ops₁ ops₂ form

/-- A node ends alike if its operands do and then what it does with them. -/
theorem evalNode_tied {form : ExprForm} (hops : T.Performs ops₁ ops₂ form)
    (h : ∀ e ∈ form.children, Tied T.evals (· = ·) (operand₁ e) (operand₂ e)) :
    Tied T.evals (· = ·) (ops₁.evalNode operand₁ form : EvalM Value) (ops₂.evalNode operand₂ form) :=
  .evalNode (fun f => Unwinds.stop (a := .fault f) (b := .fault f) (.fault (T.fault_refl f)))
    (fun d _ _ v => Unwinds.ret d v) hops h

end Tie

end DeferredInit
