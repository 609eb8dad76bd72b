import DeferredInit.Proofs.Machine.Resemblance

/-!
# Comparing two computations

Two machines are compared step by step: from states that resemble each other, two computations end alike and in
states that resemble each other again (`Tied`).  Some endings on one side excuse the other side from everything.
A side that has run out of its depth is excused where the other one goes deeper, and a side that is only watched
as long as it keeps to some condition is excused once it breaks it.

Computations that end with `return` and computations that no `return` gets out of are compared in the same way,
each with its own `Comparison`; a `Tie` makes both of them.
-/

namespace DeferredInit

/-- **What is compared**: states, endings without a value, and what excuses the left or the right side. -/
structure Comparison (ε : Type) where
  state : State → State → Prop
  error : ε → ε → Prop
  left : ε → Prop
  right : ε → Prop

/-- Two results are alike, or one of them is an excuse. -/
inductive Agree {ε α β : Type} (c : Comparison ε) (V : α → β → Prop) :
    EStateM.Result ε State α → EStateM.Result ε State β → Prop
  | ok {a : α} {b : β} {s t : State} : V a b → c.state s t → Agree c V (.ok a s) (.ok b t)
  | error {u v : ε} {s t : State} : c.error u v → c.state s t → Agree c V (.error u s) (.error v t)
  | left {u : ε} {s : State} {r : EStateM.Result ε State β} : c.left u → Agree c V (.error u s) r
  | right {v : ε} {t : State} {r : EStateM.Result ε State α} : c.right v → Agree c V r (.error v t)

/-- Results that are alike are so in any comparison that is less strict. -/
theorem Agree.imp {ε α β : Type} {c c' : Comparison ε} {V : α → β → Prop} {r : EStateM.Result ε State α}
    {r' : EStateM.Result ε State β} (h : Agree c V r r') (hstate : ∀ s t, c.state s t → c'.state s t)
    (herror : ∀ u v, c.error u v → c'.error u v) (hleft : ∀ u, c.left u → c'.left u)
    (hright : ∀ v, c.right v → c'.right v) : Agree c' V r r' := by
  cases h with
  | ok hab hst => exact .ok hab (hstate _ _ hst)
  | error huv hst => exact .error (herror _ _ huv) (hstate _ _ hst)
  | left hu => exact .left (hleft _ hu)
  | right hv => exact .right (hright _ hv)

/-- **Two computations that end alike**, from all states that resemble each other. -/
def Tied {ε α β : Type} (c : Comparison ε) (V : α → β → Prop) (x : EStateM ε State α) (y : EStateM ε State β) : Prop :=
  ∀ s t, c.state s t → Agree c V (x s) (y t)

namespace Tied

variable {ε α β γ δ : Type} {c : Comparison ε} {V W : α → β → Prop} {U : γ → δ → Prop} {x : EStateM ε State α}
  {y : EStateM ε State β} {f : α → EStateM ε State γ} {g : β → EStateM ε State δ}

theorem pure {a : α} {b : β} (h : V a b) : Tied c V (pure a) (pure b) := fun _ _ hst => .ok h hst

theorem throw {u v : ε} (h : c.error u v) : Tied c V (throw u : EStateM ε State α) (throw v : EStateM ε State β) :=
  fun _ _ hst => .error h hst

theorem left_throw {u : ε} (h : c.left u) : Tied c V (MonadExcept.throw u : EStateM ε State α) y :=
  fun _ _ _ => .left h

theorem right_throw {v : ε} (h : c.right v) : Tied c V x (MonadExcept.throw v : EStateM ε State β) :=
  fun _ _ _ => .right h

/-- What goes on alike from values that are alike ends alike. -/
theorem bind (hx : Tied c V x y) (hf : ∀ a b, V a b → Tied c U (f a) (g b)) : Tied c U (x >>= f) (y >>= g) := by
  intro s t hst
  have h := hx s t hst
  simp only [Bind.bind, EStateM.bind]
  generalize x s = r, y t = r' at h
  cases h with
  | ok hab hst' => exact hf _ _ hab _ _ hst'
  | error huv hst' => exact .error huv hst'
  | left hu => exact .left hu
  | right hv => exact .right hv

theorem map {f : α → γ} {g : β → δ} (hx : Tied c V x y) (hf : ∀ a b, V a b → U (f a) (g b)) :
    Tied c U (f <$> x) (g <$> y) := by
  intro s t hst
  have h := hx s t hst
  simp only [Functor.map, EStateM.map]
  generalize x s = r, y t = r' at h
  cases h with
  | ok hab hst' => exact .ok (hf _ _ hab) hst'
  | error huv hst' => exact .error huv hst'
  | left hu => exact .left hu
  | right hv => exact .right hv

theorem mono (h : Tied c V x y) (hVW : ∀ a b, V a b → W a b) : Tied c W x y := by
  intro s t hst
  have h := h s t hst
  generalize x s = r, y t = r' at h
  cases h with
  | ok hab hst' => exact .ok (hVW _ _ hab) hst'
  | error huv hst' => exact .error huv hst'
  | left hu => exact .left hu
  | right hv => exact .right hv

end Tied

/-! ## Ties -/

/-- An ending of a run, as that of an evaluation. -/
def Stop.unwind : Stop RuntimeFault → Unwind
  | .fault f => .fault f
  | .halt h => .halt h

/-- **A way to compare machines**: how variables are related, which faults count as alike, and which endings excuse
the left or the right side. -/
structure Tie where
  locals : LocalRel
  locals_refl : ∀ d a, locals d a a
  fault : RuntimeFault → RuntimeFault → Prop
  fault_refl : ∀ f, fault f f
  left : Stop RuntimeFault → Prop
  right : Stop RuntimeFault → Prop

namespace Tie

variable (T : Tie)

/-- A variable holds the same on both sides. -/
def Tight (d : DeclId) : Prop := ∀ a b, T.locals d a b → a = b

/-- Endings of runs that are alike. -/
inductive Stops : Stop RuntimeFault → Stop RuntimeFault → Prop
  | fault {f g : RuntimeFault} : T.fault f g → Stops (.fault f) (.fault g)
  | halt (h : Halt) : Stops (.halt h) (.halt h)

/-- Endings of evaluations that are alike. -/
inductive Unwinds : Unwind → Unwind → Prop
  | ret (function : DeclId) (v : Value) : Unwinds (.ret function v) (.ret function v)
  | stop {a b : Stop RuntimeFault} : T.Stops a b → Unwinds a.unwind b.unwind

/-- The comparison of evaluations. -/
def evals : Comparison Unwind where
  state := State.Resembles T.locals
  error := T.Unwinds
  left u := ∃ stop, T.left stop ∧ u = stop.unwind
  right u := ∃ stop, T.right stop ∧ u = stop.unwind

/-- The comparison of runs. -/
def runs : Comparison (Stop RuntimeFault) where
  state := State.Resembles T.locals
  error := T.Stops
  left := T.left
  right := T.right

variable {T} {α β : Type} {V : α → β → Prop}

theorem fail (f : RuntimeFault) : Tied T.evals V (EvalM.fail f) (EvalM.fail f) :=
  .throw (.stop (a := .fault f) (b := .fault f) (.fault (T.fault_refl f)))

theorem halt (h : Halt) : Tied T.evals V (throw (.halt h)) (throw (.halt h)) :=
  .throw (.stop (.halt h))

theorem left_halt {h : Halt} (hl : T.left (.halt h)) {y : EvalM β} : Tied T.evals V (throw (.halt h)) y :=
  .left_throw ⟨_, hl, rfl⟩

theorem right_halt {h : Halt} (hr : T.right (.halt h)) {x : EvalM α} : Tied T.evals V x (throw (.halt h)) :=
  .right_throw ⟨_, hr, rfl⟩

/-- Runs that end alike do so as parts of evaluations. -/
theorem evaluated {x : RunM α} {y : RunM β} (h : Tied T.runs V x y) : Tied T.evals V x.evaluated y.evaluated := by
  intro s t hst
  have h := h s t hst
  simp only [RunM.evaluated]
  generalize x s = r, y t = r' at h
  cases h with
  | ok hab hst' => exact .ok hab hst'
  | error huv hst' =>
    cases huv with
    | fault hfg => exact .error (.stop (.fault hfg)) hst'
    | halt h => exact .error (.stop (.halt h)) hst'
  | @left u s' _ hu =>
    cases u with
    | fault f => exact .left ⟨.fault f, hu, rfl⟩
    | halt h => exact .left ⟨.halt h, hu, rfl⟩
  | @right v t' _ hv =>
    cases v with
    | fault f => exact .right ⟨.fault f, hv, rfl⟩
    | halt h => exact .right ⟨.halt h, hv, rfl⟩

/-! ## Variables and fields -/

theorem local? {d : DeclId} (hd : T.Tight d) : Tied T.evals (· = ·) (EvalM.local? d) (EvalM.local? d) := by
  intro s t hst
  rw [EvalM.local?_run, EvalM.local?_run]
  exact .ok (hd _ _ (State.Resembles.local? hst (T.locals_refl d none))) hst

theorem setLocal (d : DeclId) (v : Value) : Tied T.evals (· = ·) (EvalM.setLocal d v) (EvalM.setLocal d v) := by
  rintro ⟨_, _, fs, _⟩ ⟨_, _, gs, _⟩ hst
  have hframes : List.Forall₂ (Frame.Resembles T.locals) fs gs := State.Resembles.frames hst
  cases hframes with
  | nil => exact .ok rfl hst
  | cons hfg hrest =>
    refine .ok rfl ⟨hst.reads_eq, hst.statics_eq, hst.size_eq, hst.fields, .cons ⟨hfg.function_eq, fun k => ?_⟩ hrest⟩
    simp only [Table.get?_insert]
    split
    · exact T.locals_refl k _
    · exact hfg.locals k

theorem countRead : Tied T.evals (· = ·) EvalM.countRead EvalM.countRead := fun _ _ hst =>
  .ok rfl (State.Resembles.countRead hst)

theorem static? (field : DeclId) : Tied T.evals (· = ·) (EvalM.static? field) (EvalM.static? field) := fun _ _ hst =>
  .ok (State.Resembles.statics_eq hst field) hst

theorem writeStatic (field : DeclId) (v : Value) :
    Tied T.evals (· = ·) (EvalM.writeStatic field v) (EvalM.writeStatic field v) := fun _ _ hst =>
  .ok rfl (State.Resembles.writeStatic hst field v)

theorem readField (o : ObjectRef) (field : DeclId) :
    Tied T.evals (· = ·) (EvalM.readField o field) (EvalM.readField o field) := fun _ _ hst =>
  .ok (State.Resembles.fields hst o field) hst

theorem writeField (o : ObjectRef) (field : DeclId) (v : Value) :
    Tied T.evals (· = ·) (EvalM.writeField o field v) (EvalM.writeField o field v) := fun _ _ hst =>
  .ok rfl (State.Resembles.setField hst o field v)

theorem newObject (cls : Option DeclId) {a b : Table DeclId Value} (hab : Table.SameContents a b) :
    Tied T.evals (· = ·) (EvalM.newObject cls a) (EvalM.newObject cls b) := fun _ _ hst =>
  .ok (State.Resembles.addObject hst cls hab).1 (State.Resembles.addObject hst cls hab).2

end Tie

end DeferredInit
