import DeferredInit.Proofs.Machine.Semantics

/-!
# Computations that keep a log

To say what happens during a computation, and in what order, one has to write it down.  `LogM` computations have a log
next to the state.  Nothing can read the log, so a computation that writes to it can be compared with one that has no
log: it erases to it if they do the same to the state and end in the same way (`LogM.Erases`).

Nodes are evaluated in any monad above `EvalM`.  If their operands are evaluated under a log, the evaluation erases to
the one without (`Erases.evalNode`).
-/

namespace DeferredInit

/-- **A state with a log**, the earliest entry first. -/
structure Logged (ι : Type) where
  state : State
  log : List ι := []

/-- **A computation that keeps a log.** -/
abbrev LogM (ι ε : Type) := EStateM ε (Logged ι)

namespace LogM

variable {ι ε α β : Type}

/-- A computation that logs nothing. -/
def silent (x : EStateM ε State α) : LogM ι ε α := fun l =>
  match x l.state with
  | .ok a t => .ok a { l with state := t }
  | .error u t => .error u { l with state := t }

instance : MonadLift EvalM (LogM ι Unwind) := ⟨silent⟩

/-- A result without the log. -/
def erase : EStateM.Result ε (Logged ι) α → EStateM.Result ε State α
  | .ok a l => .ok a l.state
  | .error u l => .error u l.state

/-- **A computation erases to another** if they are the same but for the log. -/
def Erases (x : LogM ι ε α) (y : EStateM ε State α) : Prop := ∀ l, erase (x l) = y l.state

namespace Erases

variable {x : LogM ι ε α} {y : EStateM ε State α}

theorem pure (a : α) : Erases (Pure.pure a : LogM ι ε α) (Pure.pure a) := fun _ => rfl

theorem throw (u : ε) : Erases (MonadExcept.throw u : LogM ι ε α) (MonadExcept.throw u) := fun _ => rfl

theorem silent (y : EStateM ε State α) : Erases (LogM.silent y : LogM ι ε α) y := by
  intro l
  unfold LogM.silent
  cases y l.state <;> rfl

theorem lift (y : EvalM α) : Erases (liftM y : LogM ι Unwind α) y := silent y

theorem bind (hx : Erases x y) {f : α → LogM ι ε β} {g : α → EStateM ε State β} (hf : ∀ a, Erases (f a) (g a)) :
    Erases (x >>= f) (y >>= g) := by
  intro l
  have h := hx l
  simp only [Bind.bind, EStateM.bind]
  rw [← h]
  cases x l with
  | ok a l' => exact hf a l'
  | error u l' => rfl

theorem map (hx : Erases x y) (f : α → β) : Erases (f <$> x) (f <$> y) := by
  intro l
  have h := hx l
  simp only [Functor.map, EStateM.map]
  rw [← h]
  cases x l <;> rfl

section Nodes

variable {logged : ExprId → LogM ι Unwind Value} {plain : ExprId → EvalM Value} (h : ∀ c, Erases (logged c) (plain c))
include h

theorem evalOption (o : Option ExprId) : Erases (Operations.evalOption logged o) (Operations.evalOption plain o) := by
  cases o with
  | none => exact .pure none
  | some c => exact (h c).map some

theorem evalList (cs : List ExprId) : Erases (Operations.evalList logged cs) (Operations.evalList plain cs) := by
  induction cs with
  | nil => exact .pure []
  | cons c rest ih => exact (h c).bind fun v => ih.bind fun vs => .pure (v :: vs)

theorem evalBlock (last : Value) (cs : List ExprId) :
    Erases (Operations.evalBlock logged last cs) (Operations.evalBlock plain last cs) := by
  induction cs generalizing last with
  | nil => exact .pure last
  | cons c rest ih => exact (h c).bind fun v => ih v

/-- **A node erases** to the node, if its operands do. -/
theorem evalNode (ops : Operations) (form : ExprForm) : Erases (ops.evalNode logged form) (ops.evalNode plain form) := by
  cases form with
  | const c => exact .pure _
  | getValue d => exact .lift _
  | setValue target value => exact (h value).bind fun v => (lift _).bind fun _ => .pure _
  | declare d => exact (lift _).bind fun _ => .pure _
  | getField field receiver => exact (evalOption h receiver).bind fun _ => .lift _
  | setField field receiver value =>
    exact (evalOption h receiver).bind fun _ => (h value).bind fun _ => (lift _).bind fun _ => .pure _
  | call callee dispatch extension args =>
    exact (evalOption h dispatch).bind fun _ => (evalOption h extension).bind fun _ =>
      (evalList h args).bind fun _ => .lift _
  | propertyRef property dispatch extension => exact (evalOption h _).bind fun _ => .pure _
  | block stmts => exact evalBlock h _ stmts
  | cond condition thenBranch elseBranch =>
    refine (h condition).bind fun v => (lift (Machine.truth v)).bind fun taken => ?_
    cases taken with
    | true => exact h thenBranch
    | false =>
      cases elseBranch with
      | none => exact .pure _
      | some e => exact h e
  | binary op lhs rhs => exact (h lhs).bind fun _ => (h rhs).bind fun _ => .lift _
  | ret function value => exact (evalOption h value).bind fun _ => .lift _
  | construct cls => exact .lift _

end Nodes

end Erases

/-! ## What is added to the log -/

/-- The state and the log that a result leaves. -/
def final : EStateM.Result ε (Logged ι) α → Logged ι
  | .ok _ l => l
  | .error _ l => l

/-- **A result that adds to a log**, in a state of which something holds.  What is added depends on how it ends: with a
value, or with what it stops for. -/
inductive Adds (I : State → Prop) (P : Option ε → List ι → Prop) (l : Logged ι) :
    EStateM.Result ε (Logged ι) α → Prop
  | ok {a : α} {t : State} {log : List ι} : I t → P none log → Adds I P l (.ok a ⟨t, l.log ++ log⟩)
  | error {u : ε} {t : State} {log : List ι} : I t → P (some u) log → Adds I P l (.error u ⟨t, l.log ++ log⟩)

namespace Adds

variable {I J : State → Prop} {P Q : Option ε → List ι → Prop} {l l' : Logged ι} {first : List ι}

/-- Nothing is added. -/
theorem ok_nil {a : α} {t : State} (ht : I t) (h : P none []) : Adds I P l (.ok a { l with state := t }) := by
  have hadds : Adds I P l (.ok a ⟨t, l.log ++ []⟩) := .ok ht h
  rwa [List.append_nil] at hadds

theorem error_nil {u : ε} {t : State} (ht : I t) (h : P (some u) []) :
    Adds I P l (.error u { l with state := t } : EStateM.Result ε (Logged ι) α) := by
  have hadds : Adds I P l (.error u ⟨t, l.log ++ []⟩ : EStateM.Result ε (Logged ι) α) := .error ht h
  rwa [List.append_nil] at hadds

/-- What is added after a first part of the log is added together with it. -/
theorem after {r : EStateM.Result ε (Logged ι) α} (h : Adds I P l' r) (hl : l'.log = l.log ++ first)
    (hIJ : ∀ t, I t → J t) (hPQ : ∀ stop log, P stop log → Q stop (first ++ log)) : Adds J Q l r := by
  cases h with
  | ok ht h =>
    rw [hl, List.append_assoc]
    exact .ok (hIJ _ ht) (hPQ _ _ h)
  | error ht h =>
    rw [hl, List.append_assoc]
    exact .error (hIJ _ ht) (hPQ _ _ h)

/-- What goes on adds to what has been added before. -/
theorem bind {x : LogM ι ε α} {f : α → LogM ι ε β} (hx : Adds I P l (x l)) (hstop : ∀ u log, P (some u) log → Q (some u) log)
    (hf : ∀ a t log, I t → P none log →
      Adds I (fun stop more => Q stop (log ++ more)) ⟨t, l.log ++ log⟩ (f a ⟨t, l.log ++ log⟩)) :
    Adds I Q l ((x >>= f) l) := by
  simp only [Bind.bind, EStateM.bind]
  generalize x l = r at hx
  cases hx with
  | ok ht h => exact (hf _ _ _ ht h).after rfl (fun _ => id) fun _ _ => id
  | error ht h => exact .error ht (hstop _ _ h)

end Adds

end LogM

end DeferredInit
