import DeferredInit.Proofs.Machine.Compositional

/-!
# What a return ends

A `return` names a function.  If it is the innermost one that is running, the call of it ends there and then with the
value that is returned.  If it is any other one, whether it is running or not, the `return` is a fault, and all calls
end with it: a `return` does not reach a function that has called another one since (`returns_end`).  There is no other
way to the fault.

What has been recorded when a computation ends says so.  As long as it goes on, the record is `Settled`; when it stops,
the record tells what for (`Ending`).  An evaluation keeps to this if what it enters does, so by induction over the
depth all evaluations do (`Tells.eval`).
-/

namespace DeferredInit

open Recorded (IsStray)
open LogM (Adds)

/-- **All returns in a record are settled**: each names the innermost function, and is followed by the end of the call
of it, with the value that is returned. -/
def Settled (log : List Entry) : Prop :=
  ∀ before running f v after, log = before ++ ⟨running, .returns f v⟩ :: after →
    running.head? = some f ∧ ∃ rest, after = ⟨running, .ends f (.ok v)⟩ :: rest

namespace Settled

variable {log log' : List Entry} {running : List DeclId} {f : DeclId} {v : Value}

theorem nil : Settled [] := by
  intro before running f v after h
  exact absurd h (by simp)

theorem append (h : Settled log) (h' : Settled log') : Settled (log ++ log') := by
  intro before running f v after heq
  rcases List.append_eq_append_iff.1 heq with ⟨c, hc, hlog'⟩ | ⟨c, hlog, hc⟩
  · exact h' c running f v after hlog'
  · cases c with
    | nil => exact h' [] running f v after hc.symm
    | cons entry c =>
      obtain ⟨rfl, rfl⟩ := List.cons.inj hc
      obtain ⟨hhead, rest, rfl⟩ := h before running f v c hlog
      exact ⟨hhead, rest ++ log', rfl⟩

/-- What is no `return` needs no settling. -/
theorem of_forall (h : ∀ entry ∈ log, ∀ f v, entry.event ≠ .returns f v) : Settled log := by
  rintro before running f v after rfl
  exact absurd rfl (h ⟨running, .returns f v⟩ (by simp) f v)

theorem singleton {event : Event} (h : ∀ f v, event ≠ .returns f v) : Settled [⟨running, event⟩] :=
  of_forall fun entry hentry => by
    rw [List.mem_singleton.1 hentry]
    exact h

/-- A `return` from the innermost function is settled when the call of it ends. -/
theorem returned (f : DeclId) (v : Value) (below : List DeclId) :
    Settled [⟨f :: below, .returns f v⟩, ⟨f :: below, .ends f (.ok v)⟩] := by
  intro before running g u after heq
  cases before with
  | nil =>
    obtain ⟨hentry, rfl⟩ := List.cons.inj heq
    cases hentry
    exact ⟨rfl, [], rfl⟩
  | cons first before =>
    have hends : Settled [⟨f :: below, .ends f (.ok v)⟩] := singleton nofun
    exact hends _ _ _ _ _ (List.cons.inj heq).2

end Settled

/-- **Calls that end one after the other** for the same reason: those of the functions `above`, with those `below` still
running. -/
def unwinding (stop : Stop RuntimeFault) : List DeclId → List DeclId → List Entry
  | [], _ => []
  | f :: above, below => ⟨f :: above ++ below, .ends f (.error stop)⟩ :: unwinding stop above below

theorem unwinding_concat (stop : Stop RuntimeFault) (above : List DeclId) (f : DeclId) (below : List DeclId) :
    unwinding stop (above ++ [f]) below =
      unwinding stop above (f :: below) ++ [⟨f :: below, .ends f (.error stop)⟩] := by
  induction above with
  | nil => rfl
  | cons g above ih => simp [unwinding, ih]

/-- **How a computation ends** while the functions `fs` are running, as its record tells. -/
inductive Ending (m : Machine) (fs : List DeclId) : Option Unwind → List Entry → Prop
  /-- It comes to a value. -/
  | value {log : List Entry} : Settled log → Ending m fs none log
  /-- It stops for a reason that has nothing to do with a `return`. -/
  | stopped {log : List Entry} {stop : Stop RuntimeFault} : Settled log → ¬IsStray stop →
      Ending m fs (some stop.unwind) log
  /-- A `return` has been executed, which is on its way to the end of the call. -/
  | returns {log : List Entry} (f : DeclId) (v : Value) : Settled log →
      Ending m fs (some (.ret f v)) (log ++ [⟨fs, .returns f v⟩])
  /-- A `return` has been executed that does not name the innermost function, and calls have ended since. -/
  | stray {log : List Entry} (above : List DeclId) (f : DeclId) (v : Value) : Settled log →
      (above ++ fs).head? ≠ some f →
      Ending m fs (some (m.strayFault f).unwind)
        (log ++ ⟨above ++ fs, .returns f v⟩ :: unwinding (m.strayFault f) above fs)

theorem Ending.prepend {m : Machine} {fs : List DeclId} {log log' : List Entry} {stop : Option Unwind}
    (hlog : Settled log) (h : Ending m fs stop log') : Ending m fs stop (log ++ log') := by
  cases h with
  | value h => exact .value (hlog.append h)
  | stopped h hstop => exact .stopped (hlog.append h) hstop
  | returns f v h =>
    rw [← List.append_assoc]
    exact .returns f v (hlog.append h)
  | stray above f v h hhead =>
    rw [← List.append_assoc]
    exact .stray above f v (hlog.append h) hhead

theorem Ending.settled {m : Machine} {fs : List DeclId} {log : List Entry} (h : Ending m fs none log) : Settled log := by
  cases h with
  | value h => exact h

theorem Stop.unwind_ne_ret (stop : Stop RuntimeFault) (f : DeclId) (v : Value) : some stop.unwind ≠ some (.ret f v) := by
  cases stop <;> simp [Stop.unwind]

/-- A `return` that is on its way has just been executed. -/
theorem Ending.of_ret {m : Machine} {fs : List DeclId} {f : DeclId} {v : Value} {log : List Entry}
    (h : Ending m fs (some (.ret f v)) log) : ∃ settled, Settled settled ∧ log = settled ++ [⟨fs, .returns f v⟩] := by
  generalize hstop : some (Unwind.ret f v) = stop at h
  cases h with
  | value => cases hstop
  | @stopped _ stop => exact absurd hstop.symm (stop.unwind_ne_ret f v)
  | returns g u hlog =>
    cases hstop
    exact ⟨_, hlog, rfl⟩
  | stray above g => exact absurd hstop.symm ((m.strayFault g).unwind_ne_ret f v)

/-- **The record of a computation tells how it ends.**  The same functions are running then as before. -/
def Tells (m : Machine) {α : Type} (x : LogM Entry Unwind α) : Prop :=
  ∀ l, Adds (fun t => t.running = l.state.running) (Ending m l.state.running) l (x l)

/-- The record of a computation that no `return` gets out of tells how it ends. -/
def TellsRun (m : Machine) {α : Type} (x : LogM Entry (Stop RuntimeFault) α) : Prop :=
  ∀ l, Adds (fun t => t.running = l.state.running) (fun stop => Ending m l.state.running (stop.map Stop.unwind)) l (x l)

/-! ## Operations that start no other code -/

/-- **A computation that has nothing to do with calls**: it leaves the functions running that are, and if it stops, that
is not for a `return`. -/
def Quiet {α : Type} (y : EvalM α) : Prop :=
  ∀ s, match y s with
    | .ok _ t => t.running = s.running
    | .error u t => t.running = s.running ∧ ∃ stop, u = Stop.unwind stop ∧ ¬IsStray stop

theorem Detached.quiet {α : Type} {y : EvalM α} (h : Detached y) : Quiet y := by
  intro s
  have hs := h s
  generalize y s = r at hs
  cases r with
  | ok a t => exact hs.2
  | error u t => exact ⟨hs.1.2, hs.2⟩

namespace Quiet

theorem writeStatic (field : DeclId) (v : Value) : Quiet (EvalM.writeStatic field v) := fun _ => rfl

theorem static? (field : DeclId) : Quiet (EvalM.static? field) := fun _ => rfl

end Quiet

/-! ## Evaluating -/

namespace Tells

variable {m : Machine} {α β : Type} {x : LogM Entry Unwind α}

theorem lift {y : EvalM α} (hy : Quiet y) : Tells m (liftM y : LogM Entry Unwind α) := by
  intro l
  show Adds _ _ l (LogM.silent y l)
  have h := hy l.state
  unfold LogM.silent
  generalize y l.state = r at h
  cases r with
  | ok a t => exact .ok_nil h (.value .nil)
  | error u t =>
    obtain ⟨hrunning, stop, rfl, hstop⟩ := h
    exact .error_nil hrunning (.stopped .nil hstop)

theorem pure (a : α) : Tells m (Pure.pure a : LogM Entry Unwind α) := fun _ => .ok_nil rfl (.value .nil)

theorem bind (hx : Tells m x) {f : α → LogM Entry Unwind β} (hf : ∀ a, Tells m (f a)) : Tells m (x >>= f) := by
  intro l
  refine (hx l).bind (fun u log h => h) fun a t log ht hlog => ?_
  refine (hf a _).after (List.append_nil _).symm (fun t' ht' => ht'.trans ht) fun stop more hmore => ?_
  rw [ht] at hmore
  exact hmore.prepend hlog.settled

/-- What goes on from a computation that has nothing to do with calls goes on from a value that it has come to. -/
theorem lift_bind {y : EvalM α} (hy : Quiet y) {f : α → LogM Entry Unwind β}
    (hf : ∀ a s t, y s = .ok a t → Tells m (f a)) : Tells m (liftM y >>= f) := by
  intro l
  have h := hy l.state
  show Adds _ _ l ((LogM.silent y >>= f) l)
  simp only [Bind.bind, EStateM.bind, LogM.silent]
  cases hys : y l.state with
  | ok a t =>
    rw [hys] at h
    have hnext := hf a _ _ hys ⟨t, l.log⟩
    rw [h] at hnext
    exact hnext.after (List.append_nil _).symm (fun _ ht' => ht') fun _ _ hending => hending
  | error u t =>
    rw [hys] at h
    obtain ⟨hrunning, stop, rfl, hstop⟩ := h
    exact .error_nil hrunning (.stopped .nil hstop)

/-- What is no `return` is simply written down. -/
theorem record (event : Event) (h : ∀ f v, event ≠ .returns f v) : Tells m (LogM.record event) :=
  fun _ => .ok rfl (.value (.singleton h))

/-- A `return` is on its way once it is written down. -/
theorem returns (f : DeclId) (v : Value) :
    Tells m (do LogM.record (.returns f v); throw (.ret f v) : LogM Entry Unwind α) :=
  fun _ => .error rfl (.returns f v .nil)

theorem evaluated {x : LogM Entry (Stop RuntimeFault) α} (hx : TellsRun m x) : Tells m (LogM.evaluated x) := by
  intro l
  have h := hx l
  unfold LogM.evaluated
  generalize x l = r at h
  cases h with
  | ok ht h => exact .ok ht h
  | @error stop _ _ ht h => cases stop <;> exact .error ht h

/-- **Telling how it ends** is something that the record of the whole does if those of its parts do. -/
theorem compositional (m : Machine) : Compositional fun x => Tells m x where
  pure a := pure a
  bind hx hf := hx.bind hf
  lift_bind hy hf := lift_bind hy.quiet hf
  returns f v := returns f v

theorem staticField {enter : ExprId → LogM Entry Unwind Value} (h : ∀ c, Tells m (enter c)) (field : DeclId)
    (D : Decl) : Tells m (Recorded.staticField enter field D) := by
  refine (lift (.static? field)).bind fun held => ?_
  cases held with
  | some v => exact (record (.loads field v) nofun).bind fun _ => pure v
  | none =>
    have hstore (v : Value) : Tells m (do
        liftM (EvalM.writeStatic field v)
        LogM.record (.initializes field v)
        LogM.record (.loads field v)
        return v) :=
      (lift (.writeStatic field v)).bind fun _ => (record (.initializes field v) nofun).bind fun _ =>
        (record (.loads field v) nofun).bind fun _ => pure v
    cases D.form.field?.bind (·.initializer) with
    | none => exact (pure _).bind hstore
    | some init => exact (h init).bind hstore

end Tells

/-! ## Calls -/

/-- What a computation has stopped for, if it has not come to a value. -/
def stopOf {ε α : Type} : Except ε α → Option ε
  | .ok _ => none
  | .error u => some u

theorem Machine.outcome_unwind (m : Machine) (f : DeclId) (stop : Stop RuntimeFault) :
    m.outcome f (.error stop.unwind) = .error stop := by
  cases stop <;> rfl

/-- **How a call ends follows from how its body ends.**  A `return` on its way ends the call if it names the function,
and is a fault if it does not; a fault ends one call more. -/
theorem Ending.leave {m : Machine} {f : DeclId} {fs : List DeclId} {r : Except Unwind Value} {log : List Entry}
    (h : Ending m (f :: fs) (stopOf r) log) :
    Ending m fs ((stopOf (m.outcome f r)).map Stop.unwind) (log ++ [⟨f :: fs, .ends f (m.outcome f r)⟩]) := by
  have hends (outcome : Except (Stop RuntimeFault) Value) : Settled [⟨f :: fs, .ends f outcome⟩] := .singleton nofun
  cases r with
  | ok v => exact .value (h.settled.append (hends (.ok v)))
  | error u =>
    cases h with
    | @stopped _ stop hlog hstop =>
      rw [m.outcome_unwind]
      exact .stopped (hlog.append (hends _)) hstop
    | @returns log g v hlog =>
      rw [List.append_assoc]
      by_cases hg : g = f
      · subst hg
        rw [show m.outcome g (.error (.ret g v)) = .ok v from if_pos rfl]
        exact .value (hlog.append (.returned g v fs))
      · rw [show m.outcome f (.error (.ret g v)) = .error (m.strayFault g) from if_neg hg]
        exact .stray [f] g v hlog fun hhead => hg (Option.some.inj hhead).symm
    | @stray log above g v hlog hhead =>
      rw [m.outcome_unwind, List.append_assoc, List.cons_append, ← unwinding_concat]
      have hrunning : above ++ f :: fs = (above ++ [f]) ++ fs := by simp
      rw [hrunning] at hhead ⊢
      exact .stray (above ++ [f]) g v hlog hhead

namespace TellsRun

variable {m : Machine}

theorem inFrame {body : LogM Entry Unwind Value} (h : Tells m body) (frame : Frame) :
    TellsRun m (Recorded.inFrame m frame body) := by
  intro l
  have hbody := h { l with state := l.state.enter frame }
  have hleave (t : State) (log : List Entry) (r : Except Unwind Value)
      (ht : t.running = frame.function :: l.state.running)
      (h : Ending m (frame.function :: l.state.running) (stopOf r) log) :
      Adds (fun t => t.running = l.state.running) (fun stop => Ending m l.state.running (stop.map Stop.unwind)) l
        (Logged.result ⟨t.leave, l.log ++ log ++ [⟨t.running, .ends frame.function (m.outcome frame.function r)⟩]⟩
          (m.outcome frame.function r)) := by
    have hrunning : t.leave.running = l.state.running := by
      rw [State.running, State.leave, List.map_tail]
      exact congrArg List.tail ht
    have hends := h.leave
    rw [List.append_assoc, ht]
    generalize m.outcome frame.function r = outcome at hends ⊢
    cases outcome with
    | ok v => exact .ok hrunning hends
    | error stop => exact .error hrunning hends
  unfold Recorded.inFrame
  generalize body { l with state := l.state.enter frame } = r at hbody
  cases hbody with
  | @ok v t log ht h => exact hleave t log (.ok v) ht h
  | @error u t log ht h => exact hleave t log (.error u) ht h

/-- A call is refused, or ends as its body does. -/
theorem invoke {enter : ExprId → LogM Entry Unwind Value} (h : ∀ c, Tells m (enter c)) (function : DeclId)
    (this extension : Option Value) (args : List Value) :
    TellsRun m (Recorded.invoke m enter function this extension args) := by
  intro l
  rcases Recorded.invoke_cases m enter function this extension args l with
    ⟨stop, hstop, hinvoke⟩ | ⟨D, f, body, -, -, -, hinvoke⟩
  · rw [hinvoke]
    have hending : Ending m l.state.running (some stop.unwind) [] := .stopped .nil hstop
    exact .error_nil rfl hending
  · rw [hinvoke]
    exact inFrame (h body) _ l

/-- An instance is made from outside while no function is running, so a `return` has none to end. -/
theorem construct {enter : ExprId → LogM Entry Unwind Value} (h : ∀ c, Tells m (enter c)) (cls : DeclId)
    {l : Logged Entry} (hl : l.state.running = []) :
    Adds (fun t => t.running = []) (fun stop => Ending m [] (stop.map Stop.unwind)) l
      (Recorded.construct m enter cls l) := by
  have hinstance : Tells m (Recorded.instantiate m enter cls) :=
    (Tells.compositional m).instantiate fun _ _ init _ => h init
  have hadds := hinstance l
  rw [hl] at hadds
  unfold Recorded.construct
  generalize Recorded.instantiate m enter cls l = r at hadds
  cases hadds with
  | ok ht h => exact .ok ht h
  | @error u t log ht h =>
    cases u with
    | ret g v =>
      obtain ⟨settled, hlog, rfl⟩ := h.of_ret
      exact .error ht (.stray [] g v hlog nofun)
    | fault f => exact .error ht h
    | halt halt => exact .error ht h

end TellsRun

namespace Tells

variable {m : Machine}

/-- **The record of a node tells how it ends**, if the record of what it enters does. -/
theorem node {enter : ExprId → LogM Entry Unwind Value} (h : ∀ c, Tells m (enter c)) (e : ExprId) :
    Tells m (Recorded.node m enter e) := by
  refine (compositional m).node (fun c _ => h c) (fun function this ext args _ => ?_) (fun field D _ _ _ _ => ?_)
    fun field v _ => ?_
  · exact evaluated (TellsRun.invoke h function this ext args)
  · exact staticField h field D
  · exact (lift (.writeStatic field v)).bind fun _ => record (.stores field v) nofun

/-- **The record of an evaluation tells how it ends**, at any depth. -/
theorem eval (m : Machine) (depth : Nat) (e : ExprId) : Tells m (Recorded.eval m depth e) := by
  induction depth generalizing e with
  | zero => exact fun l => lift (Detached.throw (.halt .exhausted) nofun).quiet l
  | succ depth ih => exact node ih e

end Tells

/-- **The record of a step tells how it ends**, when it is taken while no function is running. -/
theorem TellsRun.take (m : Machine) (step : Step) {l : Logged Entry} (hl : l.state.running = []) :
    Adds (fun t => t.running = []) (fun stop => Ending m [] (stop.map Stop.unwind)) l (Recorded.take m step l) := by
  have heval := Tells.eval m m.depthBound
  cases step with
  | construct cls => exact construct heval cls hl
  | callFunction function args =>
    have h := invoke heval function none none args l
    rwa [hl] at h
  | callMethod function receiver args =>
    have h := invoke heval function (some receiver) none args l
    rwa [hl] at h

/-! ## Steps -/

theorem Stop.unwind_injective {a b : Stop RuntimeFault} (h : a.unwind = b.unwind) : a = b := by
  cases a <;> cases b <;> cases h <;> rfl

/-- Calls that end are no returns. -/
theorem not_returns_of_mem_unwinding {stop : Stop RuntimeFault} {above below : List DeclId} {entry : Entry}
    (h : entry ∈ unwinding stop above below) (f : DeclId) (v : Value) : entry.event ≠ .returns f v := by
  induction above with
  | nil => cases h
  | cons g above ih =>
    rcases List.mem_cons.1 h with rfl | h
    · nofun
    · exact ih h

/-- **What follows a `return`** in the record of a step: the end of the call of the innermost function, if the `return`
names it, and otherwise the end of all calls, with the fault that the step ends with. -/
theorem Ending.after_return {m : Machine} {stop : Option (Stop RuntimeFault)} {log : List Entry}
    (h : Ending m [] (stop.map Stop.unwind) log) {before after : List Entry} {running : List DeclId} {f : DeclId}
    {v : Value} (hlog : log = before ++ ⟨running, .returns f v⟩ :: after) :
    (running.head? = some f ∧ ∃ rest, after = ⟨running, .ends f (.ok v)⟩ :: rest) ∨
      running.head? ≠ some f ∧ after = unwinding (m.strayFault f) running [] ∧ stop = some (m.strayFault f) := by
  generalize hunwind : stop.map Stop.unwind = u at h
  cases h with
  | value hsettled => exact .inl (hsettled before running f v after hlog)
  | stopped hsettled => exact .inl (hsettled before running f v after hlog)
  | returns g w =>
    obtain ⟨stop, -, hstop⟩ := Option.map_eq_some_iff.1 hunwind
    exact absurd (congrArg some hstop) (stop.unwind_ne_ret g w)
  | @stray settled above g w hsettled hhead =>
    obtain ⟨stop, rfl, hstop⟩ := Option.map_eq_some_iff.1 hunwind
    obtain rfl := Stop.unwind_injective hstop
    rw [List.append_nil] at hhead hlog
    rcases List.append_eq_append_iff.1 hlog with ⟨c, hc, hstray⟩ | ⟨c, hc, hreturn⟩
    · -- it is the stray one, since none comes after it
      cases c with
      | nil =>
        obtain ⟨hentry, rfl⟩ := List.cons.inj hstray
        cases hentry
        exact .inr ⟨hhead, rfl, rfl⟩
      | cons first c =>
        have hmem : (⟨running, .returns f v⟩ : Entry) ∈ unwinding (m.strayFault g) above [] := by
          rw [(List.cons.inj hstray).2]
          simp
        exact absurd rfl (not_returns_of_mem_unwinding hmem f v)
    · cases c with
      | nil =>
        obtain ⟨hentry, rfl⟩ := List.cons.inj hreturn
        cases hentry
        exact .inr ⟨hhead, rfl, rfl⟩
      | cons first c =>
        -- it is settled before the stray one is executed
        obtain ⟨rfl, rfl⟩ := List.cons.inj hreturn
        obtain ⟨hinner, rest, rfl⟩ := hsettled before running f v c hc
        exact .inl ⟨hinner, rest ++ _, rfl⟩

/-- A step that ends with the fault of a stray `return` has executed one. -/
theorem Ending.exists_stray {m : Machine} {stop : Stop RuntimeFault} {log : List Entry} (hstray : IsStray stop)
    (h : Ending m [] (some stop.unwind) log) : ∃ before running f v,
      log = before ++ ⟨running, .returns f v⟩ :: unwinding stop running [] ∧ running.head? ≠ some f ∧
        stop = m.strayFault f := by
  generalize hunwind : some stop.unwind = u at h
  cases h with
  | value => cases hunwind
  | stopped hsettled hstop =>
    obtain rfl := Stop.unwind_injective (Option.some.inj hunwind)
    exact absurd hstray hstop
  | returns g w => exact absurd hunwind (stop.unwind_ne_ret g w)
  | @stray settled above g w hsettled hhead =>
    obtain rfl := Stop.unwind_injective (Option.some.inj hunwind)
    rw [List.append_nil] at hhead ⊢
    exact ⟨settled, above, g, w, rfl, hhead, rfl⟩

namespace Machine

variable (m : Machine)

/-- The fault of a stray `return` names the function that it was to end. -/
theorem name_of_strayFault {f : DeclId} {name : String}
    (h : m.strayFault f = .fault (.unexpectedDecl name "function on the call stack")) :
    ∃ F, m.program.decl? f = some F ∧ F.name = name := by
  unfold strayFault at h
  split at h
  · rename_i F hF
    cases h
    exact ⟨F, hF, rfl⟩
  · cases h

/-- **A `return` ends the call of the innermost function**, with the value that is returned, if that is the function
that it names.  If it names any other function, it is a fault, with which all calls end and the step with them.  Steps
end with the fault for no other reason.

The function that is named may be running all the same, further out: it is not reached. -/
theorem returns_end {s : State} (hs : m.Between s) (step : Step) :
    let r := Recorded.take m step ⟨s, []⟩
    LogM.erase r = m.take step s ∧
      (∀ before running f v after, (LogM.final r).log = before ++ ⟨running, .returns f v⟩ :: after →
        (running.head? = some f → ∃ rest, after = ⟨running, .ends f (.ok v)⟩ :: rest) ∧
        (running.head? ≠ some f → after = unwinding (m.strayFault f) running [] ∧
          ∃ t, m.take step s = .error (m.strayFault f) t)) ∧
      ∀ name t, m.take step s = .error (.fault (.unexpectedDecl name "function on the call stack")) t →
        ∃ before running f v after F, (LogM.final r).log = before ++ ⟨running, .returns f v⟩ :: after ∧
          running.head? ≠ some f ∧ m.program.decl? f = some F ∧ F.name = name := by
  intro r
  have herase : LogM.erase r = m.take step s := Recorded.take_erases m step ⟨s, []⟩
  have hrunning : s.running = [] := congrArg (List.map Frame.function) hs.frames_eq_nil
  have hadds : Adds _ _ ⟨s, []⟩ r := TellsRun.take m step hrunning
  refine ⟨herase, ?_⟩
  rw [← herase]
  generalize r = r at hadds
  cases hadds with
  | @ok a t log ht h =>
    refine ⟨fun before running f v after hlog => ?_, nofun⟩
    rcases Ending.after_return h hlog with ⟨hinner, hends⟩ | ⟨hhead, -, hstop⟩
    · exact ⟨fun _ => hends, fun hhead => absurd hinner hhead⟩
    · cases hstop
  | @error stop t log ht h =>
    refine ⟨fun before running f v after hlog => ?_, fun name t' hname => ?_⟩
    · rcases Ending.after_return h hlog with ⟨hinner, hends⟩ | ⟨hhead, hends, hstop⟩
      · exact ⟨fun _ => hends, fun hhead => absurd hinner hhead⟩
      · obtain rfl := Option.some.inj hstop
        exact ⟨fun hinner => absurd hinner hhead, fun _ => ⟨hends, t, rfl⟩⟩
    · obtain ⟨hstop, -⟩ := EStateM.Result.error.inj hname
      obtain ⟨before, running, f, v, hlog, hhead, hstray⟩ := Ending.exists_stray ⟨name, hstop⟩ h
      obtain ⟨F, hF, hFname⟩ := m.name_of_strayFault (hstray.symm.trans hstop)
      exact ⟨before, running, f, v, _, F, hlog, hhead, hF, hFname⟩

/-- A machine goes deep enough for any small program. -/
theorem exists_depthBound_eq {k : Nat} (hk : k ≤ ampleDepth) : ∃ n, m.depthBound = n + k := by
  have hle : k ≤ m.depthBound := by
    rw [depthBound]
    exact Nat.le_trans hk (Nat.le_add_left _ _)
  exact ⟨m.depthBound - k, (Nat.sub_add_cancel hle).symm⟩

/-- A machine for the sample program, as machines are made. -/
def sampleMachine : Machine := ⟨sample, Library.standard, 256⟩

/-- In the sample program, the getter of an instance returns null before the property is assigned, and that ends it. -/
theorem returns_end_sample :
    let s := State.after {} (sampleMachine.take (.construct ⟨0⟩))
    let step : Step := .callMethod ⟨3⟩ (.object ⟨0, some ⟨0⟩⟩) []
    let ends : Entry := ⟨[⟨3⟩], .ends ⟨3⟩ (.ok .null)⟩
    sampleMachine.Between s ∧ LogM.erase (Recorded.take sampleMachine step ⟨s, []⟩) = sampleMachine.take step s ∧
      (LogM.final (Recorded.take sampleMachine step ⟨s, []⟩)).log = [⟨[⟨3⟩], .returns ⟨3⟩ .null⟩, ends] ∧
      ∃ rest, [ends] = ends :: rest := by
  intro s step ends
  have hs : sampleMachine.Between s := .step (.construct ⟨0⟩) .start
  obtain ⟨n, hn⟩ := sampleMachine.exists_depthBound_eq (k := 8) (by decide)
  have hafter : s = { objects := #[∅] } := by
    show State.after {} (sampleMachine.take (.construct ⟨0⟩)) = _
    have heval : sampleMachine.evaluate = sampleMachine.eval sampleMachine.depthBound :=
      funext fun e => evaluate.eq_1 sampleMachine e
    rw [sampleMachine.take_eq, heval, hn]
    rfl
  have hlog : (LogM.final (Recorded.take sampleMachine step ⟨s, []⟩)).log =
      [] ++ ⟨[⟨3⟩], .returns ⟨3⟩ .null⟩ :: [ends] := by
    rw [hafter, Recorded.take, hn]
    rfl
  obtain ⟨herase, hreturns, -⟩ := sampleMachine.returns_end hs step
  exact ⟨hs, herase, hlog, (hreturns _ _ _ _ _ hlog).1 rfl⟩

/-- A function that calls another one, which returns from the first. -/
def detour : Program where
  name := "detour"
  decls := #[{ name := "outer", span := .unknown, form := .function { returnType := .int, body := some ⟨2⟩ } },
    { name := "inner", span := .unknown, form := .function { returnType := .int, body := some ⟨1⟩ } }]
  exprs := #[⟨.unknown, .int, .const (.int 5)⟩, ⟨.unknown, .nothing, .ret ⟨0⟩ (some ⟨0⟩)⟩,
    ⟨.unknown, .int, .call (.declared ⟨1⟩) none none []⟩]
  topLevel := [⟨0⟩, ⟨1⟩]

/-- A `return` does not reach a function that has called another one since, though that function is still running. -/
theorem exists_return_not_reaching : ¬∀ (m : Machine) (s : State) (step : Step) (before : List Entry)
    (running : List DeclId) (f : DeclId) (v : Value) (after : List Entry), m.program.Closed → m.Between s →
      (LogM.final (Recorded.take m step ⟨s, []⟩)).log = before ++ ⟨running, .returns f v⟩ :: after → f ∈ running →
      ∃ above below, running = above ++ f :: below ∧ f ∉ above ∧ ⟨f :: below, .ends f (.ok v)⟩ ∈ after := by
  intro h
  let m : Machine := ⟨detour, Library.standard, 256⟩
  let notRunning : Stop RuntimeFault := .fault (.unexpectedDecl "outer" "function on the call stack")
  have hlog : (LogM.final (Recorded.take m (.callFunction ⟨0⟩ []) ⟨{}, []⟩)).log =
      [] ++ ⟨[⟨1⟩, ⟨0⟩], .returns ⟨0⟩ (.int 5)⟩ ::
        [⟨[⟨1⟩, ⟨0⟩], .ends ⟨1⟩ (.error notRunning)⟩, ⟨[⟨0⟩], .ends ⟨0⟩ (.error notRunning)⟩] := by
    obtain ⟨n, hn⟩ := m.exists_depthBound_eq (k := 3) (by decide)
    rw [Recorded.take, hn]
    rfl
  obtain ⟨above, below, -, -, hends⟩ := h m {} (.callFunction ⟨0⟩ []) _ _ _ _ _ (by decide) .start hlog (by decide)
  simp [notRunning] at hends

end Machine

end DeferredInit
