import DeferredInit.Proofs.Machine.DepthLimit
import DeferredInit.Proofs.Machine.Isolation

/-!
# Two ways to make an instance

An instance of a class can be made from outside, or by calling a function that does nothing else.  The code that
initializes the fields is the same, but in the first case no function is running while it is evaluated, and in the
second that function is.  Only variables show the difference: what the code gives a variable is kept by the function,
and is lost where there is none.

So two evaluations are compared of which the right one has one more function running, below all the others (`Rooted`).
They go together as long as no variable is read on the left that has been given a value on the right only.  Then the
left one ends with the fault that the variable holds nothing (`construct_or_call`).  If the code reads no variable that
it has given a value, both ways come to the same.
-/

namespace DeferredInit

open Relation

namespace Program

variable (p : Program) (cls : DeclId)

/-- **Code that makes an instance of a class**: what its fields hold at first, and what that starts, calls apart. -/
def Constructs (e : ExprId) : Prop :=
  ∃ field ∈ p.storage cls, ∃ init, p.fieldInit? field = some init ∧ ReflTransGen p.Starts init e

/-- The code that makes an instance of a class gives a variable a value. -/
def ConstructAssigns (d : DeclId) : Prop :=
  ∃ e E, p.Constructs cls e ∧ p.expr? e = some E ∧
    ((∃ value, E.form = .setValue d value) ∨ E.form = .declare d ∧ (p.variableInit? d).isSome)

/-- The code that makes an instance of a class reads a variable. -/
def ConstructReads (d : DeclId) : Prop := ∃ e E, p.Constructs cls e ∧ p.expr? e = some E ∧ E.form = .getValue d

end Program

/-- The state in which one more function is running, below all the others. -/
def State.above (s : State) (root : Frame) : State := { s with frames := s.frames ++ [root] }

/-- **States that differ in a function that is running below all others** on the right, while `n` functions are running
on the left.  Its variables hold nothing but what the code that makes an instance has given them. -/
structure Rooted (p : Program) (cls f : DeclId) (n : Nat) (s t : State) : Prop where
  running : s.frames.length = n
  root : ∃ locals, (∀ d v, locals.get? d = some v → p.ConstructAssigns cls d) ∧ t = s.above ⟨f, locals⟩

namespace Rooted

variable (m : Machine) (cls f : DeclId)

/-- The comparison of evaluations.  The left one is excused once it has read a variable that has a value on the right
only, which takes code outside of calls.  The right one is excused when it runs into the limit. -/
def evals (n : Nat) : Comparison Unwind where
  state := Rooted m.program cls f n
  error u v := u = v ∧ ∀ w, u ≠ .ret f w
  left u := n = 0 ∧ ∃ d D, m.program.ConstructAssigns cls d ∧ m.program.ConstructReads cls d ∧
    m.program.decl? d = some D ∧ u = .fault (.unboundValue D.name)
  right u := u = .fault (.callDepthExceeded m.maxDepth)

/-- The comparison of calls, which no `return` gets out of, and in which no variable is read from outside. -/
def runs (n : Nat) : Comparison (Stop RuntimeFault) where
  state := Rooted m.program cls f n
  error a b := a = b
  left _ := False
  right a := a = .fault (.callDepthExceeded m.maxDepth)

/-- **A computation that goes the same way** with one more function below. -/
abbrev Same {α : Type} (n : Nat) (x : EvalM α) : Prop := Tied (evals m cls f n) (· = ·) x x

variable {m cls f} {n : Nat} {α : Type}

theorem halt (h : Halt) : Same m cls f n (throw (.halt h) : EvalM α) := .throw ⟨rfl, nofun⟩

/-- Apart from frames, evaluations go the same way. -/
theorem reflexive : (evals m cls f n).Reflexive where
  fault _ := ⟨rfl, nofun⟩
  frameless h := by
    rintro s _ ⟨hrunning, locals, hlocals, rfl⟩
    obtain ⟨a, t, hact, ht, hframes⟩ := h s
    rw [hact, State.above, hframes, ← ht]
    exact .ok rfl ⟨ht ▸ hrunning, locals, hlocals, rfl⟩

/-- A dangling handle is one on both sides. -/
theorem dangling : (evals m cls f n).error (.halt .dangling) (.halt .dangling) := ⟨rfl, nofun⟩

/-- Runs that go the same way do so as parts of evaluations. -/
theorem evaluated {x : RunM α} (h : Tied (runs m cls f n) (· = ·) x x) : Same m cls f n x.evaluated := by
  intro s t hst
  have h := h s t hst
  simp only [RunM.evaluated]
  generalize x s = r, x t = r' at h
  cases h with
  | ok hab hst' => exact .ok hab hst'
  | @error a _ _ _ hab hst' =>
    obtain rfl : a = _ := hab
    cases a <;> exact .error ⟨rfl, fun _ h => by cases h⟩ hst'
  | left hu => exact hu.elim
  | right hv =>
    obtain rfl := hv
    exact .right rfl

/-! ## Variables -/

/-- Where a function is running on the left, it is the innermost one on the right as well. -/
theorem local? (d : DeclId) : Same m cls f (n + 1) (EvalM.local? d) := by
  rintro s _ ⟨hrunning, locals, hlocals, rfl⟩
  rw [EvalM.local?_run, EvalM.local?_run]
  obtain ⟨objects, statics, frames, reads⟩ := s
  cases frames with
  | nil => exact absurd hrunning (Nat.zero_ne_add_one n)
  | cons frame rest => exact .ok rfl ⟨hrunning, locals, hlocals, rfl⟩

/-- **A variable is read.**  Where no function is running on the left, it holds nothing there. -/
theorem getValue (hp : m.program.Closed) {d : DeclId} (hd : n = 0 → m.program.ConstructReads cls d) :
    Same m cls f n (m.getValue d) := by
  cases n with
  | succ n => exact reflexive.getValue (.inl dangling) (local? d)
  | zero =>
    rintro s _ ⟨hrunning, locals, hlocals, rfl⟩
    obtain ⟨e, E, -, hE, hform⟩ := hd rfl
    obtain ⟨D, hD⟩ : ∃ D, m.program.decl? d = some D :=
      Program.has_decl_iff.1 (hp.has_of_expr hE (by simp [hform, ExprForm.mentioned, ExprForm.subject?]))
    have hunbound (t : State) (ht : t.local? d = none) :
        m.getValue d t = .error (.fault (.unboundValue D.name)) t := by
      simp only [Machine.getValue, bind, EStateM.bind, EvalM.local?_run, ht, Machine.decl, hD]
      rfl
    have hnil : s.frames = [] := List.length_eq_zero_iff.1 hrunning
    have hleft : s.local? d = none := by rw [State.local?, hnil]; rfl
    have hright : (s.above ⟨f, locals⟩).local? d = locals.get? d := by rw [State.local?, State.above, hnil]; rfl
    rw [hunbound s hleft]
    cases hv : locals.get? d with
    | none =>
      rw [hunbound _ (hright.trans hv)]
      exact .error ⟨rfl, fun _ h => by cases h⟩ ⟨hrunning, locals, hlocals, rfl⟩
    | some v => exact .left ⟨rfl, d, D, hlocals d v hv, hd rfl, hD, rfl⟩

/-- **A variable is given a value.**  Where no function is running on the left, the value is lost there. -/
theorem setLocal {d : DeclId} (hd : n = 0 → m.program.ConstructAssigns cls d) (v : Value) :
    Same m cls f n (EvalM.setLocal d v) := by
  rintro s _ ⟨hrunning, locals, hlocals, rfl⟩
  obtain ⟨objects, statics, frames, reads⟩ := s
  cases frames with
  | cons frame rest => exact .ok rfl ⟨hrunning, locals, hlocals, rfl⟩
  | nil =>
    refine .ok rfl ⟨hrunning, locals.insert d v, fun k w hk => ?_, rfl⟩
    rw [Table.get?_insert] at hk
    split at hk
    · next heq => exact heq ▸ hd hrunning.symm
    · exact hlocals k w hk

/-! ## Calls -/

section Enter

variable {enter : ExprId → EvalM Value}

/-- **Calls whose bodies end alike** do so, and leave the frames below as they are. -/
theorem finish {r r' : EStateM.Result Unwind State Value} (h : Agree (evals m cls f (n + 1)) (· = ·) r r')
    (function : DeclId) : Agree (runs m cls f n) (· = ·) (m.finish function r) (m.finish function r') := by
  have hleave {s t : State} (h : Rooted m.program cls f (n + 1) s t) : Rooted m.program cls f n s.leave t.leave := by
    obtain ⟨hrunning, locals, hlocals, rfl⟩ := h
    have hne : s.frames ≠ [] := List.ne_nil_of_length_eq_add_one hrunning
    refine ⟨by rw [State.leave, List.length_tail, hrunning, Nat.add_sub_cancel], locals, hlocals, ?_⟩
    simp only [State.above, State.leave, List.tail_append_of_ne_nil hne]
  cases h with
  | ok hv hst =>
    subst hv
    exact .ok rfl (hleave hst)
  | @error u _ _ _ huv hst =>
    obtain ⟨rfl, -⟩ := huv
    cases u with
    | ret target v =>
      by_cases htarget : target = function
      · subst htarget
        rw [m.finish_ret_self, m.finish_ret_self]
        exact .ok rfl (hleave hst)
      · rw [m.finish_ret_of_ne htarget, m.finish_ret_of_ne htarget]
        exact .error rfl (hleave hst)
    | fault a => exact .error rfl (hleave hst)
    | halt h => exact .error rfl (hleave hst)
  | left hu => exact absurd hu.1 (Nat.succ_ne_zero n)
  | right hv =>
    obtain rfl := hv
    exact .right rfl

/-- **A call goes the same way** if the body of the function does, unless the right one runs into the limit first. -/
theorem invoke (hbody : ∀ body, m.program.IsBody body → Same m cls f (n + 1) (enter body)) (function : DeclId)
    (this extension : Option Value) (args : List Value) :
    Tied (runs m cls f n) (· = ·) (m.invoke enter function this extension args)
      (m.invoke enter function this extension args) := by
  intro s t hst
  have hs : s.frames.length = n := hst.running
  obtain ⟨locals, hlocals, rfl⟩ := hst.root
  have ht : (s.above ⟨f, locals⟩).frames.length = n + 1 := by
    rw [State.above, List.length_append, hs, List.length_singleton]
  rw [m.invoke_eq, m.invoke_eq, hs, ht]
  -- here alone it matters how many functions are running
  by_cases hright : m.maxDepth ≤ n + 1
  · rw [if_pos hright]
    exact .right rfl
  have hleft : ¬m.maxDepth ≤ n := by omega
  rw [if_neg hright, if_neg hleft]
  cases hcalled : m.callee function args with
  | error stop => exact .error rfl hst
  | ok called =>
    obtain ⟨fn, body⟩ := called
    obtain ⟨D, hD, hfn, hbodyf⟩ := Machine.callee_eq_ok hcalled
    refine finish (hbody body ⟨function, D, fn, hD, hfn, hbodyf⟩ _ _ ⟨?_, locals, hlocals, rfl⟩) function
    rw [State.enter, List.length_cons, hs]

/-! ## Nodes -/

/-- **A node goes the same way** if what it starts does, and the bodies of functions.  Where no function is running on
the left, the node is code that makes an instance. -/
theorem node (hp : m.program.Closed) (hret : ∀ e E v, m.program.expr? e = some E → E.form ≠ .ret f v) {e : ExprId}
    (hmakes : n = 0 → m.program.Constructs cls e)
    (hstarts : ∀ c, m.program.Starts e c → Same m cls f n (enter c))
    (hbody : ∀ body, m.program.IsBody body → Same m cls f (n + 1) (enter body)) :
    Same m cls f n (m.semantics.node enter e) := by
  refine reflexive.node m.maxDepth (.inl dangling) (.inl dangling) hstarts (fun E d hE hform => ?_)
    (fun E d hE hform => ?_) (fun function this extension args _ => ?_) fun E g value hE hform v => ?_
  · exact getValue hp fun hn => ⟨e, E, hmakes hn, hE, hform⟩
  · exact setLocal fun hn => ⟨e, E, hmakes hn, hE, hform⟩
  · exact evaluated (invoke hbody function this extension args)
  · refine ⟨rfl, fun w heq => ?_⟩
    obtain ⟨rfl, -⟩ := Unwind.ret.inj heq
    exact hret e E value hE hform

end Enter

/-- **An evaluation goes the same way** with one more function below, at any depth. -/
theorem eval (hp : m.program.Closed) (hret : ∀ e E v, m.program.expr? e = some E → E.form ≠ .ret f v) (depth : Nat)
    {e : ExprId} (hmakes : n = 0 → m.program.Constructs cls e) : Same m cls f n (m.eval depth e) := by
  induction depth generalizing n e with
  | zero => exact halt .exhausted
  | succ depth ih =>
    refine node hp hret hmakes (fun c hc => ih fun hn => ?_) fun body _ => ih fun hn => absurd hn (Nat.succ_ne_zero n)
    obtain ⟨field, hfield, init, hinit, hstarts⟩ := hmakes hn
    exact ⟨field, hfield, init, hinit, hstarts.tail hc⟩

end Rooted

/-! ## Both ways -/

/-- **A function that makes an instance of a class** and does nothing else.  No `return` in the program is from it. -/
structure Program.Maker (p : Program) (cls f : DeclId) : Prop where
  function : ∃ F fn body B, p.decl? f = some F ∧ F.form = .function fn ∧ fn.params = [] ∧ fn.body = some body ∧
    p.expr? body = some B ∧ B.form = .construct cls
  not_returned : ∀ e E v, p.expr? e = some E → E.form ≠ .ret f v

theorem Answer.result_injective {a b : Answer} (h : a.result = b.result) : a = b := by
  obtain ⟨a | a, s⟩ := a <;> obtain ⟨b | b, t⟩ := b <;> cases h <;> rfl

namespace Machine

variable (m : Machine) {cls f : DeclId} {s : State}

/-- A call of a maker evaluates what an instance is made of, while the maker is running. -/
theorem step_maker (hf : m.program.Maker cls f) (hs : s.frames = []) (depth : Nat) :
    m.semantics.step (depth + 1) (.callFunction f []) s = .error (.fault (.callDepthExceeded m.maxDepth)) s ∨
      m.semantics.step (depth + 1) (.callFunction f []) s =
        m.finish f (m.instantiate (m.eval depth) cls (s.above ⟨f, ∅⟩)) := by
  obtain ⟨F, fn, body, B, hF, hfn, hparams, hbody, hB, hcons⟩ := hf.function
  rw [semantics_step, takeWith]
  by_cases hlimit : m.maxDepth ≤ s.frames.length
  · left
    rw [m.invoke_eq, if_pos hlimit]
  · right
    have heval : m.eval (depth + 1) body = m.instantiate (m.eval depth) cls := by
      rw [m.eval_succ hB, hcons]
      rfl
    have hargs : arguments fn none none [] = ∅ := by
      simp [arguments, hparams]
      rfl
    rw [m.invoke_eq_finish _ (by omega) hF hfn hbody (congrArg List.length hparams), heval, hargs, State.enter,
      State.above, hs]
    rfl

/-- **To make an instance and to call a maker come to the same**, result and state, unless the first reads a variable
that has lost its value, or the second runs into the limit. -/
theorem step_construct_or_call (hp : m.program.Closed) (hf : m.program.Maker cls f) (hs : s.frames = []) (depth : Nat) :
    let r := m.semantics.step depth (.construct cls) s
    let r' := m.semantics.step (depth + 1) (.callFunction f []) s
    r = r' ∨
      (∃ d D t, m.program.ConstructAssigns cls d ∧ m.program.ConstructReads cls d ∧ m.program.decl? d = some D ∧
        r = .error (.fault (.unboundValue D.name)) t) ∨
      ∃ t, r' = .error (.fault (.callDepthExceeded m.maxDepth)) t := by
  intro r r'
  have hr : r = m.takeWith (m.eval depth) (.construct cls) s := by
    show m.semantics.step depth (.construct cls) s = _
    rw [semantics_step]
  rcases m.step_maker hf hs depth with hlimit | hr'
  · exact .inr (.inr ⟨s, hlimit⟩)
  have hsame : Rooted.Same m cls f 0 (m.instantiate (m.eval depth) cls) :=
    Rooted.reflexive.instantiate (.inl Rooted.dangling) (.inl Rooted.dangling) fun field hfield init hinit =>
      Rooted.eval hp hf.not_returned depth fun _ => ⟨field, hfield, init, hinit, .refl⟩
  have hrooted : Rooted m.program cls f 0 s (s.above ⟨f, ∅⟩) := ⟨by rw [hs]; rfl, ∅, nofun, rfl⟩
  -- once the maker is left, the states are the same
  have hleave {t t' : State} (h : Rooted m.program cls f 0 t t') : t'.leave = t := by
    obtain ⟨hrunning, locals, -, rfl⟩ := h
    have hnil : t.frames = [] := List.length_eq_zero_iff.1 hrunning
    obtain ⟨objects, statics, frames, reads⟩ := t
    cases hnil
    rfl
  have h := hsame s _ hrooted
  rw [hr, show r' = _ from hr']
  simp only [takeWith]
  generalize m.instantiate (m.eval depth) cls s = x, m.instantiate (m.eval depth) cls (s.above ⟨f, ∅⟩) = y at h
  cases h with
  | ok hv hst =>
    subst hv
    exact .inl (by simp only [finish, hleave hst])
  | @error u v t t' huv hst =>
    obtain ⟨rfl, hret⟩ := huv
    cases u with
    | ret g v =>
      have hg : g ≠ f := fun hg => hret v (by rw [hg])
      exact .inl (by simp only [finish, if_neg hg, hleave hst])
    | fault a => exact .inl (by simp only [finish, hleave hst])
    | halt h => exact .inl (by simp only [finish, hleave hst])
  | left hu =>
    obtain ⟨-, d, D, hassigns, hreads, hD, rfl⟩ := hu
    exact .inr (.inl ⟨d, D, _, hassigns, hreads, hD, rfl⟩)
  | right hv =>
    obtain rfl := hv
    exact .inr (.inr ⟨_, rfl⟩)

/-- **The two ways to make an instance.**  Where no function is running, one can have an instance made from outside, or
call a function that makes it.  At whatever depth, both come to the same value or fault and leave the same state, unless
the call runs into the limit, or the first way ends with the fault that a variable holds nothing, although the code that
initializes the fields has given it a value.  That is so of the steps that the machine takes, too. -/
theorem construct_or_call (hp : m.program.Closed) (hf : m.program.Maker cls f) (hs : s.frames = []) :
    (∀ depth, let r := m.semantics.step depth (.construct cls) s
      let r' := m.semantics.step (depth + 1) (.callFunction f []) s
      r = r' ∨
        (∃ d D t, m.program.ConstructAssigns cls d ∧ m.program.ConstructReads cls d ∧ m.program.decl? d = some D ∧
          r = .error (.fault (.unboundValue D.name)) t) ∨
        ∃ t, r' = .error (.fault (.callDepthExceeded m.maxDepth)) t) ∧
    ∀ a b : Answer, m.take (.construct cls) s = a.result → m.take (.callFunction f []) s = b.result →
      b.1 ≠ .error (.callDepthExceeded m.maxDepth) →
        a = b ∨ ∃ d D, m.program.ConstructAssigns cls d ∧ m.program.ConstructReads cls d ∧ m.program.decl? d = some D ∧
          a.1 = .error (.unboundValue D.name) := by
  refine ⟨fun depth => m.step_construct_or_call hp hf hs depth, fun a b ha hb hlimit => ?_⟩
  obtain ⟨n, hn⟩ : ∃ n, m.depthBound = n + 1 := Nat.exists_eq_add_one.2 (Nat.add_pos_right _ (by decide))
  rw [← step_depthBound] at ha hb
  rw [hn] at hb
  -- the call evaluates the fields one less deep than the machine does for an instance from outside
  have hdeeper (c : Answer) (hc : m.semantics.step n (.construct cls) s = c.result)
      (hclimit : c.1 ≠ .error (.callDepthExceeded m.maxDepth)) : a = c := by
    have hraised : m.semantics.step m.depthBound (.construct cls) s = c.result :=
      m.step_raised (Nat.le_refl m.maxDepth) (by omega) hc hclimit
    exact Answer.result_injective (ha.symm.trans hraised)
  rcases m.step_construct_or_call hp hf hs n with hsame | ⟨d, D, t, hassigns, hreads, hD, hfault⟩ | ⟨t, hexceeded⟩
  · exact .inl (hdeeper b (hsame.trans hb) hlimit)
  · obtain rfl := hdeeper (.error (.unboundValue D.name), t) hfault nofun
    exact .inr ⟨d, D, hassigns, hreads, hD, rfl⟩
  · have hb' : b = (.error (.callDepthExceeded m.maxDepth), t) := Answer.result_injective (hb.symm.trans hexceeded)
    exact absurd (congrArg Prod.fst hb') hlimit

/-- A program with a class of which a field starts out with what a function returns, which is a variable of that
function, and with a function that makes an instance of the class. -/
def boxes : Program where
  name := "boxes"
  decls :=
    #[{ name := "Box", span := .unknown, form := .cls { hash := ⟨1⟩, members := [⟨1⟩] } },
      { name := "size", span := .unknown, form := .field { ty := .int, owner := some ⟨0⟩, initializer := some ⟨5⟩ } },
      { name := "n", span := .unknown, form := .var { ty := .int, initializer := some ⟨0⟩ } },
      { name := "measure", span := .unknown, form := .function { returnType := .int, body := some ⟨4⟩ } },
      { name := "make", span := .unknown, form := .function { returnType := .reference ⟨1⟩ false, body := some ⟨6⟩ } }]
  exprs :=
    #[⟨.unknown, .int, .const (.int 5)⟩, ⟨.unknown, .unit, .declare ⟨2⟩⟩, ⟨.unknown, .int, .getValue ⟨2⟩⟩,
      ⟨.unknown, .nothing, .ret ⟨3⟩ (some ⟨2⟩)⟩, ⟨.unknown, .unit, .block [⟨1⟩, ⟨3⟩]⟩,
      ⟨.unknown, .int, .call (.declared ⟨3⟩) none none []⟩, ⟨.unknown, .reference ⟨1⟩ false, .construct ⟨0⟩⟩]
  topLevel := [⟨0⟩, ⟨3⟩, ⟨4⟩]

/-- Either way a box is of size 5: the variable is one of the function that measures. -/
theorem construct_or_call_boxes :
    let m : Machine := ⟨boxes, Library.standard, 256⟩
    let a : Answer := (.ok (.object ⟨0, some ⟨0⟩⟩), { objects := #[.ofList [(⟨1⟩, .int 5)]] })
    m.program.Closed ∧ m.program.Maker ⟨0⟩ ⟨4⟩ ∧ m.take (.construct ⟨0⟩) {} = a.result ∧
      m.take (.callFunction ⟨4⟩ []) {} = a.result := by
  intro m a
  have hp : m.program.Closed := by decide
  have hf : m.program.Maker ⟨0⟩ ⟨4⟩ := by
    refine ⟨⟨_, _, _, _, rfl, rfl, rfl, rfl, rfl, rfl⟩, fun e E v hE hret => ?_⟩
    have hmem : E ∈ boxes.exprs := Array.mem_of_getElem? hE
    simp only [boxes, List.mem_toArray, List.mem_cons, List.not_mem_nil, or_false] at hmem
    rcases hmem with rfl | rfl | rfl | rfl | rfl | rfl | rfl <;> cases hret
  have hconstruct : m.take (.construct ⟨0⟩) {} = a.result := by
    have hstep : m.semantics.step 16 (.construct ⟨0⟩) {} = a.result := rfl
    exact m.take_of_step (by decide) hstep nofun
  obtain ⟨b, hb, hcall⟩ : ∃ b : Answer, b.1 ≠ .error (.callDepthExceeded m.maxDepth) ∧
      m.take (.callFunction ⟨4⟩ []) {} = b.result := by
    have hstep : ∃ v t, m.semantics.step 16 (.callFunction ⟨4⟩ []) {} = Answer.result (.ok v, t) := ⟨_, _, rfl⟩
    obtain ⟨v, t, hstep⟩ := hstep
    exact ⟨(.ok v, t), nofun, m.take_of_step (by decide) hstep nofun⟩
  rcases (m.construct_or_call hp hf rfl).2 a b hconstruct hcall hb with rfl | ⟨d, D, -, -, -, hfault⟩
  · exact ⟨hp, hf, hconstruct, hcall⟩
  · cases hfault

/-- A program with a class of which a field starts out with what a block of its own comes to, which declares a variable
and reads it. -/
def scratch : Program where
  name := "scratch"
  decls :=
    #[{ name := "Box", span := .unknown, form := .cls { hash := ⟨1⟩, members := [⟨1⟩] } },
      { name := "size", span := .unknown, form := .field { ty := .int, owner := some ⟨0⟩, initializer := some ⟨3⟩ } },
      { name := "n", span := .unknown, form := .var { ty := .int, initializer := some ⟨0⟩ } },
      { name := "make", span := .unknown, form := .function { returnType := .reference ⟨1⟩ false, body := some ⟨4⟩ } }]
  exprs :=
    #[⟨.unknown, .int, .const (.int 5)⟩, ⟨.unknown, .unit, .declare ⟨2⟩⟩, ⟨.unknown, .int, .getValue ⟨2⟩⟩,
      ⟨.unknown, .int, .block [⟨1⟩, ⟨2⟩]⟩, ⟨.unknown, .reference ⟨1⟩ false, .construct ⟨0⟩⟩]
  topLevel := [⟨0⟩, ⟨3⟩]

/-- From outside no box is made: the variable is lost. -/
theorem exists_construct_ne_call : ¬∀ (m : Machine) (cls f : DeclId) (s : State) (a b : Answer), m.program.Closed →
    m.program.Maker cls f → s.frames = [] → m.take (.construct cls) s = a.result →
      m.take (.callFunction f []) s = b.result → a.1 ≠ .error (.callDepthExceeded m.maxDepth) →
        b.1 ≠ .error (.callDepthExceeded m.maxDepth) → a.1 = b.1 := by
  intro h
  let m : Machine := ⟨scratch, Library.standard, 256⟩
  have hf : m.program.Maker ⟨0⟩ ⟨3⟩ := by
    refine ⟨⟨_, _, _, _, rfl, rfl, rfl, rfl, rfl, rfl⟩, fun e E v hE hret => ?_⟩
    have hmem : E ∈ scratch.exprs := Array.mem_of_getElem? hE
    simp only [scratch, List.mem_toArray, List.mem_cons, List.not_mem_nil, or_false] at hmem
    rcases hmem with rfl | rfl | rfl | rfl | rfl <;> cases hret
  let a : Answer := (.error (.unboundValue "n"), {})
  let b : Answer := (.ok (.object ⟨0, some ⟨0⟩⟩), { objects := #[.ofList [(⟨1⟩, .int 5)]] })
  have hsteps : m.semantics.step 16 (.construct ⟨0⟩) {} = a.result ∧
      m.semantics.step 16 (.callFunction ⟨3⟩ []) {} = b.result := ⟨rfl, rfl⟩
  have hconstruct := m.take_of_step (by decide) hsteps.1 nofun
  have hcall := m.take_of_step (by decide) hsteps.2 nofun
  have hsame : a.1 = b.1 := h m ⟨0⟩ ⟨3⟩ {} a b (by decide) hf rfl hconstruct hcall nofun nofun
  cases hsame

end Machine

end DeferredInit
