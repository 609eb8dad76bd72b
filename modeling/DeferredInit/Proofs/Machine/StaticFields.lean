import DeferredInit.Proofs.Machine.Stepwise

/-!
# What static fields hold

A static field is initialized by the first read, unless something has been stored in it by then.  From that moment on it
holds what was stored in it last (`Faithful.held`), and so does every read of it return that, across steps and whether
they end with a value or with a fault.

The field is looked up before its initializer is evaluated, and not again afterwards.  So what counts is that nothing
has been stored when the initialization begins.  Code that an initializer starts may store into the field, or may read
it and thereby start the initializer over, and then the outer initialization replaces what is there.  Where the
initializer leaves its own field alone (`Machine.LeavesAlone`), the field is initialized once and never after a store
(`statics_kept`).  It does if it reaches no code that accesses the field (`Machine.leavesAlone_of_reaches`).

A record is `Faithful` if it agrees with the static fields and if each of its entries agrees with those before.  Every
evaluation goes along with a record staying faithful (`Tracks`), and evaluations that keep away from a field go along
with nothing being stored in it (`Untouched`).
-/

namespace DeferredInit

/-- What an event stores in a static field. -/
def Event.stored? (field : DeclId) : Event → Option Value
  | initializes f v | stores f v => if f = field then some v else none
  | returns _ _ | ends _ _ | loads _ _ => none

/-- **What was stored last in a static field**, according to a record. -/
def lastStored (field : DeclId) (log : List Entry) : Option Value :=
  log.reverse.findSome? (·.event.stored? field)

section LastStored

variable {field : DeclId} {log log' : List Entry}

theorem lastStored_append : lastStored field (log ++ log') = (lastStored field log').or (lastStored field log) := by
  rw [lastStored, List.reverse_append, List.findSome?_append]
  rfl

theorem lastStored_concat (entry : Entry) :
    lastStored field (log ++ [entry]) = (entry.event.stored? field).or (lastStored field log) := by
  rw [lastStored_append]
  refine congrArg (Option.or · _) ?_
  cases h : entry.event.stored? field <;> simp [lastStored, h]

theorem lastStored_eq_none_iff : lastStored field log = none ↔ ∀ entry ∈ log, entry.event.stored? field = none := by
  simp [lastStored]

end LastStored

namespace Machine

variable (m : Machine)

/-- **How a static field gets its initial content** when a record goes as far as `earlier`: its initializer comes to the
value, and what happens in the course of that is `during`.  A field without an initializer is null. -/
inductive Initializing (field : DeclId) (v : Value) (earlier : List Entry) : List Entry → Prop
  | evaluated {init : ExprId} {depth : Nat} {s t : State} {during : List Entry} :
      m.program.fieldInit? field = some init →
      Recorded.eval m depth init ⟨s, earlier⟩ = .ok v ⟨t, earlier ++ during⟩ → Initializing field v earlier during
  | null : m.program.fieldInit? field = none → v = .null → Initializing field v earlier []

/-- **The initializer of a field leaves the field alone**: whenever it comes to a value, nothing has been stored in the
field in the course of it. -/
def LeavesAlone (field : DeclId) : Prop :=
  ∀ v earlier during, m.Initializing field v earlier during → lastStored field during = none

/-- **What an event says of static fields** agrees with what has happened before it. -/
def Accounts (before : List Entry) : Event → Prop
  | .loads field v => lastStored field before = some v
  | .initializes field v => ∃ earlier during, before = earlier ++ during ∧ lastStored field earlier = none ∧
      m.Initializing field v earlier during
  | .stores _ _ | .returns _ _ | .ends _ _ => True

end Machine

/-! ## Reads of static fields -/

namespace Recorded

variable {m : Machine} {enter : ExprId → LogM Entry Unwind Value} {field : DeclId} {D : Decl} {v : Value}
  {l : Logged Entry}

/-- What a static field is initialized with is stored, and then it is read. -/
def settle (field : DeclId) (v : Value) (l : Logged Entry) : Logged Entry :=
  ⟨{ l.state with statics := l.state.statics.insert field v },
    l.log ++ [⟨l.state.running, .initializes field v⟩] ++ [⟨l.state.running, .loads field v⟩]⟩

theorem prefix_settle : l.log <+: (settle field v l).log :=
  (List.prefix_append _ _).trans (List.prefix_append _ _)

theorem static?_run (field : DeclId) (l : Logged Entry) :
    (liftM (EvalM.static? field) : LogM Entry Unwind (Option Value)) l = .ok (l.state.statics.get? field) l := rfl

/-- A static field that holds something is just read. -/
theorem staticField_of_held (h : l.state.statics.get? field = some v) :
    staticField enter field D l = .ok v ⟨l.state, l.log ++ [⟨l.state.running, .loads field v⟩]⟩ := by
  simp only [staticField, bind, EStateM.bind, static?_run, h]
  rfl

/-- **A static field that holds something is read at once.** -/
theorem loadField_of_held (hD : m.program.decl? field = some D) (hstatic : D.modifiers.isStatic = true)
    (h : l.state.statics.get? field = some v) (enter : ExprId → LogM Entry Unwind Value) (receiver : Option Value) :
    loadField m enter field receiver l =
      .ok v ⟨{ l.state with reads := l.state.reads + 1 }, l.log ++ [⟨l.state.running, .loads field v⟩]⟩ := by
  have hcount : (liftM EvalM.countRead : LogM Entry Unwind Unit) l =
      .ok () ⟨{ l.state with reads := l.state.reads + 1 }, l.log⟩ := rfl
  have hdecl (l : Logged Entry) : (liftM (m.decl field) : LogM Entry Unwind Decl) l = .ok D l := by
    unfold Machine.decl
    rw [hD]
    rfl
  simp only [loadField, bind, EStateM.bind, hcount, hdecl, if_pos hstatic]
  exact staticField_of_held (l := ⟨{ l.state with reads := l.state.reads + 1 }, l.log⟩) h

/-- A static field without an initializer starts out with null. -/
theorem staticField_of_none (h : l.state.statics.get? field = none) (hD : m.program.decl? field = some D)
    (hinit : m.program.fieldInit? field = none) :
    staticField enter field D l = .ok .null (settle field .null l) := by
  rw [Program.fieldInit?, hD, Option.bind_some] at hinit
  simp only [staticField, bind, EStateM.bind, static?_run, h, hinit]
  rfl

/-- A static field that holds nothing starts out with what its initializer comes to. -/
theorem staticField_of_some {init : ExprId} (h : l.state.statics.get? field = none)
    (hD : m.program.decl? field = some D) (hinit : m.program.fieldInit? field = some init) :
    staticField enter field D l = match enter init l with
      | .ok v l' => .ok v (settle field v l')
      | .error u l' => .error u l' := by
  rw [Program.fieldInit?, hD, Option.bind_some] at hinit
  simp only [staticField, bind, EStateM.bind, static?_run, h, hinit]
  cases enter init l <;> rfl

end Recorded

/-! ## Faithful records -/

/-- **A faithful record.** -/
structure Faithful (m : Machine) (l : Logged Entry) : Prop where
  /-- Static fields hold what was stored in them last. -/
  held : ∀ field, l.state.statics.get? field = lastStored field l.log
  /-- Each event agrees with those before it. -/
  accounts : ∀ before entry after, l.log = before ++ entry :: after → m.Accounts before entry.event

namespace Faithful

variable {m : Machine} {l : Logged Entry}

theorem start : Faithful m ⟨{}, []⟩ := ⟨fun _ => rfl, fun before entry after h => absurd h (by simp)⟩

/-- Only the static fields of a state matter. -/
theorem of_statics (h : Faithful m l) {t : State} (ht : t.statics = l.state.statics) : Faithful m ⟨t, l.log⟩ :=
  ⟨fun field => by rw [ht]; exact h.held field, h.accounts⟩

/-- **A record stays faithful** when an event is written down that agrees with it, and the static fields follow. -/
theorem concat (h : Faithful m l) {t : State} {e : Entry} (hentry : m.Accounts l.log e.event)
    (ht : ∀ field, t.statics.get? field = (e.event.stored? field).or (l.state.statics.get? field)) :
    Faithful m ⟨t, l.log ++ [e]⟩ := by
  refine ⟨fun field => ?_, fun before entry after heq => ?_⟩
  · rw [ht, h.held, lastStored_concat]
  · rcases after.eq_nil_or_concat with rfl | ⟨rest, last, rfl⟩
    · obtain ⟨rfl, hlast⟩ := List.append_inj' heq rfl
      obtain rfl := List.singleton_inj.1 hlast
      exact hentry
    · rw [List.concat_eq_append, ← List.cons_append, ← List.append_assoc] at heq
      exact h.accounts before entry rest (List.append_inj' heq rfl).1

/-- What stores nothing in static fields leaves them as they are. -/
theorem concat_of_stored?_eq_none (h : Faithful m l) {t : State} {e : Entry}
    (hentry : m.Accounts l.log e.event) (hstored : ∀ field, e.event.stored? field = none)
    (ht : t.statics = l.state.statics) : Faithful m ⟨t, l.log ++ [e]⟩ :=
  h.concat hentry fun field => by rw [ht, hstored, Option.none_or]

/-- What stores a value in a static field is written down. -/
theorem concat_of_stored (h : Faithful m l) {r : List DeclId} {event : Event} {field : DeclId} {v : Value}
    (hentry : m.Accounts l.log event) (hstored : ∀ f, event.stored? f = if field = f then some v else none) :
    Faithful m ⟨{ l.state with statics := l.state.statics.insert field v }, l.log ++ [⟨r, event⟩]⟩ := by
  refine h.concat hentry fun f => ?_
  rw [Table.get?_insert, hstored]
  split <;> rfl

/-- A record stays faithful when a static field is initialized. -/
theorem settle (h : Faithful m l) {field : DeclId} {v : Value} (hinitial : m.Accounts l.log (.initializes field v)) :
    Faithful m (Recorded.settle field v l) := by
  have hstored := h.concat_of_stored (r := l.state.running) hinitial fun _ => rfl
  have hlast : lastStored field (l.log ++ [⟨l.state.running, .initializes field v⟩]) = some v := by
    simp [lastStored_concat, Event.stored?]
  exact hstored.concat_of_stored?_eq_none (e := ⟨_, .loads field v⟩) hlast (fun _ => rfl) rfl

end Faithful

/-- **Static fields are kept track of** from one record to another: it stays faithful, and is added to. -/
def Tracks (m : Machine) (l l' : Logged Entry) : Prop := Faithful m l → Faithful m l' ∧ l.log <+: l'.log

namespace Tracks

variable {m : Machine}

theorem stepwise : Stepwise (Tracks m) where
  silent _ _ ht hl := ⟨hl.of_statics ht, List.prefix_rfl⟩
  returns _ _ running f v ht hl :=
    ⟨hl.concat_of_stored?_eq_none (e := ⟨running, .returns f v⟩) trivial (fun _ => rfl) ht, List.prefix_append _ _⟩
  ends _ _ running f outcome ht hl :=
    ⟨hl.concat_of_stored?_eq_none (e := ⟨running, .ends f outcome⟩) trivial (fun _ => rfl) ht, List.prefix_append _ _⟩
  trans h h' hl := ⟨(h' (h hl).1).1, (h hl).2.trans (h' (h hl).1).2⟩

/-- **A read of a static field** finds what was stored last.  If nothing was, the field is initialized first, and if it
comes to that, the record shows when that began. -/
theorem staticField {field : DeclId} {D : Decl} {depth : Nat} (hD : m.program.decl? field = some D)
    (h : ∀ init, m.program.fieldInit? field = some init → Along (Tracks m) (Recorded.eval m depth init)) :
    Along (Tracks m) (Recorded.staticField (Recorded.eval m depth) field D) := by
  intro l hl
  have hheld := hl.held field
  cases hs : l.state.statics.get? field with
  | some v =>
    rw [Recorded.staticField_of_held hs]
    have hloads : m.Accounts l.log (.loads field v) := hheld.symm.trans hs
    exact ⟨hl.concat_of_stored?_eq_none hloads (fun _ => rfl) rfl, List.prefix_append _ _⟩
  | none =>
    have hnone : lastStored field l.log = none := hheld.symm.trans hs
    cases hinit : m.program.fieldInit? field with
    | none =>
      rw [Recorded.staticField_of_none hs hD hinit]
      have hinitial : m.Initializing field .null l.log [] := .null hinit rfl
      exact ⟨hl.settle ⟨l.log, [], (List.append_nil _).symm, hnone, hinitial⟩, Recorded.prefix_settle⟩
    | some init =>
      rw [Recorded.staticField_of_some hs hD hinit]
      obtain ⟨hfaithful, hadds⟩ := h init hinit l hl
      generalize heval : Recorded.eval m depth init l = r at hfaithful hadds
      cases r with
      | error u l' => exact ⟨hfaithful, hadds⟩
      | ok v l' =>
        obtain ⟨during, hduring⟩ := hadds
        have hinitial : m.Initializing field v l.log during := by
          have heval' : Recorded.eval m depth init ⟨l.state, l.log⟩ = .ok v ⟨l'.state, l.log ++ during⟩ := by
            rw [hduring]
            exact heval
          exact .evaluated hinit heval'
        have hsettled := hfaithful.settle ⟨l.log, during, hduring.symm, hnone, hinitial⟩
        exact ⟨hsettled, List.IsPrefix.trans ⟨during, hduring⟩ Recorded.prefix_settle⟩

/-- **The record of an evaluation stays faithful**, at any depth. -/
theorem eval (m : Machine) (depth : Nat) (e : ExprId) : Along (Tracks m) (Recorded.eval m depth e) := by
  induction depth generalizing e with
  | zero => exact Along.throw stepwise _
  | succ depth ih =>
    have hread (field : DeclId) (D : Decl) (hD : m.program.decl? field = some D) :
        Along (Tracks m) (Recorded.staticField (Recorded.eval m depth) field D) := staticField hD fun init _ => ih init
    have hstore (field : DeclId) (l : Logged Entry) (v : Value) : Tracks m l
        ⟨{ l.state with statics := l.state.statics.insert field v },
          l.log ++ [⟨l.state.running, .stores field v⟩]⟩ :=
      fun hl => ⟨hl.concat_of_stored trivial fun _ => rfl, List.prefix_append _ _⟩
    exact Along.node stepwise (fun c _ => ih c) (fun body _ => ih body) (fun field D _ hD _ _ => hread field D hD)
      fun field _ => hstore field

/-- **The record of a step stays faithful**, however the step ends. -/
theorem take (m : Machine) (step : Step) : Along (Tracks m) (Recorded.take m step) :=
  Along.take stepwise (eval m m.depthBound) step

end Tracks

/-! ## Initializers that leave their field alone -/

/-- **Nothing is stored in a static field** from one record to another. -/
def Untouched (field : DeclId) (l l' : Logged Entry) : Prop :=
  ∃ during, l'.log = l.log ++ during ∧ lastStored field during = none

namespace Untouched

variable {field : DeclId} {m : Machine}

theorem concat (l : Logged Entry) (t : State) {e : Entry} (h : e.event.stored? field = none) :
    Untouched field l ⟨t, l.log ++ [e]⟩ := ⟨[e], rfl, by rw [← List.nil_append [e], lastStored_concat, h]; rfl⟩

theorem trans {l l' l'' : Logged Entry} (h : Untouched field l l') (h' : Untouched field l' l'') :
    Untouched field l l'' := by
  obtain ⟨during, hlog, hnone⟩ := h
  obtain ⟨during', hlog', hnone'⟩ := h'
  refine ⟨during ++ during', by rw [hlog', hlog, List.append_assoc], ?_⟩
  rw [lastStored_append, hnone, hnone']
  rfl

theorem stepwise : Stepwise (Untouched field) where
  silent _ _ _ := ⟨[], (List.append_nil _).symm, rfl⟩
  returns l t _ _ _ _ := concat l t rfl
  ends l t _ _ _ _ := concat l t rfl
  trans := trans

/-- Nothing is stored in a field when another is initialized. -/
theorem settle {other : DeclId} (hne : other ≠ field) (v : Value) (l : Logged Entry) :
    Untouched field l (Recorded.settle other v l) := by
  have hinitializes : Untouched field l ⟨(Recorded.settle other v l).state,
      l.log ++ [⟨l.state.running, .initializes other v⟩]⟩ := concat l _ (if_neg hne)
  exact hinitializes.trans (concat _ _ (e := ⟨l.state.running, .loads other v⟩) rfl)

/-- Nothing is stored in a field when another is read, unless that is in the course of its initialization. -/
theorem staticField {enter : ExprId → LogM Entry Unwind Value} {other : DeclId} {D : Decl} (hne : other ≠ field)
    (hD : m.program.decl? other = some D)
    (h : ∀ init, m.program.fieldInit? other = some init → Along (Untouched field) (enter init)) :
    Along (Untouched field) (Recorded.staticField enter other D) := by
  intro l
  cases hs : l.state.statics.get? other with
  | some v =>
    rw [Recorded.staticField_of_held hs]
    exact concat l _ rfl
  | none =>
    cases hinit : m.program.fieldInit? other with
    | none =>
      rw [Recorded.staticField_of_none hs hD hinit]
      exact settle hne .null l
    | some init =>
      rw [Recorded.staticField_of_some hs hD hinit]
      have hduring := h init hinit l
      generalize enter init l = r at hduring
      cases r with
      | ok v l' => exact hduring.trans (settle hne v l')
      | error u l' => exact hduring

/-- **Code that does not access a field**, nor reaches code that does, stores nothing in it. -/
theorem eval {e : ExprId} (h : ∀ c, m.program.Reaches e c → ¬m.program.Accesses c field) (depth : Nat) :
    Along (Untouched field) (Recorded.eval m depth e) := by
  induction depth generalizing e with
  | zero => exact Along.throw stepwise _
  | succ depth ih =>
    have hnext {c : ExprId} (hc : m.program.Starts e c ∨ m.program.Calls e c) :
        Along (Untouched field) (Recorded.eval m depth c) := ih fun c' hc' => h c' (.head hc hc')
    have hother {other : DeclId} (haccess : m.program.Accesses e other) : other ≠ field := by
      rintro rfl
      exact h e .refl haccess
    exact Along.node stepwise (fun c hc => hnext (.inl hc)) (fun body hbody => hnext (.inr hbody))
      (fun other D haccess hD _ hinit => staticField (hother haccess) hD hinit)
      fun other haccess l v => concat l _ (if_neg (hother haccess))

end Untouched

/-- **An initializer leaves its field alone** if it does not access the field, and reaches no code that does. -/
theorem Machine.leavesAlone_of_reaches {m : Machine} {field : DeclId} (h : ∀ init e,
    m.program.fieldInit? field = some init → m.program.Reaches init e → ¬m.program.Accesses e field) :
    m.LeavesAlone field := by
  intro v earlier during hinitial
  cases hinitial with
  | null => rfl
  | @evaluated init depth s t during hinit heval =>
    obtain ⟨during', hlog, hnone⟩ := Untouched.eval (fun e => h init e hinit) depth ⟨s, earlier⟩
    rw [heval] at hlog
    obtain rfl : during = during' := List.append_cancel_left hlog
    exact hnone

/-! ## Steps -/

/-- **What has been recorded after some steps** of a machine that had not done anything before. -/
def Recorded.history (m : Machine) (steps : List Step) : Logged Entry :=
  steps.foldl (fun l step => LogM.final (take m step l)) ⟨{}, []⟩

/-- **A record is faithful** from the first step on. -/
theorem Faithful.history (m : Machine) (steps : List Step) : Faithful m (Recorded.history m steps) := by
  have hsteps (l : Logged Entry) (hl : Faithful m l) :
      Faithful m (steps.foldl (fun l step => LogM.final (Recorded.take m step l)) l) := by
    induction steps generalizing l with
    | nil => exact hl
    | cons step rest ih => exact ih _ (Tracks.take m step l hl).1
  exact hsteps _ .start

/-- The record is about the states that the steps lead to. -/
theorem Recorded.history_state (m : Machine) (steps : List Step) :
    (history m steps).state = steps.foldl (fun s step => s.after (m.take step)) {} := by
  have hsteps (l : Logged Entry) : (steps.foldl (fun l step => LogM.final (take m step l)) l).state =
      steps.foldl (fun s step => s.after (m.take step)) l.state := by
    induction steps generalizing l with
    | nil => rfl
    | cons step rest ih =>
      rw [List.foldl_cons, List.foldl_cons, ih]
      have hstep : (LogM.final (take m step l)).state = l.state.after (m.take step) := by
        rw [State.after, ← take_erases m step l]
        cases take m step l <;> rfl
      rw [hstep]
  exact hsteps _

/-- Where initializers leave their own field alone, nothing has been stored in a field when it is initialized. -/
theorem Faithful.lastStored_eq_none {m : Machine} {l : Logged Entry} (h : Faithful m l) {field : DeclId}
    (halone : m.LeavesAlone field) {before after : List Entry} {running : List DeclId} {v : Value}
    (hlog : l.log = before ++ ⟨running, .initializes field v⟩ :: after) : lastStored field before = none := by
  obtain ⟨earlier, during, rfl, hnone, hinitial⟩ := h.accounts before _ after hlog
  rw [lastStored_append, halone v earlier during hinitial, hnone]
  rfl

namespace Machine

variable (m : Machine)

/-- **Static fields keep what is stored**, over any number of steps, whether these end with values or with faults.

While an expression is evaluated, as between steps, a static field holds what was stored in it last; once there is
something, a read comes to just that, and starts no code.  So every read that is completed has come to what was stored
last.  An initialization begins when nothing has been stored in the field yet.  What has been stored by the time it is
completed was stored in the course of it, by code that the initializer has started.  If the initializer leaves the field
alone, there is nothing then: the field is not initialized after a store, and not a second time. -/
theorem statics_kept :
    (∀ l, Faithful m l → (∀ depth e, Faithful m (LogM.final (Recorded.eval m depth e l))) ∧
      ∀ field D v, m.program.decl? field = some D → D.modifiers.isStatic = true → lastStored field l.log = some v →
        ∀ enter receiver, Recorded.loadField m enter field receiver l =
          .ok v ⟨{ l.state with reads := l.state.reads + 1 }, l.log ++ [⟨l.state.running, .loads field v⟩]⟩) ∧
    ∀ steps, let l := Recorded.history m steps
      l.state = steps.foldl (fun s step => s.after (m.take step)) {} ∧ Faithful m l ∧
      (∀ before running field v after, l.log = before ++ ⟨running, .loads field v⟩ :: after →
        lastStored field before = some v) ∧
      (∀ before running field v after, l.log = before ++ ⟨running, .initializes field v⟩ :: after →
        ∃ earlier during, before = earlier ++ during ∧ lastStored field earlier = none ∧
          m.Initializing field v earlier during) ∧
      ∀ field, m.LeavesAlone field → ∀ before running v after,
        l.log = before ++ ⟨running, .initializes field v⟩ :: after →
          lastStored field before = none ∧ ∀ running' w, ⟨running', .initializes field w⟩ ∉ after := by
  refine ⟨fun l hl => ⟨fun depth e => (Tracks.eval m depth e l hl).1, fun field D v hD hstatic hv enter receiver => ?_⟩,
    fun steps => ?_⟩
  · exact Recorded.loadField_of_held hD hstatic ((hl.held field).trans hv) enter receiver
  have h : Faithful m (Recorded.history m steps) := .history m steps
  refine ⟨Recorded.history_state m steps, h, fun before running field v after => h.accounts before _ after,
    fun before running field v after => h.accounts before _ after, fun field halone before running v after hlog => ?_⟩
  refine ⟨h.lastStored_eq_none halone hlog, fun running' w hmem => ?_⟩
  -- a second initialization would come after the value of the first has been stored
  obtain ⟨between, rest, rfl⟩ := List.append_of_mem hmem
  have hsecond : (Recorded.history m steps).log = (before ++ ⟨running, .initializes field v⟩ :: between) ++
      ⟨running', .initializes field w⟩ :: rest := by rw [hlog, List.append_assoc, List.cons_append]
  have hnone := lastStored_eq_none_iff.1 (h.lastStored_eq_none halone hsecond) ⟨running, .initializes field v⟩ (by simp)
  simp [Event.stored?] at hnone

/-- A program with a static field that starts out with 7, a function that reads it, and one that stores 8 in it and then
fails. -/
def counter : Program where
  name := "counter"
  decls :=
    #[{ name := "count", span := .unknown, modifiers := .static,
        form := .field { ty := .int, initializer := some ⟨0⟩ } },
      { name := "read", span := .unknown, form := .function { returnType := .int, body := some ⟨1⟩ } },
      { name := "fail", span := .unknown, form := .function { returnType := .int, body := some ⟨6⟩ } }]
  exprs := #[⟨.unknown, .int, .const (.int 7)⟩, ⟨.unknown, .int, .getField ⟨0⟩ none⟩,
    ⟨.unknown, .int, .const (.int 8)⟩, ⟨.unknown, .unit, .setField ⟨0⟩ none ⟨2⟩⟩,
    ⟨.unknown, .nothing, .const .null⟩, ⟨.unknown, .unit, .cond ⟨4⟩ ⟨3⟩ none⟩,
    ⟨.unknown, .unit, .block [⟨3⟩, ⟨5⟩]⟩]
  topLevel := [⟨0⟩, ⟨1⟩, ⟨2⟩]

/-- A machine for it. -/
def counterMachine : Machine := ⟨counter, Library.standard, 256⟩

/-- What the failing function has stored is kept, and the initializer is not evaluated again. -/
theorem statics_kept_counter :
    let l := Recorded.history counterMachine [.callFunction ⟨1⟩ [], .callFunction ⟨2⟩ [], .callFunction ⟨1⟩ []]
    let rest : List Entry := [⟨[⟨1⟩], .loads ⟨0⟩ (.int 7)⟩, ⟨[⟨1⟩], .ends ⟨1⟩ (.ok (.int 7))⟩,
      ⟨[⟨2⟩], .stores ⟨0⟩ (.int 8)⟩, ⟨[⟨2⟩], .ends ⟨2⟩ (.error (.fault (.typeMismatch "if" "null")))⟩,
      ⟨[⟨1⟩], .loads ⟨0⟩ (.int 8)⟩, ⟨[⟨1⟩], .ends ⟨1⟩ (.ok (.int 8))⟩]
    counterMachine.LeavesAlone ⟨0⟩ ∧ l.log = ⟨[⟨1⟩], .initializes ⟨0⟩ (.int 7)⟩ :: rest ∧
      ∀ running v, ⟨running, .initializes ⟨0⟩ v⟩ ∉ rest := by
  intro l rest
  -- a constant accesses nothing, and gets to no other code
  have halone : counterMachine.LeavesAlone ⟨0⟩ := by
    refine leavesAlone_of_reaches fun init e hinit hreaches haccess => ?_
    have hconst : counterMachine.program.fieldInit? ⟨0⟩ = some ⟨0⟩ := rfl
    obtain rfl := Option.some.inj (hconst.symm.trans hinit)
    rcases hreaches.cases_head with rfl | ⟨c, hstarts | hcalls, -⟩
    · obtain ⟨E, hE, ⟨receiver, hform⟩ | ⟨receiver, value, hform⟩⟩ := haccess <;> cases hE <;> cases hform
    · cases hstarts with
      | part hpart => cases hpart
      | initializer hE hfield hinit =>
        cases hE
        cases hfield
    · obtain ⟨E, function, dispatch, extension, args, D, f, hE, hform, -⟩ := hcalls
      cases hE
      cases hform
  have hlog : l.log = [] ++ ⟨[⟨1⟩], .initializes ⟨0⟩ (.int 7)⟩ :: rest := by decide +kernel
  obtain ⟨-, -, -, -, hfirst⟩ :=
    counterMachine.statics_kept.2 [.callFunction ⟨1⟩ [], .callFunction ⟨2⟩ [], .callFunction ⟨1⟩ []]
  exact ⟨halone, hlog, (hfirst ⟨0⟩ halone _ _ _ _ hlog).2⟩

/-- A program with a static field whose initializer reads the field when it is entered for the first time, and counts
how often it comes to its end. -/
def circular : Program where
  name := "circular"
  decls :=
    #[{ name := "entered", span := .unknown, modifiers := .static, form := .field { ty := .boolean } },
      { name := "completed", span := .unknown, modifiers := .static,
        form := .field { ty := .int, initializer := some ⟨0⟩ } },
      { name := "value", span := .unknown, modifiers := .static,
        form := .field { ty := .int, initializer := some ⟨14⟩ } },
      { name := "main", span := .unknown, form := .function { returnType := .int, body := some ⟨17⟩ } }]
  exprs :=
    #[⟨.unknown, .int, .const (.int 0)⟩,
      ⟨.unknown, .boolean, .getField ⟨0⟩ none⟩, ⟨.unknown, .nothing, .const .null⟩,
      ⟨.unknown, .boolean, .binary .eq ⟨1⟩ ⟨2⟩⟩, ⟨.unknown, .boolean, .const (.bool true)⟩,
      ⟨.unknown, .unit, .setField ⟨0⟩ none ⟨4⟩⟩, ⟨.unknown, .int, .getField ⟨2⟩ none⟩,
      ⟨.unknown, .int, .block [⟨5⟩, ⟨6⟩]⟩, ⟨.unknown, .unit, .cond ⟨3⟩ ⟨7⟩ none⟩,
      ⟨.unknown, .int, .getField ⟨1⟩ none⟩, ⟨.unknown, .int, .const (.int 1)⟩,
      ⟨.unknown, .int, .binary .add ⟨9⟩ ⟨10⟩⟩, ⟨.unknown, .unit, .setField ⟨1⟩ none ⟨11⟩⟩,
      ⟨.unknown, .int, .const (.int 10)⟩, ⟨.unknown, .int, .block [⟨8⟩, ⟨12⟩, ⟨13⟩]⟩,
      ⟨.unknown, .int, .getField ⟨2⟩ none⟩, ⟨.unknown, .int, .getField ⟨1⟩ none⟩,
      ⟨.unknown, .int, .block [⟨15⟩, ⟨16⟩]⟩]
  topLevel := [⟨0⟩, ⟨1⟩, ⟨2⟩, ⟨3⟩]

/-- A machine for it. -/
def circularMachine : Machine := ⟨circular, Library.standard, 256⟩

/-- A static field may be initialized a second time, if its initializer gets to read it. -/
theorem exists_field_initialized_twice : ¬∀ (m : Machine) (steps : List Step) (before : List Entry)
    (running : List DeclId) (field : DeclId) (v : Value) (after : List Entry), m.program.Closed →
      (Recorded.history m steps).log = before ++ ⟨running, .initializes field v⟩ :: after →
        lastStored field before = none ∧ ∀ running' w, ⟨running', .initializes field w⟩ ∉ after := by
  intro h
  let inMain (event : Event) : Entry := ⟨[⟨3⟩], event⟩
  have hlog : (Recorded.history circularMachine [.callFunction ⟨3⟩ []]).log =
      [inMain (.initializes ⟨0⟩ .null), inMain (.loads ⟨0⟩ .null), inMain (.stores ⟨0⟩ (.bool true)),
        inMain (.loads ⟨0⟩ (.bool true)), inMain (.initializes ⟨1⟩ (.int 0)), inMain (.loads ⟨1⟩ (.int 0)),
        inMain (.stores ⟨1⟩ (.int 1))] ++ inMain (.initializes ⟨2⟩ (.int 10)) ::
      [inMain (.loads ⟨2⟩ (.int 10)), inMain (.loads ⟨1⟩ (.int 1)), inMain (.stores ⟨1⟩ (.int 2)),
        inMain (.initializes ⟨2⟩ (.int 10)), inMain (.loads ⟨2⟩ (.int 10)), inMain (.loads ⟨1⟩ (.int 2)),
        inMain (.ends ⟨3⟩ (.ok (.int 2)))] := by decide +kernel
  exact (h circularMachine _ _ _ _ _ _ (by decide) hlog).2 [⟨3⟩] (.int 10) (by simp [inMain])

end Machine

end DeferredInit
