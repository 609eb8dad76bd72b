import DeferredInit.Proofs.Machine.Calls

/-!
# What is in memory

Between two steps a machine keeps values in fields, of objects and static ones.  `Memory` is what can be seen of them:
what every field holds at every place, where a field that nothing was stored in holds null, how many objects there
are, and how many times a field has been read.  A field whose initial content is null is read and stored in that view
alone (`loadField_run`, `storeField_run`).

A step ends with an answer unless something halts.  If the body of a function `Finishes`, so does the call
(`invokeWith_run`), and the functions that were running before are running afterwards.
-/

namespace DeferredInit

/-! ## Tables of pairs -/

namespace Table

variable {κ ν : Type} [DecidableEq κ]

theorem get?_foldl_insert (pairs : List (κ × ν)) (t : Table κ ν) {k : κ} (hk : k ∉ pairs.map Prod.fst) :
    (pairs.foldl (fun t p => t.insert p.1 p.2) t).get? k = t.get? k := by
  induction pairs generalizing t with
  | nil => rfl
  | cons pair rest ih =>
    rw [List.map_cons, List.mem_cons, not_or] at hk
    rw [List.foldl_cons, ih _ hk.2, get?_insert_of_ne _ _ (Ne.symm hk.1)]

/-- Where no key occurs twice, the table of a list has every pair of it. -/
theorem get?_ofList {pairs : List (κ × ν)} (hnodup : (pairs.map Prod.fst).Nodup) {k : κ} {v : ν} (h : (k, v) ∈ pairs) :
    (ofList pairs).get? k = some v := by
  obtain ⟨before, after, rfl⟩ := List.append_of_mem h
  rw [List.map_append, List.map_cons, List.nodup_append] at hnodup
  rw [ofList, List.foldl_append, List.foldl_cons, get?_foldl_insert _ _ (List.nodup_cons.1 hnodup.2.1).1,
    get?_insert_self]

theorem mem_of_get?_foldl_insert (pairs : List (κ × ν)) {t : Table κ ν} {k : κ} {v : ν}
    (h : (pairs.foldl (fun t p => t.insert p.1 p.2) t).get? k = some v) : (k, v) ∈ pairs ∨ t.get? k = some v := by
  induction pairs generalizing t with
  | nil => exact .inr h
  | cons pair rest ih =>
    rcases ih h with hrest | ht
    · exact .inl (List.mem_cons_of_mem _ hrest)
    · rw [get?_insert] at ht
      by_cases hk : pair.1 = k
      · rw [if_pos hk] at ht
        obtain rfl := hk
        obtain rfl := Option.some.inj ht
        exact .inl List.mem_cons_self
      · rw [if_neg hk] at ht
        exact .inr ht

/-- The table of a list has nothing but its pairs. -/
theorem mem_of_get?_ofList {pairs : List (κ × ν)} {k : κ} {v : ν} (h : (ofList pairs).get? k = some v) :
    (k, v) ∈ pairs := by
  rcases mem_of_get?_foldl_insert pairs h with hmem | hempty
  · exact hmem
  · cases hempty

end Table

/-! ## Memory -/

/-- **What is in memory.** -/
structure Memory where
  /-- What a field holds: of the object with this serial number, or static. -/
  cell : DeclId → Option Nat → Value
  /-- How many objects there are. -/
  objects : Nat
  /-- How many times a field has been read. -/
  reads : Nat

namespace Memory

/-- Memory after a field has been read. -/
def read (μ : Memory) : Memory := { μ with reads := μ.reads + 1 }

/-- Memory after something has been stored. -/
def store (μ : Memory) (field : DeclId) (place : Option Nat) (v : Value) : Memory :=
  { μ with cell := fun f k => if f = field ∧ k = place then v else μ.cell f k }

/-- Memory after an object has been made. -/
def add (μ : Memory) : Memory := { μ with objects := μ.objects + 1 }

end Memory

/-- Where a field is kept: in the object that it is accessed of, or once for the whole program. -/
def place (isStatic : Bool) (this : Option Value) : Option Nat :=
  if isStatic then none else (this.bind Value.object?).map (·.serial)

namespace State

/-- What a field holds in a state; null if nothing was stored in it. -/
def cell (s : State) (field : DeclId) : Option Nat → Value
  | none => (s.statics.get? field).getD .null
  | some i => ((s.objects[i]?.getD ∅).get? field).getD .null

/-- The memory of a state. -/
def memory (s : State) : Memory := ⟨s.cell, s.objects.size, s.reads⟩

/-- A static field that holds null by default may just as well hold it. -/
theorem memory_writeStatic_null {s : State} {field : DeclId} (h : s.statics.get? field = none) :
    { s with statics := s.statics.insert field .null }.memory = s.memory := by
  refine congrArg (Memory.mk · _ _) (funext₂ fun f k => ?_)
  cases k with
  | none =>
    show ((s.statics.insert field .null).get? f).getD .null = (s.statics.get? f).getD .null
    rw [Table.get?_insert]
    split
    · next hf => rw [← hf, h, Option.getD_some, Option.getD_none]
    · rfl
  | some i => rfl

theorem memory_writeStatic (s : State) (field : DeclId) (v : Value) :
    { s with statics := s.statics.insert field v }.memory = s.memory.store field none v := by
  refine congrArg (Memory.mk · _ _) (funext₂ fun f k => ?_)
  cases k with
  | none =>
    show ((s.statics.insert field v).get? f).getD .null = if f = field ∧ none = none then v else s.cell f none
    rw [Table.get?_insert]
    by_cases hf : field = f
    · rw [if_pos hf, if_pos ⟨hf.symm, rfl⟩, Option.getD_some]
    · rw [if_neg hf, if_neg fun h => hf h.1.symm]
      rfl
  | some i => exact (if_neg fun h => nomatch h.2).symm

theorem memory_setField {s : State} {o : ObjectRef} (ho : o.serial < s.objects.size) (field : DeclId) (v : Value) :
    (s.setField o field v).memory = s.memory.store field (some o.serial) v := by
  have hsize : (s.setField o field v).objects.size = s.objects.size := Array.size_modify
  refine Memory.mk.injEq .. |>.mpr ⟨funext₂ fun f k => ?_, hsize, rfl⟩
  cases k with
  | none => exact (if_neg fun h => nomatch h.2).symm
  | some i =>
    show (((s.objects.modify o.serial (·.insert field v))[i]?.getD ∅).get? f).getD .null =
      if f = field ∧ some i = some o.serial then v else s.cell f (some i)
    rw [Array.getElem?_modify]
    by_cases hi : o.serial = i
    · subst hi
      rw [if_pos rfl, Array.getElem?_eq_getElem ho, Option.map_some, Option.getD_some, Table.get?_insert]
      by_cases hf : field = f
      · rw [if_pos hf, if_pos ⟨hf.symm, rfl⟩, Option.getD_some]
      · rw [if_neg hf, if_neg fun h => hf h.1.symm]
        simp only [cell, Array.getElem?_eq_getElem ho, Option.getD_some]
    · rw [if_neg hi, if_neg fun h => hi (Option.some.inj h.2).symm]
      rfl

/-- A new object without any fields shows in nothing but the number of objects. -/
theorem memory_push (s : State) : { s with objects := s.objects.push ∅ }.memory = s.memory.add := by
  refine Memory.mk.injEq .. |>.mpr ⟨funext₂ fun f k => ?_, Array.size_push _, rfl⟩
  cases k with
  | none => rfl
  | some i =>
    show (((s.objects.push ∅)[i]?.getD ∅).get? f).getD .null = ((s.objects[i]?.getD ∅).get? f).getD .null
    rw [Array.getElem?_push]
    split
    · next hi => rw [hi, Array.getElem?_eq_none (Nat.le_refl _), Option.getD_some, Option.getD_none]
    · rfl

end State

/-! ## Fields -/

namespace Machine

variable (m : Machine) {field : DeclId} {F : Decl} {this : Option Value} (enter : ExprId → EvalM Value)

/-- **A field is read** that holds null at first. -/
theorem loadField_run (hF : m.program.decl? field = some F) (hinit : F.form.field?.bind (·.initializer) = none)
    (hthis : F.modifiers.isStatic = false → ∃ o, this = some (.object o)) (s : State) :
    ∃ t, m.loadField enter field this s = .ok (s.cell field (place F.modifiers.isStatic this)) t ∧
      t.frames = s.frames ∧ t.memory = s.memory.read := by
  simp only [loadField, decl, hF, bind, EStateM.bind, EvalM.countRead_run, pure, EStateM.pure]
  cases hstatic : F.modifiers.isStatic with
  | true =>
    simp only [if_true, staticField, hinit, bind, EStateM.bind, EvalM.static?_run, pure, place, State.cell]
    cases hs : s.statics.get? field with
    | none =>
      exact ⟨{ s with statics := s.statics.insert field .null, reads := s.reads + 1 }, rfl, rfl,
        State.memory_writeStatic_null (s := { s with reads := s.reads + 1 }) hs⟩
    | some v => exact ⟨{ s with reads := s.reads + 1 }, rfl, rfl, rfl⟩
  | false =>
    obtain ⟨o, rfl⟩ := hthis hstatic
    exact ⟨{ s with reads := s.reads + 1 }, rfl, rfl, rfl⟩

/-- **A field is stored into.** -/
theorem storeField_run (hF : m.program.decl? field = some F) (this : Option Value) (v : Value) {s : State}
    (hthis : F.modifiers.isStatic = false → ∃ o, this = some (.object o) ∧ o.serial < s.objects.size) :
    ∃ t, m.storeField field this v s = .ok () t ∧ t.frames = s.frames ∧
      t.memory = s.memory.store field (place F.modifiers.isStatic this) v := by
  simp only [storeField, decl, hF, bind, EStateM.bind, pure, EStateM.pure]
  cases hstatic : F.modifiers.isStatic with
  | true => exact ⟨_, rfl, rfl, s.memory_writeStatic field v⟩
  | false =>
    obtain ⟨o, rfl, ho⟩ := hthis hstatic
    exact ⟨_, rfl, rfl, State.memory_setField ho field v⟩

/-! ## Objects -/

/-- A member that nothing is stored for when an object is made. -/
inductive StartsEmpty : DeclId → Prop
  | function {k : DeclId} {K : Decl} {f : FunctionDecl} :
      m.program.decl? k = some K → K.form = .function f → StartsEmpty k
  | property {k field : DeclId} {K F : Decl} {r : PropertyDecl} :
      m.program.decl? k = some K → K.form = .property r → r.backingField = some field →
      m.program.decl? field = some F → F.form.field?.bind (·.initializer) = none → StartsEmpty k

variable {m}

theorem initField_run {k : DeclId} (hk : m.StartsEmpty k) (fields : Table DeclId Value) (s : State) :
    m.initField enter fields k s = .ok fields s := by
  cases hk with
  | function hK hf => simp only [initField, storageOf, decl, hK, hf, bind, EStateM.bind, pure, EStateM.pure]
  | property hK hr hfield hF hinit =>
    simp only [initField, storageOf, decl, hK, hr, hfield, hF, hinit, bind, EStateM.bind, pure, EStateM.pure]

/-- **An object is made** of which no field has been stored. -/
theorem instantiate_run {cls : DeclId} {C : Decl} {c : ClassDecl} (hC : m.program.decl? cls = some C)
    (hc : C.form = .cls c) (hmembers : ∀ k ∈ c.members, m.StartsEmpty k) (s : State) :
    ∃ t, m.instantiate enter cls s = .ok (.object ⟨s.objects.size, some cls⟩) t ∧ t.frames = s.frames ∧
      t.memory = s.memory.add := by
  have hfields : c.members.foldlM (initField m enter) ∅ s = .ok ∅ s := by
    generalize c.members = members at hmembers
    induction members with
    | nil => rfl
    | cons k rest ih =>
      simp only [List.foldlM_cons, bind, EStateM.bind, initField_run enter (hmembers k List.mem_cons_self)]
      exact ih fun k hk => hmembers k (List.mem_cons_of_mem _ hk)
  refine ⟨{ s with objects := s.objects.push ∅ }, ?_, rfl, s.memory_push⟩
  simp only [instantiate, decl, hC, hc, DeclForm.cls?, bind, EStateM.bind, pure, EStateM.pure, hfields]
  rfl

/-! ## Functions -/

/-- **How a function ends**: with the value of its body, by returning, or with a fault. -/
inductive Finishes (function : DeclId) : EStateM.Result Unwind State Value → Answer → Prop
  | value (v : Value) (t : State) : Finishes function (.ok v t) (.ok v, t)
  | ret (v : Value) (t : State) : Finishes function (.error (.ret function v) t) (.ok v, t)
  | fault (f : RuntimeFault) (t : State) : Finishes function (.error (.fault f) t) (.error f, t)

variable (m) in
/-- **A function is called.** -/
theorem invokeWith_run {body : FunctionDecl → Option (EvalM Value)} {function : DeclId} {D : Decl} {f : FunctionDecl}
    {run : EvalM Value} {extension : Option Value} {args : List Value} {s t : State}
    {outcome : Except RuntimeFault Value} (hdepth : s.frames.length < m.maxDepth)
    (hD : m.program.decl? function = some D) (hf : D.form = .function f) (harity : f.params.length = args.length)
    (hbody : body f = some run)
    (h : Finishes function (run (s.enter ⟨function, arguments f this extension args⟩)) (outcome, t)) :
    m.invokeWith body function this extension args s = Answer.result (outcome, t.leave) := by
  rw [m.invokeWith_eq_finish hdepth hD hf harity hbody]
  generalize run _ = r at h
  cases h with
  | value v t | fault f t => rfl
  | ret v t => exact m.finish_ret_self function v t

end Machine

end DeferredInit
