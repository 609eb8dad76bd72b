import Mathlib.Data.List.Forall2
import DeferredInit.Machine.State

/-!
# States that resemble each other

A field that nothing was stored in holds null, so whether null was stored in it cannot be observed.  Two states
resemble each other if they agree up to that: a field of an object may be missing in one state and hold null in the
other.  How much the variables of running functions may differ is left open; it is given by a relation for each of
them.  All else is the same, the number of field reads included.
-/

namespace DeferredInit

/-- **Fields with the same contents**: a missing one counts as null. -/
def Table.SameContents (a b : Table DeclId Value) : Prop :=
  ∀ k, (a.get? k).getD .null = (b.get? k).getD .null

namespace Table.SameContents

variable {a b : Table DeclId Value}

theorem insert (h : SameContents a b) (k : DeclId) (v : Value) : SameContents (a.insert k v) (b.insert k v) := by
  intro k'
  simp only [get?_insert]
  split
  · rfl
  · exact h k'

/-- Null may be stored on one side only. -/
theorem insert_null (h : SameContents a b) {k : DeclId} (ha : a.get? k = none) :
    SameContents a (b.insert k .null) := by
  intro k'
  rw [get?_insert]
  split
  · next heq => rw [← heq, ha]; rfl
  · exact h k'

end Table.SameContents

/-- How what two frames hold for a variable is related. -/
abbrev LocalRel := DeclId → Option Value → Option Value → Prop

/-- The same function, with variables that are related. -/
structure Frame.Resembles (rel : LocalRel) (f g : Frame) : Prop where
  function_eq : f.function = g.function
  locals : ∀ d, rel d (f.locals.get? d) (g.locals.get? d)

/-- **States that resemble each other.** -/
structure State.Resembles (rel : LocalRel) (s t : State) : Prop where
  reads_eq : s.reads = t.reads
  statics_eq : ∀ k, s.statics.get? k = t.statics.get? k
  size_eq : s.objects.size = t.objects.size
  fields : ∀ o, Table.SameContents (s.fieldsOf o) (t.fieldsOf o)
  frames : List.Forall₂ (Frame.Resembles rel) s.frames t.frames

namespace State.Resembles

variable {rel rel' rel'' : LocalRel} {s t u : State}

theorem refl (hrel : ∀ d a, rel d a a) (s : State) : s.Resembles rel s where
  reads_eq := rfl
  statics_eq _ := rfl
  size_eq := rfl
  fields _ _ := rfl
  frames := List.forall₂_same.2 fun _ _ => ⟨rfl, fun d => hrel d _⟩

theorem symm (h : s.Resembles rel t) (hrel : ∀ d a b, rel d a b → rel' d b a) : t.Resembles rel' s where
  reads_eq := h.reads_eq.symm
  statics_eq k := (h.statics_eq k).symm
  size_eq := h.size_eq.symm
  fields o k := (h.fields o k).symm
  frames := by
    have hflip : List.Forall₂ (fun f g => Frame.Resembles rel' g f) s.frames t.frames :=
      h.frames.imp fun _ _ h => ⟨h.function_eq.symm, fun d => hrel d _ _ (h.locals d)⟩
    exact hflip.flip

theorem trans (h : s.Resembles rel t) (h' : t.Resembles rel' u)
    (hrel : ∀ d a b c, rel d a b → rel' d b c → rel'' d a c) : s.Resembles rel'' u where
  reads_eq := h.reads_eq.trans h'.reads_eq
  statics_eq k := (h.statics_eq k).trans (h'.statics_eq k)
  size_eq := h.size_eq.trans h'.size_eq
  fields o k := (h.fields o k).trans (h'.fields o k)
  frames := by
    have hst := h.frames
    have htu := h'.frames
    generalize s.frames = fs, t.frames = gs, u.frames = hs at hst htu ⊢
    induction hst generalizing hs with
    | nil =>
      cases htu
      exact .nil
    | cons hfg _ ih =>
      cases htu with
      | cons hgh hrest =>
        exact .cons ⟨hfg.function_eq.trans hgh.function_eq, fun d => hrel d _ _ _ (hfg.locals d) (hgh.locals d)⟩
          (ih _ hrest)

/-! ## Writing -/

theorem countRead (h : s.Resembles rel t) :
    State.Resembles rel { s with reads := s.reads + 1 } { t with reads := t.reads + 1 } :=
  ⟨congrArg (· + 1) h.reads_eq, h.statics_eq, h.size_eq, h.fields, h.frames⟩

theorem writeStatic (h : s.Resembles rel t) (field : DeclId) (v : Value) :
    State.Resembles rel { s with statics := s.statics.insert field v }
      { t with statics := t.statics.insert field v } := by
  refine ⟨h.reads_eq, fun k => ?_, h.size_eq, h.fields, h.frames⟩
  simp only [Table.get?_insert, h.statics_eq k]

theorem fieldsOf_setField (s : State) (o o' : ObjectRef) (field : DeclId) (v : Value) :
    (s.setField o field v).fieldsOf o' =
      if o'.serial = o.serial ∧ o.serial < s.objects.size then (s.fieldsOf o).insert field v else s.fieldsOf o' := by
  by_cases heq : o'.serial = o.serial
  · by_cases hlt : o.serial < s.objects.size
    · simp [State.fieldsOf, State.setField, heq, hlt, Array.getElem_modify]
    · simp [State.fieldsOf, State.setField, heq, hlt]
  · simp [State.fieldsOf, State.setField, heq, Ne.symm heq, Array.getElem?_modify]

theorem setField (h : s.Resembles rel t) (o : ObjectRef) (field : DeclId) (v : Value) :
    (s.setField o field v).Resembles rel (t.setField o field v) := by
  refine ⟨h.reads_eq, h.statics_eq, ?_, fun o' => ?_, h.frames⟩
  · simp [State.setField, h.size_eq]
  · rw [fieldsOf_setField, fieldsOf_setField, h.size_eq]
    split
    · exact (h.fields o).insert field v
    · exact h.fields o'

theorem fieldsOf_addObject (s : State) (cls : Option DeclId) (fields : Table DeclId Value) (o : ObjectRef) :
    (s.addObject cls fields).2.fieldsOf o = if o.serial = s.objects.size then fields else s.fieldsOf o := by
  by_cases heq : o.serial = s.objects.size <;>
    simp [State.fieldsOf, State.addObject, heq, Array.getElem?_push]

/-- An object gets the same identity, even if its fields only agree. -/
theorem addObject (h : s.Resembles rel t) (cls : Option DeclId) {a b : Table DeclId Value}
    (hab : Table.SameContents a b) :
    (s.addObject cls a).1 = (t.addObject cls b).1 ∧ (s.addObject cls a).2.Resembles rel (t.addObject cls b).2 := by
  refine ⟨by simp [State.addObject, h.size_eq], h.reads_eq, h.statics_eq, ?_, fun o => ?_, h.frames⟩
  · simp [State.addObject, h.size_eq]
  · rw [fieldsOf_addObject, fieldsOf_addObject, h.size_eq]
    split
    · exact hab
    · exact h.fields o

/-! ## Frames -/

theorem push (h : s.Resembles rel t) (hrel : ∀ d a, rel d a a) (frame : Frame) :
    State.Resembles rel { s with frames := frame :: s.frames } { t with frames := frame :: t.frames } :=
  ⟨h.reads_eq, h.statics_eq, h.size_eq, h.fields, .cons ⟨rfl, fun d => hrel d _⟩ h.frames⟩

theorem pop (h : s.Resembles rel t) :
    State.Resembles rel { s with frames := s.frames.tail } { t with frames := t.frames.tail } := by
  refine ⟨h.reads_eq, h.statics_eq, h.size_eq, h.fields, ?_⟩
  have hst := h.frames
  generalize s.frames = fs, t.frames = gs at hst ⊢
  cases hst with
  | nil => exact .nil
  | cons _ hrest => exact hrest

end State.Resembles

/-! ## Variables of the innermost function -/

/-- What a variable of the innermost running function holds. -/
def State.local? (s : State) (d : DeclId) : Option Value := s.frames.head?.bind (·.locals.get? d)

/-- The state in which a variable of the innermost running function has a value. -/
def State.setLocal (s : State) (d : DeclId) (v : Value) : State :=
  match s.frames with
  | [] => s
  | frame :: rest => { s with frames := { frame with locals := frame.locals.insert d v } :: rest }

/-- A variable is read back where a function is running. -/
theorem State.local?_setLocal {s : State} (hs : s.frames ≠ []) (d : DeclId) (v : Value) :
    (s.setLocal d v).local? d = some v := by
  obtain ⟨objects, statics, frames, reads⟩ := s
  cases frames with
  | nil => exact absurd rfl hs
  | cons frame rest => exact Table.get?_insert_self ..

/-- What both sides hold for a variable is related. -/
theorem State.Resembles.local? {rel : LocalRel} {s t : State} (h : s.Resembles rel t) {d : DeclId}
    (hd : rel d none none) : rel d (s.local? d) (t.local? d) := by
  have hframes := h.frames
  obtain ⟨objects, statics, fs, reads⟩ := s
  obtain ⟨objects', statics', gs, reads'⟩ := t
  cases hframes with
  | nil => exact hd
  | cons hfg _ => exact hfg.locals d

/-- A variable may be given a value on one side only, if what the other side holds is related to it. -/
theorem State.Resembles.setLocal_right {rel : LocalRel} {s t : State} (h : s.Resembles rel t) {d : DeclId} {v : Value}
    (hd : rel d (s.local? d) (some v)) : s.Resembles rel (t.setLocal d v) := by
  have hframes := h.frames
  obtain ⟨objects, statics, fs, reads⟩ := s
  obtain ⟨objects', statics', gs, reads'⟩ := t
  cases hframes with
  | nil => exact h
  | @cons f g fs gs hfg hrest =>
    refine ⟨h.reads_eq, h.statics_eq, h.size_eq, h.fields, .cons ⟨hfg.function_eq, fun k => ?_⟩ hrest⟩
    show rel k (f.locals.get? k) ((g.locals.insert d v).get? k)
    by_cases hk : d = k
    · subst hk
      rw [Table.get?_insert_self]
      exact hd
    · rw [Table.get?_insert_of_ne _ _ hk]
      exact hfg.locals k

namespace EvalM

theorem local?_run (d : DeclId) (s : State) : EvalM.local? d s = .ok (s.local? d) s := by
  obtain ⟨objects, statics, frames, reads⟩ := s
  cases frames <;> rfl

theorem setLocal_run (d : DeclId) (v : Value) (s : State) : EvalM.setLocal d v s = .ok () (s.setLocal d v) := rfl

theorem static?_run (field : DeclId) (s : State) : EvalM.static? field s = .ok (s.statics.get? field) s := rfl

theorem writeStatic_run (field : DeclId) (v : Value) (s : State) :
    EvalM.writeStatic field v s = .ok () { s with statics := s.statics.insert field v } := rfl

theorem countRead_run (s : State) : EvalM.countRead s = .ok () { s with reads := s.reads + 1 } := rfl

end EvalM

theorem RunM.get_run (s : State) : (get : RunM State) s = .ok s s := rfl

end DeferredInit
