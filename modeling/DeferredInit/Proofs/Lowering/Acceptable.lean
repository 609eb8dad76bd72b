import DeferredInit.Proofs.Lowering.Failure
import DeferredInit.Proofs.Program.Emitted
import DeferredInit.Session

/-!
# What a front end emits can be lowered

All that a front end can get wrong is to ask for a deferred property that cannot be one: an extension, or one whose
type has no null.  Everything else that lowering expects, what a front end emits is sure to have: no other node of it
violates anything (`Emitted.violations`).
-/

namespace DeferredInit

open Program LoweringFault

variable {p : Program} {items : List Item}

theorem LoweringFault.mem_reportIf {broken : Bool} {f g : LoweringFault} :
    g ∈ reportIf broken f ↔ broken = true ∧ g = f := by
  cases broken <;> simp [reportIf]

/-- **Whether lowering refuses an item**: a deferred property that is not inherited, of a primitive type or an
extension. -/
def Item.isRefused : Item → Bool
  | property _ _ _ _ ty modifiers =>
    modifiers.isDeferredInit && !modifiers.isFakeOverride && (ty.isPrimitive || modifiers.isExtension)
  | _ => false

namespace Emitted

/-- **What a deferred property violates**, if it is not inherited: it is an extension, or has a primitive type. -/
theorem violations_property (hi : Emitted p items) (w : Lowering) {parts : PropertyParts} {span : Span}
    {owner : Option DeclId} {name : String} {ty : Ty} {modifiers : Modifiers}
    (h : .property parts span owner name ty modifiers ∈ items) :
    w.violations p (.decl parts.property) =
      if modifiers.isDeferredInit && !modifiers.isFakeOverride then
        reportIf modifiers.isExtension (.extensionProperty name span) ++ ty.violations name span
      else [] := by
  obtain ⟨hdeclared, -⟩ := hi.property _ _ _ _ _ _ h
  obtain ⟨G, f, hG, hf, -⟩ := hdeclared.accessor (.inl rfl)
  have hstatic {c : Modifiers} (hc : Modifiers.static ∩ c = .none) :=
    Modifiers.contains_static owner.isNone (a := modifiers) hc
  have hparts (D : Decl) (q : PropertyDecl) (hfield : q.backingField = some parts.field)
      (hgetter : q.getter = some parts.getter) : p.propertyViolations D q =
        reportIf D.modifiers.isExtension (.extensionProperty D.name D.span) ++ ty.violations D.name D.span := by
    simp [propertyViolations, hfield, hgetter, fieldViolations, getterViolations, assignmentViolations, hdeclared.field,
      hG, hf, reportIf, DeclForm.field?, DeclForm.function?]
  rw [Lowering.violations, hdeclared.property, Option.elim_some]
  simp only [Decl.isDeferredInit]
  rw [show Modifiers.isDeferredInit _ = modifiers.isDeferredInit from hstatic (by decide),
    show Modifiers.isFakeOverride _ = modifiers.isFakeOverride from hstatic (by decide)]
  cases modifiers.isDeferredInit with
  | false => rfl
  | true =>
    cases modifiers.isFakeOverride with
    | true => rfl
    | false =>
      refine (hparts _ _ rfl rfl).trans ?_
      rw [show Modifiers.isExtension _ = modifiers.isExtension from hstatic (by decide)]
      rfl

/-- **Nothing else violates anything.** -/
theorem mem_of_violations (hi : Emitted p items) (w : Lowering) {n : NodeId} (h : w.violations p n ≠ []) :
    ∃ parts span owner name ty modifiers, .property parts span owner name ty modifiers ∈ items ∧
      n = .decl parts.property := by
  have hnone (d : DeclId) (D : Decl) (v : VariableDecl) (hD : p.decl? d = some D) : D.form ≠ .var v := by
    intro hv
    have hplain := hi.plain.decl d _ (outline?_of_decl? hD)
    rw [hv] at hplain
    exact hplain
  cases n with
  | decl d =>
    cases hD : p.decl? d with
    | none => simp [Lowering.violations, hD] at h
    | some D =>
      cases hform : D.form with
      | var v => exact absurd hform (hnone d D v hD)
      | property q =>
        have hplain := hi.plain.decl d _ (outline?_of_decl? hD)
        rw [hform] at hplain
        obtain ⟨item, hitem, hd⟩ := List.mem_filterMap.1 (show d ∈ propertiesOf items from hplain)
        cases item with
        | property parts span owner name ty modifiers =>
          obtain rfl := Option.some.inj hd
          exact ⟨parts, span, owner, name, ty, modifiers, hitem, rfl⟩
        | _ => cases hd
      | _ => simp [Lowering.violations, hD, hform] at h
  | expr e =>
    cases hE : p.expr? e with
    | none => simp [Lowering.violations, hE] at h
    | some E =>
      cases hform : E.form with
      | call callee dispatch extension args => exact absurd hform (hi.plain.calls e E hE _ _ _ _)
      | getValue x =>
        cases hX : p.decl? x with
        | none => simp [Lowering.violations, hE, hform, hX] at h
        | some X =>
          cases hx : X.form with
          | var v => exact absurd hx (hnone x X v hX)
          | _ => simp [Lowering.violations, hE, hform, hX, hx] at h
      | _ => simp [Lowering.violations, hE, hform] at h

/-- **Whatever has been declared can be reached.** -/
theorem reachable (hi : Emitted p items) {item : Item} (h : item ∈ items) : p.Reachable (.decl item.member) := by
  have houtermost {item : Item} (h : item ∈ items) (hnone : item.owner = none) : p.Reachable (.decl item.member) := by
    have htop := hi.mem_membersOf h
    rw [hnone] at htop
    exact .outermost (List.mem_map_of_mem htop)
  cases ho : item.owner with
  | none => exact houtermost h ho
  | some o =>
    -- the owner is a class, which is outermost
    have hclass := hi.owner item h o ho
    obtain ⟨owner, howner, ho'⟩ := List.mem_filterMap.1 hclass
    obtain rfl : owner = .cls o := by cases owner <;> simp_all [Item.cls?]
    obtain ⟨C, c, hC, hc⟩ := hi.cls o hclass
    have hmember := hi.mem_membersOf h
    rw [ho, membersOf_cls hC hc] at hmember
    refine .owned (houtermost howner rfl) ?_
    simpa [Item.member, kids_decl hC, hc, DeclForm.owned, DeclForm.ownedDecls] using hmember

/-- A property violates something exactly if it is refused. -/
theorem violations_ne_nil_iff (hi : Emitted p items) (w : Lowering) {parts : PropertyParts} {span : Span}
    {owner : Option DeclId} {name : String} {ty : Ty} {modifiers : Modifiers}
    (h : .property parts span owner name ty modifiers ∈ items) :
    w.violations p (.decl parts.property) ≠ [] ↔
      (Item.property parts span owner name ty modifiers).isRefused = true := by
  rw [hi.violations_property w h, Item.isRefused, Ty.violations]
  cases modifiers.isDeferredInit <;> cases modifiers.isFakeOverride <;> cases modifiers.isExtension <;>
    cases ty.isPrimitive <;> simp [reportIf]

/-- **Lowering fails exactly for items that are refused.** -/
theorem lower_refuses_iff (hi : Emitted p items) (w : Lowering) :
    (∃ stop, (w.lower p).1 = .error stop) ↔ ∃ item ∈ items, item.isRefused = true := by
  rw [Lowering.lower_fails_iff hi.closed hi.forest]
  constructor
  · rintro ⟨n, -, hn⟩
    obtain ⟨parts, span, owner, name, ty, modifiers, hitem, rfl⟩ := hi.mem_of_violations w hn
    exact ⟨_, hitem, (hi.violations_ne_nil_iff w hitem).1 hn⟩
  · rintro ⟨item, hitem, hrefused⟩
    refine ⟨_, hi.reachable hitem, ?_⟩
    cases item with
    | property parts span owner name ty modifiers => exact (hi.violations_ne_nil_iff w hitem).2 hrefused
    | _ => cases hrefused

/-- Lowering fails because a type is primitive or a property is an extension. -/
theorem lower_error_kind (hi : Emitted p items) (w : Lowering) {stop : Stop LoweringFault}
    (h : (w.lower p).1 = .error stop) :
    ∃ name span, (∃ ty, stop = .fault (.primitiveType name ty span)) ∨
      stop = .fault (.extensionProperty name span) := by
  obtain ⟨n, hn, hviolates⟩ := (Lowering.lower_fails_iff hi.closed hi.forest).1 ⟨stop, h⟩
  obtain ⟨m, f, -, hf, hlower⟩ := Lowering.lower_error hi.closed hi.forest hn hviolates
  obtain ⟨parts, span, owner, name, ty, modifiers, hitem, rfl⟩ := hi.mem_of_violations w (List.ne_nil_of_mem hf)
  rw [hi.violations_property w hitem] at hf
  rw [h] at hlower
  cases hlower
  refine ⟨name, span, ?_⟩
  split at hf
  · rcases List.mem_append.1 hf with hf | hf
    · exact .inr (congrArg Stop.fault ((mem_reportIf.1 hf).2))
    · exact .inl ⟨ty, congrArg Stop.fault ((mem_reportIf.1 hf).2)⟩
  · cases hf

end Emitted

/-! ## The standard library -/

/-- How a lowering that stops is reported. -/
def Stop.reported : Stop LoweringFault → Stop Fault
  | .fault f => .fault (.lowering f)
  | .halt h => .halt h

theorem Session.lower_error_iff (s : Session) (p : Program) (stop : Stop Fault) :
    (s.lower p).1 = .error stop ↔ ∃ halted, (s.lowering.lower p).1 = .error halted ∧ stop = halted.reported := by
  unfold Session.lower
  generalize s.lowering.lower p = r
  obtain ⟨(f | h) | stats, q⟩ := r <;> simp [Stop.reported, eq_comm]

theorem resolve_standard : Intrinsics.resolve Library.standard = .ok Sample.lowering.intrinsics := by decide +kernel

/-- The standard library hosts a lowering, whatever the options. -/
theorem exists_session (options : LoweringOptions) :
    ∃ s : Session, ∀ p, lowerProgram p options = s.lower p := by
  have hw : Lowering.ofLibrary Library.standard options =
      .ok { intrinsics := Sample.lowering.intrinsics, options } := by
    rw [Lowering.ofLibrary, resolve_standard]
    rfl
  obtain ⟨s, hs⟩ : ∃ s, Session.standard options = .ok s := by
    rw [Session.standard, Session.ofLibrary, hw]
    exact ⟨_, rfl⟩
  refine ⟨s, fun p => ?_⟩
  unfold lowerProgram
  rw [hs]

/-- **What a front end emits is acceptable.**  All requests are answered, in order, and whatever they are, nothing is
missing and nothing is shared.  Each function and each property is a member of its owner, once, and of nothing else.  A
property and its parts belong together, and with no other.  Lowered over the standard library, the program fails exactly
if it has a deferred property, not inherited, of a primitive type or an extension, and for no other reason. -/
theorem declareAll_acceptable (name : String) (requests : List Request) :
    ∃ items p, declareAll requests { name } = .ok items p ∧ AllAnswered p requests items ∧ p.Closed ∧
      p.findShared = .ok none ∧
      (∀ item ∈ items, ∀ o, (p.membersOf o).count item.member = if o = item.owner then 1 else 0) ∧
      (∀ parts span owner name ty modifiers, .property parts span owner name ty modifiers ∈ items →
        p.Linked parts owner modifiers) ∧
      ∀ options, ((∃ stop, (lowerProgram p options).1 = .error stop) ↔ ∃ item ∈ items, item.isRefused = true) ∧
        ∀ stop, (lowerProgram p options).1 = .error stop → ∃ name span,
          (∃ ty, stop = .fault (.lowering (.primitiveType name ty span))) ∨
            stop = .fault (.lowering (.extensionProperty name span)) := by
  obtain ⟨items, p, hrun, hall, hi⟩ := declareAll_emits name requests
  refine ⟨items, p, hrun, hall, hi.closed, findShared_eq_none_iff.2 hi.forest, hi.once,
    fun _ _ _ _ _ _ h => hi.linked h, fun options => ?_⟩
  obtain ⟨s, hs⟩ := exists_session options
  rw [hs p]
  refine ⟨?_, fun stop hstop => ?_⟩
  · rw [← hi.lower_refuses_iff s.lowering]
    constructor
    · rintro ⟨stop, hstop⟩
      obtain ⟨halted, hhalted, -⟩ := (s.lower_error_iff p stop).1 hstop
      exact ⟨halted, hhalted⟩
    · rintro ⟨halted, hhalted⟩
      exact ⟨_, (s.lower_error_iff p _).2 ⟨halted, hhalted, rfl⟩⟩
  · obtain ⟨halted, hhalted, rfl⟩ := (s.lower_error_iff p stop).1 hstop
    obtain ⟨name, span, ⟨ty, rfl⟩ | rfl⟩ := hi.lower_error_kind s.lowering hhalted
    · exact ⟨name, span, .inl ⟨ty, rfl⟩⟩
    · exact ⟨name, span, .inr rfl⟩

end DeferredInit
