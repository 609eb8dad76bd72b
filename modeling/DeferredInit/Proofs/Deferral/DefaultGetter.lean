import DeferredInit.Proofs.Program.Declared
import DeferredInit.Proofs.Program.Sample

/-!
# The getter that a property is declared with

A property is declared together with a getter that returns the content of its field (`DefaultGetter`).  A front end
may give a property any other getter later.  Lowering replaces the getter of a genuine deferred property by a guarded
one that returns the field, so it keeps what a program does only if the getter did just that.
-/

namespace DeferredInit

open Program

/-- **The getter that a property is declared with** returns the field of its receiver, if it has one. -/
def Program.DefaultGetter (p : Program) (getter field : DeclId) : Prop :=
  ∃ G f body result read this, p.decl? getter = some G ∧ G.form = .function f ∧ f.body = some body ∧
    (p.expr? body).map (·.form) = some (.block [result]) ∧
    (p.expr? result).map (·.form) = some (.ret getter (some read)) ∧
    (p.expr? read).map (·.form) = some (.getField field this) ∧
    (this.map fun t => (p.expr? t).map (·.form)) = f.dispatchReceiver.map fun r => some (.getValue r)

/-- Every genuine deferred property that can be reached has the getter that it was declared with. -/
def Program.HasDefaultGetters (p : Program) : Prop :=
  ∀ d D r getter field, p.Reachable (.decl d) → p.decl? d = some D → D.form = .property r →
    D.isDeferredInit = true → D.modifiers.isFakeOverride = false → r.getter = some getter →
    r.backingField = some field → p.DefaultGetter getter field

/-- **A declared property** has it. -/
theorem Program.DeclaredProperty.defaultGetter {p : Program} {parts : PropertyParts} {span : Span}
    {owner : Option DeclId} {name : String} {ty : Ty} {modifiers : Modifiers}
    (h : p.DeclaredProperty parts span owner name ty modifiers) : p.DefaultGetter parts.getter parts.field := by
  obtain ⟨receiver, body, hf, -, result, read, this, hbody, hresult, hread, hthis⟩ := h.getter
  obtain ⟨G, returnType, hG, hform⟩ := hf.decl?
  exact ⟨G, _, body, result, read, this, hG, hform, rfl, hbody, hresult, hread, hthis⟩

theorem Sample.hasDefaultGetters : sample.HasDefaultGetters := by
  intro d D r getter field _ hD hr _ _ hgetter hfield
  obtain ⟨i⟩ := d
  match i with
  | 1 =>
    obtain rfl := Option.some.inj hD
    obtain rfl := DeclForm.property.inj hr
    obtain rfl := Option.some.inj hgetter
    obtain rfl := Option.some.inj hfield
    exact ⟨_, _, ⟨3⟩, ⟨2⟩, ⟨1⟩, some ⟨0⟩, rfl, rfl, rfl, rfl, rfl, rfl, rfl⟩
  | 0 | 2 | 3 | 4 | 5 | 6 | 7 =>
    obtain rfl := Option.some.inj hD
    cases hr
  | i + 8 => cases hD

end DeferredInit
