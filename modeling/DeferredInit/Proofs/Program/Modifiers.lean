import DeferredInit.Program.Modifiers

/-!
# Which modifiers there are

What is added to modifiers, or taken from them, leaves alone all others.
-/

namespace DeferredInit

namespace Modifiers

theorem or_and_distrib (a b c : UInt32) : (a ||| b) &&& c = (a &&& c) ||| (b &&& c) := by
  apply UInt32.eq_of_toBitVec_eq
  ext i hi
  simp [Bool.and_or_distrib_right]

/-- Modifiers that have nothing in common with others do not add to them. -/
theorem contains_union {a b c : Modifiers} (h : b ∩ c = none) : (a ∪ b).contains c = a.contains c := by
  have hb : b.bits &&& c.bits = 0 := congrArg bits h
  have h' : (a ∪ b) ∩ c = a ∩ c := by
    show Modifiers.mk ((a.bits ||| b.bits) &&& c.bits) = Modifiers.mk (a.bits &&& c.bits)
    rw [or_and_distrib, hb, UInt32.or_zero]
  simp only [contains, h']

theorem contains_union_self (a b : Modifiers) : (a ∪ b).contains b = true := by
  have h : (a ∪ b) ∩ b = b := by
    show Modifiers.mk ((a.bits ||| b.bits) &&& b.bits) = b
    have : (a.bits ||| b.bits) &&& b.bits = b.bits := by
      apply UInt32.eq_of_toBitVec_eq
      ext i hi
      cases hi' : b.bits.toBitVec[i] <;> simp [hi']
    rw [this]
  simp only [contains, h, beq_self_eq_true]

/-- To keep only some modifiers does not change whether those are there. -/
theorem contains_inter {a b c : Modifiers} (h : b ∩ c = c) : (a ∩ b).contains c = a.contains c := by
  have hb : b.bits &&& c.bits = c.bits := congrArg bits h
  have h' : (a ∩ b) ∩ c = a ∩ c := by
    show Modifiers.mk ((a.bits &&& b.bits) &&& c.bits) = Modifiers.mk (a.bits &&& c.bits)
    rw [UInt32.and_assoc, hb]
  simp only [contains, h']

/-- What is outermost becomes static, and stays what it is. -/
theorem contains_static (outermost : Bool) {a c : Modifiers} (h : static ∩ c = none) :
    (if outermost then a ∪ static else a).contains c = a.contains c := by
  cases outermost with
  | true => exact contains_union h
  | false => rfl

end Modifiers

end DeferredInit
