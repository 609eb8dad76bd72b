import DeferredInit.Machine.Value

/-!
# Equality of values

The language's equality is symmetric and transitive, but a value need not be equal to itself.  A NaN is not, and
neither is a reference that is bound to one, directly or through other references.  These are all: whether a value
is equal to itself is decided at the end of its chain of receivers (`Value.innermost`).

Null is equal to itself and to nothing else, so it can stand for what is missing.
-/

namespace DeferredInit

namespace Double

variable {a b c : Double}

theorem numericEq_comm (a b : Double) : a.numericEq b = b.numericEq a := by
  unfold numericEq
  rw [Bool.and_comm (!a.isNaN), Bool.and_comm a.isZero, BEq.comm (a := a.bits)]

/-- A number is equal to itself, and only a number is. -/
theorem numericEq_self (a : Double) : a.numericEq a = !a.isNaN := by
  simp [numericEq]

/-- The zeros are the only numbers that are equal without being the same. -/
theorem numericEq_iff : a.numericEq b = true ↔
    a.isNaN = false ∧ b.isNaN = false ∧ (a = b ∨ a.isZero = true ∧ b.isZero = true) := by
  obtain ⟨x⟩ := a
  obtain ⟨y⟩ := b
  simp [numericEq, and_assoc]

theorem numericEq_trans (h : a.numericEq b = true) (h' : b.numericEq c = true) : a.numericEq c = true := by
  obtain ⟨ha, -, hab⟩ := numericEq_iff.1 h
  obtain ⟨-, hc, hbc⟩ := numericEq_iff.1 h'
  refine numericEq_iff.2 ⟨ha, hc, ?_⟩
  rcases hab with rfl | ⟨hza, hzb⟩
  · exact hbc
  · rcases hbc with rfl | ⟨-, hzc⟩
    · exact .inr ⟨hza, hzb⟩
    · exact .inr ⟨hza, hzc⟩

end Double

namespace Value

/-- **The end of a chain of receivers**: the receiver's own for a bound reference, and otherwise the value itself. -/
def innermost : Value → Value
  | boundRef _ receiver => receiver.innermost
  | v => v

/-- **Values that are equal**, kind by kind. -/
inductive Equal : Value → Value → Prop
  | unit : Equal unit unit
  | null : Equal null null
  | bool (b : Bool) : Equal (bool b) (bool b)
  | int (n : Int64) : Equal (int n) (int n)
  | double {d d' : Double} : d.numericEq d' = true → Equal (double d) (double d')
  | str (s : String) : Equal (str s) (str s)
  | object {o o' : ObjectRef} : o.serial = o'.serial → Equal (object o) (object o')
  | propertyRef (property : DeclId) : Equal (propertyRef property) (propertyRef property)
  | boundRef (property : DeclId) {a b : Value} : Equal a b → Equal (boundRef property a) (boundRef property b)

variable {a b c v : Value}

theorem Equal.symm (h : Equal a b) : Equal b a := by
  induction h with
  | double hd => exact .double (by rwa [Double.numericEq_comm])
  | object ho => exact .object ho.symm
  | boundRef property _ ih => exact .boundRef property ih
  | unit => exact .unit
  | null => exact .null
  | bool b => exact .bool b
  | int n => exact .int n
  | str s => exact .str s
  | propertyRef property => exact .propertyRef property

theorem Equal.trans (h : Equal a b) (h' : Equal b c) : Equal a c := by
  induction h generalizing c with
  | double hd =>
    cases h' with
    | double hd' => exact .double (Double.numericEq_trans hd hd')
  | object ho =>
    cases h' with
    | object ho' => exact .object (ho.trans ho')
  | boundRef property _ ih =>
    cases h' with
    | boundRef _ h' => exact .boundRef property (ih h')
  | unit | null | bool b | int n | str s | propertyRef property => exact h'

theorem equals_eq_true_iff : a.equals b = true ↔ Equal a b := by
  constructor
  · intro h
    fun_induction equals a b with
    | case1 => exact .unit
    | case2 => exact .null
    | case3 x y =>
      obtain rfl := beq_iff_eq.1 h
      exact .bool x
    | case4 x y =>
      obtain rfl := beq_iff_eq.1 h
      exact .int x
    | case5 x y => exact .double h
    | case6 x y =>
      obtain rfl := beq_iff_eq.1 h
      exact .str x
    | case7 o o' => exact .object (beq_iff_eq.1 h)
    | case8 x y =>
      obtain rfl := beq_iff_eq.1 h
      exact .propertyRef x
    | case9 x a y b ih =>
      obtain ⟨hxy, hab⟩ := Bool.and_eq_true_iff.1 h
      obtain rfl := beq_iff_eq.1 hxy
      exact .boundRef x (ih hab)
    | case10 => cases h
  · intro h
    induction h with
    | double hd => exact hd
    | object ho => exact beq_iff_eq.2 ho
    | boundRef property _ ih => rw [equals, ih, beq_self_eq_true, Bool.and_self]
    | unit | null => rfl
    | bool _ | int _ | str _ | propertyRef _ => exact beq_self_eq_true _

theorem equals_comm (a b : Value) : a.equals b = b.equals a := by
  rw [Bool.eq_iff_iff, equals_eq_true_iff, equals_eq_true_iff]
  exact ⟨Equal.symm, Equal.symm⟩

theorem equals_trans (h : a.equals b = true) (h' : b.equals c = true) : a.equals c = true :=
  equals_eq_true_iff.2 ((equals_eq_true_iff.1 h).trans (equals_eq_true_iff.1 h'))

/-- Whether a value is equal to itself is decided at the end of its chain of receivers. -/
theorem equals_self (v : Value) : v.equals v = v.innermost.equals v.innermost := by
  induction v with
  | boundRef property receiver ih => rw [equals, innermost, beq_self_eq_true, Bool.true_and, ih]
  | _ => rfl

/-- A chain of receivers ends with a value that is not bound to any. -/
theorem innermost_ne_boundRef (v : Value) (property : DeclId) (receiver : Value) :
    v.innermost ≠ boundRef property receiver := by
  induction v with
  | boundRef _ _ ih => exact ih
  | _ => nofun

/-- **A value differs from itself** exactly if its chain of receivers ends in a NaN. -/
theorem equals_self_eq_false_iff : v.equals v = false ↔ ∃ d : Double, v.innermost = double d ∧ d.isNaN = true := by
  rw [equals_self]
  constructor
  · intro h
    cases hv : v.innermost with
    | double d =>
      rw [hv, equals, Double.numericEq_self, Bool.not_eq_false'] at h
      exact ⟨d, rfl, h⟩
    | boundRef property receiver => exact absurd hv (v.innermost_ne_boundRef property receiver)
    | _ => simp [hv, equals] at h
  · rintro ⟨d, hv, hd⟩
    rw [hv, equals, Double.numericEq_self, hd]
    rfl

/-- Nothing but null equals null. -/
theorem equals_null_iff : v.equals null = true ↔ v = null := by
  constructor
  · intro h
    cases equals_eq_true_iff.1 h
    rfl
  · rintro rfl
    rfl

end Value

end DeferredInit
