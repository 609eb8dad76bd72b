/-!
# Finite tables

A table maps finitely many keys to one value each.  It lists its entries in the order in which the keys
first came in, so what is listed never depends on how keys compare or hash.

`get?` is the view through which everything else is read, and `get?_insert` says what an insertion does to it.
-/

namespace DeferredInit

/-- **A finite map** as the list of its entries. -/
structure Table (κ ν : Type) where
  /-- The entries, oldest key first. -/
  entries : List (κ × ν) := []
deriving Repr, DecidableEq

namespace Table

variable {κ ν : Type}

instance : EmptyCollection (Table κ ν) := ⟨⟨[]⟩⟩

instance : Inhabited (Table κ ν) := ⟨∅⟩

/-- How many keys have a value. -/
def size (t : Table κ ν) : Nat := t.entries.length

variable [DecidableEq κ]

/-- The value of a key in a list of entries. -/
def find? (k : κ) : List (κ × ν) → Option ν
  | [] => none
  | (k', v) :: rest => if k' = k then some v else find? k rest

/-- Entries in which `k` has the value `v`: an entry of `k` keeps its place, a new one comes last. -/
def put (k : κ) (v : ν) : List (κ × ν) → List (κ × ν)
  | [] => [(k, v)]
  | (k', v') :: rest => if k' = k then (k, v) :: rest else (k', v') :: put k v rest

/-- The value of a key, if it has one. -/
def get? (t : Table κ ν) (k : κ) : Option ν := find? k t.entries

/-- Whether a key has a value. -/
def contains (t : Table κ ν) (k : κ) : Bool := (t.get? k).isSome

/-- Gives the key `k` the value `v`, whatever it had before. -/
def insert (t : Table κ ν) (k : κ) (v : ν) : Table κ ν := ⟨put k v t.entries⟩

/-- The table of a list of pairs; of two pairs with one key the later counts. -/
def ofList (pairs : List (κ × ν)) : Table κ ν := pairs.foldl (fun t p => t.insert p.1 p.2) ∅

/-! ## What an insertion does -/

theorem find?_put (k q : κ) (v : ν) (es : List (κ × ν)) :
    find? q (put k v es) = if k = q then some v else find? q es := by
  induction es with
  | nil => rfl
  | cons e rest ih =>
    obtain ⟨k', v'⟩ := e
    by_cases hk : k' = k
    · subst hk
      by_cases hq : k' = q <;> simp [put, find?, hq]
    · by_cases hq : k' = q
      · subst hq
        simp [put, find?, hk, Ne.symm hk]
      · simp [put, find?, hk, hq, ih]

@[simp] theorem get?_empty (k : κ) : (∅ : Table κ ν).get? k = none := rfl

/-- The inserted key has the inserted value, every other key what it had. -/
theorem get?_insert (t : Table κ ν) (k q : κ) (v : ν) :
    (t.insert k v).get? q = if k = q then some v else t.get? q := find?_put k q v t.entries

@[simp] theorem get?_insert_self (t : Table κ ν) (k : κ) (v : ν) :
    (t.insert k v).get? k = some v := by simp [get?_insert]

theorem get?_insert_of_ne (t : Table κ ν) {k q : κ} (v : ν) (h : k ≠ q) :
    (t.insert k v).get? q = t.get? q := by simp [get?_insert, h]

/-- A new key makes the table larger by one. -/
theorem size_insert_of_get?_eq_none {t : Table κ ν} {k : κ} (v : ν) (h : t.get? k = none) :
    (t.insert k v).size = t.size + 1 := by
  obtain ⟨es⟩ := t
  simp only [get?, size, insert] at h ⊢
  induction es with
  | nil => rfl
  | cons e rest ih =>
    obtain ⟨k', v'⟩ := e
    by_cases hk : k' = k
    · simp [find?, hk] at h
    · simp only [find?, hk, if_false] at h
      simp [put, hk, ih h]

end Table

end DeferredInit
