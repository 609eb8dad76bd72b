import DeferredInit.Symbol.Standard
import Mathlib.Data.List.Nodup

/-!
# The ledger of a library

A library keeps its entries in six tables.  What it shows of them is what three lists would show to which
accepted entries are only ever appended: the ledger.  An addition is accepted on conditions that the ledger
alone decides, and is refused with the fault of the first condition that fails.

`Groups` relates the two tables of one kind of entry to the list of that kind; functions and properties are
the two cases of it.
-/

namespace DeferredInit

/-- **What a library has accepted**, every kind of entry oldest first.  The getter of a property is among the
functions. -/
structure Ledger where
  /-- The types. -/
  types : List TypeEntry := []
  /-- The functions, those that read properties included. -/
  functions : List FunctionEntry := []
  /-- The properties. -/
  properties : List PropertyEntry := []
deriving DecidableEq, Repr

/-! ## What the ledger decides -/

namespace Ledger

variable (g : Ledger)

/-- What a receiver has to meet, if there is one, with the fault of an entry whose receiver does not. -/
def receiverConditions : Option SymbolHash → List (Bool × LibraryFault)
  | none => []
  | some hash => [(decide (∃ t ∈ g.types, t.hash = hash), .typeNotFound hash.text)]

/-- **What an addition has to meet**, in the order in which it is checked, each with the fault of an addition
that does not. -/
def conditions : Library.Addition → List (Bool × LibraryFault)
  | .type t => [(decide (∀ u ∈ g.types, u.name ≠ t.name), .duplicateType t.name.text)]
  | .function f =>
    (decide (∀ e ∈ g.functions, e.hash ≠ f.hash), .duplicateFunction f.name.text) ::
      g.receiverConditions f.receiver
  | .property p =>
    (decide (∀ e ∈ g.properties, e.hash ≠ p.hash), .duplicateProperty p.name.text) ::
      (g.receiverConditions p.receiver ++
        if p.getter.isSome then
          [(decide (∀ e ∈ g.functions, e.hash ≠ p.hash.getterOf),
            .duplicateFunction (FunctionEntry.getter p).name.text)]
        else [])

/-- The fault of the first of some conditions that fails. -/
def firstFault (conditions : List (Bool × LibraryFault)) : Option LibraryFault :=
  (conditions.find? (!·.1)).map (·.2)

@[simp] theorem firstFault_nil : firstFault [] = none := rfl

@[simp] theorem firstFault_cons (ok : Bool) (fault : LibraryFault) (rest : List (Bool × LibraryFault)) :
    firstFault ((ok, fault) :: rest) = if ok then firstFault rest else some fault := by
  cases ok <;> rfl

/-- Conditions are checked one list after the other. -/
theorem firstFault_append (first second : List (Bool × LibraryFault)) :
    firstFault (first ++ second) = (firstFault first).or (firstFault second) := by
  simp [firstFault, List.find?_append, Option.map_or]

/-- Why an addition is refused. -/
def refusal (a : Library.Addition) : Option LibraryFault := firstFault (g.conditions a)

/-- The ledger with an addition at the end. -/
def append : Library.Addition → Ledger
  | .type t => { g with types := g.types ++ [t] }
  | .function f => { g with functions := g.functions ++ [f] }
  | .property p =>
    { g with
      functions := g.functions ++ (if p.getter.isSome then [FunctionEntry.getter p] else [])
      properties := g.properties ++ [p] }

/-- The ledger after an addition is tried. -/
def attempt (a : Library.Addition) : Ledger :=
  match g.refusal a with
  | none => g.append a
  | some _ => g

/-- The ledger of a history of additions, accepted and refused. -/
def ofHistory (as : List Library.Addition) : Ledger := as.foldl attempt {}

/-- One more attempt at the end of a history. -/
theorem ofHistory_concat (as : List Library.Addition) (a : Library.Addition) :
    ofHistory (as ++ [a]) = (ofHistory as).attempt a := by
  rw [ofHistory, List.foldl_append, List.foldl_cons, List.foldl_nil, ofHistory]

/-- An addition is refused unless it meets every condition. -/
theorem refusal_eq_none_iff (a : Library.Addition) :
    g.refusal a = none ↔ ∀ c ∈ g.conditions a, c.1 = true := by
  simp [refusal, firstFault, List.find?_eq_none]

end Ledger

namespace Library

/-- The library after an addition is tried: one that is refused leaves it as it was. -/
def attempt (l : Library) (a : Addition) : Library :=
  match l.add a with
  | .ok l' => l'
  | .error _ => l

/-- The library of a history of additions, accepted and refused. -/
def ofHistory (as : List Addition) : Library := as.foldl attempt ∅

/-- **A library shows a ledger**: every lookup and every count reads off its lists. -/
structure Shows (l : Library) (g : Ledger) : Prop where
  /-- A name finds the one type of that name. -/
  type?_iff : ∀ n t, l.type? n = some t ↔ t ∈ g.types ∧ t.name = n
  /-- A hash finds the last type of that hash. -/
  typeOfHash?_eq : ∀ h, l.typeOfHash? h = (g.types.filter (·.hash = h)).getLast?
  /-- A name finds the functions of that name, oldest first. -/
  functionsNamed_eq : ∀ n, l.functionsNamed n = g.functions.filter (·.name = n)
  /-- A hash finds the one function of that hash. -/
  function?_iff : ∀ h f, l.function? h = some f ↔ f ∈ g.functions ∧ f.hash = h
  /-- A hash finds the simple name of the one function of that hash. -/
  functionName?_iff : ∀ h s, l.functionName? h = some s ↔ ∃ f ∈ g.functions, f.hash = h ∧ f.name.simple = s
  /-- A name finds the properties of that name, oldest first. -/
  propertiesNamed_eq : ∀ n, l.propertiesNamed n = g.properties.filter (·.name = n)
  /-- A hash finds the one property of that hash. -/
  property?_iff : ∀ h p, l.property? h = some p ↔ p ∈ g.properties ∧ p.hash = h
  /-- All types are counted. -/
  typeCount_eq : l.typeCount = g.types.length
  /-- All functions are counted, those that read properties included. -/
  functionCount_eq : l.functionCount = g.functions.length

end Library

/-! ## Lists without a repeated key -/

section Keys

variable {α κ : Type} {key : α → κ} {entries : List α} {a : α}

/-- An entry of a new key repeats no key. -/
theorem nodup_append_of_new (hkeys : (entries.map key).Nodup) (hnew : ∀ e ∈ entries, key e ≠ key a) :
    ((entries ++ [a]).map key).Nodup := by
  rw [List.map_append, List.nodup_append]
  refine ⟨hkeys, List.nodup_cons.mpr ⟨List.not_mem_nil, .nil⟩, ?_⟩
  intro k hk b hb
  obtain ⟨e, he, rfl⟩ := List.mem_map.mp hk
  rw [List.mem_singleton.mp hb]
  exact hnew e he

variable [DecidableEq κ]

/-- An entry is what its key finds. -/
theorem find?_of_mem (hkeys : (entries.map key).Nodup) (ha : a ∈ entries) :
    entries.find? (key · = key a) = some a := by
  obtain ⟨b, hb⟩ := Option.isSome_iff_exists.mp
    (List.find?_isSome (p := (key · = key a)).mpr ⟨a, ha, decide_eq_true rfl⟩)
  have hkey : key b = key a := of_decide_eq_true (List.find?_some (p := (key · = key a)) hb)
  rw [hb, List.inj_on_of_nodup_map hkeys (List.mem_of_find?_eq_some hb) ha hkey]

/-- What a key finds is the entry that has it. -/
theorem find?_eq_some_iff_mem (hkeys : (entries.map key).Nodup) (k : κ) :
    entries.find? (key · = k) = some a ↔ a ∈ entries ∧ key a = k := by
  constructor
  · intro hfind
    exact ⟨List.mem_of_find?_eq_some hfind, of_decide_eq_true (List.find?_some (p := (key · = k)) hfind)⟩
  · rintro ⟨ha, rfl⟩
    exact find?_of_mem hkeys ha

/-- A key that no entry has finds nothing. -/
theorem find?_of_new (hnew : ∀ e ∈ entries, key e ≠ key a) : entries.find? (key · = key a) = none := by
  rw [List.find?_eq_none]
  intro e he
  simpa using hnew e he

end Keys

/-! ## Entries that share names -/

/-- The two tables of entries that may share a name, but no hash: the entries of each name, oldest first, and
the name of each hash. -/
structure Groups {α : Type} (name : α → QualifiedName) (hash : α → SymbolHash)
    (byName : Table QualifiedName (List α)) (names : Table SymbolHash QualifiedName)
    (entries : List α) : Prop where
  /-- The entries of a name. -/
  named : ∀ n, (byName.get? n).getD [] = entries.filter (name · = n)
  /-- The name of the entry with a hash. -/
  nameOf : ∀ h, names.get? h = (entries.find? (hash · = h)).map name
  /-- No two entries have one hash. -/
  apart : (entries.map hash).Nodup
  /-- There are as many hashes as entries. -/
  size : names.size = entries.length

namespace Groups

variable {α : Type} {name : α → QualifiedName} {hash : α → SymbolHash}
  {byName : Table QualifiedName (List α)} {names : Table SymbolHash QualifiedName} {entries : List α}

/-- Without entries the tables are empty. -/
theorem nil : Groups name hash ∅ ∅ [] := ⟨fun _ => rfl, fun _ => rfl, .nil, rfl⟩

/-- A hash is taken if an entry has it. -/
theorem contains_eq (hg : Groups name hash byName names entries) (h : SymbolHash) :
    names.contains h = !decide (∀ e ∈ entries, hash e ≠ h) := by
  rw [Bool.eq_iff_iff, Table.contains, hg.nameOf]
  simp [List.find?_isSome]

/-- A new entry goes to the end of its group. -/
theorem insert (hg : Groups name hash byName names entries) {a : α} (hnew : ∀ e ∈ entries, hash e ≠ hash a) :
    Groups name hash (byName.insert (name a) ((byName.get? (name a)).getD [] ++ [a]))
      (names.insert (hash a) (name a)) (entries ++ [a]) where
  named n := by
    by_cases hn : name a = n
    · subst hn
      simp [hg.named]
    · simp [Table.get?_insert, hg.named, hn]
  nameOf h := by
    by_cases hh : hash a = h
    · subst hh
      simp [find?_of_new hnew]
    · simp [Table.get?_insert, hg.nameOf, hh, List.find?_append]
  apart := nodup_append_of_new hg.apart hnew
  size := by
    have hnone : names.get? (hash a) = none := by
      rw [hg.nameOf, find?_of_new hnew, Option.map_none]
    rw [Table.size_insert_of_get?_eq_none _ hnone, hg.size, List.length_append, List.length_singleton]

/-- An entry is found by its hash: by way of its name, among those that share the name. -/
theorem find_iff (hg : Groups name hash byName names entries) (h : SymbolHash) (a : α) :
    ((names.get? h).bind fun n => ((byName.get? n).getD []).find? (hash · == h)) = some a ↔
      a ∈ entries ∧ hash a = h := by
  simp only [hg.nameOf, hg.named, Option.bind_eq_some_iff]
  constructor
  · rintro ⟨_, _, hfind⟩
    have hmem := List.mem_of_find?_eq_some hfind
    exact ⟨List.mem_of_mem_filter hmem, by simpa using List.find?_some hfind⟩
  · rintro ⟨ha, rfl⟩
    -- The entries of one name have different hashes because all entries have.
    have hgroup : ((entries.filter (name · = name a)).map hash).Nodup :=
      hg.apart.sublist (List.filter_sublist.map hash)
    refine ⟨name a, ?_, ?_⟩
    · rw [find?_of_mem hg.apart ha, Option.map_some]
    · exact find?_of_mem hgroup (List.mem_filter.mpr ⟨ha, decide_eq_true rfl⟩)

end Groups

/-! ## The tables of types -/

/-- The two tables of types, which share no name but may share a hash: the type of each name, and the name of
the last type of each hash. -/
structure Types (byName : Table QualifiedName TypeEntry) (names : Table SymbolHash QualifiedName)
    (types : List TypeEntry) : Prop where
  /-- The type of a name. -/
  named : ∀ n, byName.get? n = types.find? (·.name = n)
  /-- The name of the last type with a hash. -/
  nameOf : ∀ h, names.get? h = (types.filter (·.hash = h)).getLast?.map (·.name)
  /-- No two types have one name. -/
  apart : (types.map (·.name)).Nodup
  /-- There are as many names as types. -/
  size : byName.size = types.length

namespace Types

variable {byName : Table QualifiedName TypeEntry} {names : Table SymbolHash QualifiedName}
  {types : List TypeEntry}

/-- Without types the tables are empty. -/
theorem nil : Types ∅ ∅ [] := ⟨fun _ => rfl, fun _ => rfl, .nil, rfl⟩

/-- A name is taken if a type has it. -/
theorem contains_name (ht : Types byName names types) (n : QualifiedName) :
    byName.contains n = !decide (∀ t ∈ types, t.name ≠ n) := by
  rw [Bool.eq_iff_iff, Table.contains, ht.named]
  simp [List.find?_isSome]

/-- A hash is known if a type has it. -/
theorem contains_hash (ht : Types byName names types) (h : SymbolHash) :
    names.contains h = decide (∃ t ∈ types, t.hash = h) := by
  rw [Bool.eq_iff_iff, Table.contains, ht.nameOf]
  simp

/-- A type is found by its name. -/
theorem find_iff (ht : Types byName names types) (n : QualifiedName) (t : TypeEntry) :
    byName.get? n = some t ↔ t ∈ types ∧ t.name = n := by
  rw [ht.named]
  exact find?_eq_some_iff_mem ht.apart n

/-- The last type of a hash is found by the hash. -/
theorem bind_eq (ht : Types byName names types) (h : SymbolHash) :
    (names.get? h).bind byName.get? = (types.filter (·.hash = h)).getLast? := by
  rw [ht.nameOf]
  cases hlast : (types.filter (·.hash = h)).getLast? with
  | none => rfl
  | some t =>
    have hmem := List.mem_of_mem_filter (List.mem_of_getLast? hlast)
    exact (ht.find_iff t.name t).mpr ⟨hmem, rfl⟩

/-- A type of a new name goes to the end, and is the last of its hash. -/
theorem insert (ht : Types byName names types) {t : TypeEntry} (hnew : ∀ u ∈ types, u.name ≠ t.name) :
    Types (byName.insert t.name t) (names.insert t.hash t.name) (types ++ [t]) where
  named n := by
    by_cases hn : t.name = n
    · subst hn
      simp [find?_of_new hnew]
    · simp [Table.get?_insert, ht.named, hn, List.find?_append]
  nameOf h := by
    by_cases hh : t.hash = h
    · subst hh
      simp
    · simp [Table.get?_insert, ht.nameOf, hh]
  apart := nodup_append_of_new ht.apart hnew
  size := by
    have hnone : byName.get? t.name = none := by
      rw [ht.named, find?_of_new hnew]
    rw [Table.size_insert_of_get?_eq_none _ hnone, ht.size, List.length_append, List.length_singleton]

end Types

/-! ## The six tables -/

namespace Library

/-- **The tables of a library keep a ledger.** -/
structure Keeps (l : Library) (g : Ledger) : Prop where
  /-- The tables of types. -/
  types : Types l.types l.typeNames g.types
  /-- The tables of functions. -/
  functions : Groups FunctionEntry.name FunctionEntry.hash l.functions l.functionNames g.functions
  /-- The tables of properties. -/
  properties : Groups PropertyEntry.name PropertyEntry.hash l.properties l.propertyNames g.properties

/-- An addition ends as the ledger has it: refused with its fault, or with a library that keeps `g`. -/
def Settles (answer : Except LibraryFault Library) (refusal : Option LibraryFault) (g : Ledger) : Prop :=
  match refusal with
  | none => ∃ l, answer = .ok l ∧ l.Keeps g
  | some fault => answer = .error fault

namespace Keeps

variable {l : Library} {g : Ledger}

/-- The empty library keeps the empty ledger. -/
theorem empty : Keeps ∅ {} := ⟨.nil, .nil, .nil⟩

/-- What the tables keep is what the lookups show. -/
theorem shows (hk : l.Keeps g) : l.Shows g where
  type?_iff := hk.types.find_iff
  typeOfHash?_eq := hk.types.bind_eq
  functionsNamed_eq := hk.functions.named
  function?_iff := hk.functions.find_iff
  functionName?_iff h s := by
    have hfind : ∀ f, l.function? h = some f ↔ f ∈ g.functions ∧ f.hash = h := hk.functions.find_iff h
    simp only [functionName?, Option.map_eq_some_iff, hfind, and_assoc]
  propertiesNamed_eq := hk.properties.named
  property?_iff := hk.properties.find_iff
  typeCount_eq := hk.types.size
  functionCount_eq := hk.functions.size

/-- A receiver is checked as the ledger says. -/
theorem checkReceiver_eq (hk : l.Keeps g) (receiver : Option SymbolHash) :
    l.checkReceiver receiver =
      match Ledger.firstFault (g.receiverConditions receiver) with
      | none => .ok ()
      | some fault => .error fault := by
  cases receiver with
  | none => rfl
  | some hash =>
    simp only [checkReceiver, hk.types.contains_hash, Ledger.receiverConditions, Ledger.firstFault_cons,
      Ledger.firstFault_nil]
    by_cases hknown : ∃ t ∈ g.types, t.hash = hash
    · simp only [hknown, decide_true, if_true]
    · simp only [hknown, decide_false, Bool.false_eq_true, if_false]

/-- A type is added on the ledger's condition. -/
theorem addType (hk : l.Keeps g) (t : TypeEntry) :
    Settles (l.addType t) (g.refusal (.type t)) (g.append (.type t)) := by
  simp only [Library.addType, hk.types.contains_name, Ledger.refusal, Ledger.conditions,
    Ledger.firstFault_cons, Ledger.firstFault_nil]
  by_cases hnew : ∀ u ∈ g.types, u.name ≠ t.name
  · rw [decide_eq_true hnew]
    exact ⟨_, rfl, hk.types.insert hnew, hk.functions, hk.properties⟩
  · rw [decide_eq_false hnew]
    rfl

/-- A function is added on the ledger's conditions. -/
theorem addFunction (hk : l.Keeps g) (f : FunctionEntry) :
    Settles (l.addFunction f) (g.refusal (.function f)) (g.append (.function f)) := by
  simp only [Library.addFunction, hk.functions.contains_eq, hk.checkReceiver_eq, Ledger.refusal,
    Ledger.conditions, Ledger.firstFault_cons]
  by_cases hnew : ∀ e ∈ g.functions, e.hash ≠ f.hash
  · rw [decide_eq_true hnew]
    cases Ledger.firstFault (g.receiverConditions f.receiver) with
    | none => exact ⟨_, rfl, hk.types, hk.functions.insert hnew, hk.properties⟩
    | some fault => rfl
  · rw [decide_eq_false hnew]
    rfl

/-- A property is added on the ledger's conditions, its getter included. -/
theorem addProperty (hk : l.Keeps g) (p : PropertyEntry) :
    Settles (l.addProperty p) (g.refusal (.property p)) (g.append (.property p)) := by
  simp only [Library.addProperty, hk.properties.contains_eq, hk.checkReceiver_eq, Ledger.refusal,
    Ledger.conditions, Ledger.firstFault_cons, Ledger.firstFault_append]
  by_cases hnew : ∀ e ∈ g.properties, e.hash ≠ p.hash
  · rw [decide_eq_true hnew]
    cases hreceiver : Ledger.firstFault (g.receiverConditions p.receiver) with
    | some fault => rfl
    | none =>
      by_cases hgetter : p.getter.isSome
      · -- The receiver of the getter is that of the property, which has just been checked.
        have hreads : g.refusal (.function (.getter p)) =
            Ledger.firstFault [(decide (∀ e ∈ g.functions, e.hash ≠ p.hash.getterOf),
              .duplicateFunction (FunctionEntry.getter p).name.text)] := by
          rw [Ledger.refusal, Ledger.conditions, Ledger.firstFault_cons, Ledger.firstFault_cons,
            show (FunctionEntry.getter p).receiver = p.receiver from rfl, hreceiver,
            Ledger.firstFault_nil]
          rfl
        have hadd := hk.addFunction (.getter p)
        rw [hreads] at hadd
        simp only [hgetter, if_true, Option.none_or, Ledger.append]
        cases hfree : Ledger.firstFault [(decide (∀ e ∈ g.functions, e.hash ≠ p.hash.getterOf),
            LibraryFault.duplicateFunction (FunctionEntry.getter p).name.text)] with
        | none =>
          rw [hfree] at hadd
          obtain ⟨l', hl', hk'⟩ := hadd
          rw [hl']
          exact ⟨_, rfl, hk'.types, hk'.functions, hk'.properties.insert hnew⟩
        | some fault =>
          rw [hfree] at hadd
          rw [show l.addFunction (.getter p) = .error fault from hadd]
          rfl
      · simp only [hgetter, Bool.false_eq_true, if_false, Option.none_or, Ledger.firstFault_nil,
          Ledger.append, List.append_nil]
        exact ⟨_, rfl, hk.types, hk.functions, hk.properties.insert hnew⟩
  · rw [decide_eq_false hnew]
    rfl

/-- **Every addition is settled as the ledger says.** -/
theorem add (hk : l.Keeps g) (a : Addition) : Settles (l.add a) (g.refusal a) (g.append a) := by
  cases a with
  | type t => exact hk.addType t
  | function f => exact hk.addFunction f
  | property p => exact hk.addProperty p

/-- An attempt on the library is one on the ledger. -/
theorem attempt (hk : l.Keeps g) (a : Addition) : (l.attempt a).Keeps (g.attempt a) := by
  have hadd := hk.add a
  unfold Library.attempt Ledger.attempt
  cases hrefusal : g.refusal a with
  | none =>
    rw [hrefusal] at hadd
    obtain ⟨l', hl', hk'⟩ := hadd
    rw [hl']
    exact hk'
  | some fault =>
    rw [hrefusal] at hadd
    rw [show l.add a = .error fault from hadd]
    exact hk

/-- A history of additions to the library is one of the ledger. -/
theorem foldl (as : List Addition) : ∀ {l : Library} {g : Ledger}, l.Keeps g →
    (as.foldl Library.attempt l).Keeps (as.foldl Ledger.attempt g) := by
  induction as with
  | nil => exact fun hk => hk
  | cons a as ih => exact fun hk => ih (hk.attempt a)

/-- The library of a history keeps the ledger of the history. -/
theorem ofHistory (as : List Addition) : (Library.ofHistory as).Keeps (Ledger.ofHistory as) :=
  foldl as empty

end Keeps

/-- One more attempt at the end of a history. -/
theorem ofHistory_concat (as : List Addition) (a : Addition) :
    ofHistory (as ++ [a]) = (ofHistory as).attempt a := by
  rw [ofHistory, List.foldl_append, List.foldl_cons, List.foldl_nil, ofHistory]

/-- **A library is its ledger.**  After any history of additions, accepted or refused, whatever their names,
hashes, receivers and getters, the library shows the ledger of the history.  The next addition is accepted
exactly if it meets every condition of the ledger, and is then at the end of its list.  Otherwise the fault is
that of the first condition that it fails, and nothing has changed. -/
theorem ofHistory_refines (as : List Addition) (a : Addition) :
    (ofHistory as).Shows (Ledger.ofHistory as) ∧
      ((∃ l, (ofHistory as).add a = .ok l) ↔ ∀ c ∈ (Ledger.ofHistory as).conditions a, c.1 = true) ∧
      match (Ledger.ofHistory as).refusal a with
      | none =>
        (ofHistory as).add a = .ok (ofHistory (as ++ [a])) ∧
          Ledger.ofHistory (as ++ [a]) = (Ledger.ofHistory as).append a
      | some fault =>
        (ofHistory as).add a = .error fault ∧ ofHistory (as ++ [a]) = ofHistory as ∧
          Ledger.ofHistory (as ++ [a]) = Ledger.ofHistory as := by
  have hk := Keeps.ofHistory as
  have hadd := hk.add a
  rw [← Ledger.refusal_eq_none_iff, ofHistory_concat, Ledger.ofHistory_concat, Library.attempt, Ledger.attempt]
  refine ⟨hk.shows, ?_⟩
  cases hrefusal : (Ledger.ofHistory as).refusal a with
  | none =>
    rw [hrefusal] at hadd
    obtain ⟨l', hl', _⟩ := hadd
    rw [hl']
    exact ⟨iff_of_true ⟨l', rfl⟩ rfl, rfl, rfl⟩
  | some fault =>
    rw [hrefusal] at hadd
    rw [show (ofHistory as).add a = .error fault from hadd]
    exact ⟨iff_of_false (fun ⟨_, h⟩ => by cases h) (fun h => by cases h), rfl, rfl, rfl⟩

end Library

end DeferredInit
