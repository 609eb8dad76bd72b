import DeferredInit.Machine.Eval
import DeferredInit.Proofs.Symbol.Ledger
import DeferredInit.Symbol.Intrinsics
import Mathlib.Data.List.Induction

/-!
# Finding the intrinsics

In a library whose entries all come from the constructors, the hash of a property is the one that its name and
receiver give it, and that of its getter follows from it.  So the property `isInitialized` is there at most
once for each receiver, its getter is found by the hash that the property states, and nothing but the number
of reporting functions can be ambiguous.  None of this needs the digest to tell names apart.
-/

namespace DeferredInit

/-- An entry that one of the constructors makes of a name, from hashes by `digest`. -/
def Library.Addition.Derived (digest : String → UInt64) : Library.Addition → Prop
  | .type t => ∃ name : QualifiedName, t = .ofName name digest
  | .function f => ∃ (name : QualifiedName) (params : List Ty) (returnType : Ty),
    f = .ofSignature name params returnType digest
  | .property p =>
    (∃ (name : QualifiedName) (receiver : SymbolHash) (ty : Ty), p = .extension name receiver ty digest) ∨
      ∃ (name : QualifiedName) (ty : Ty), p = .global name ty digest

namespace Ledger

/-- The properties `isInitialized` on bound references. -/
def queries (g : Ledger) (digest : String → UInt64) : List PropertyEntry :=
  g.properties.filter fun p =>
    p.name = .parse Standard.isInitialized ∧ p.receiver = some (SymbolHash.ofName Standard.propertyRef0 digest)

/-- The functions that report an access before initialization. -/
def reports (g : Ledger) : List FunctionEntry :=
  g.functions.filter (·.name = .parse Standard.throwUninitialized)

/-- **The properties of a ledger have the hashes that their names give them**, and those on a receiver their
getters. -/
structure Derived (digest : String → UInt64) (g : Ledger) : Prop where
  /-- The hash of a property is made from its name and receiver. -/
  hash_eq : ∀ p ∈ g.properties, p.hash = SymbolHash.ofProperty p.name.text p.receiver digest
  /-- A property on a receiver has a getter, whose hash is made from its own. -/
  getter_eq : ∀ p ∈ g.properties, p.receiver.isSome → p.getter = some p.hash.getterOf
  /-- The getter of a property is one of the functions. -/
  getter_mem : ∀ p ∈ g.properties, p.getter.isSome → FunctionEntry.getter p ∈ g.functions

namespace Derived

variable {digest : String → UInt64} {g : Ledger}

/-- Appending an entry that a constructor made. -/
theorem append (hg : g.Derived digest) {a : Library.Addition} (ha : a.Derived digest) :
    (g.append a).Derived digest := by
  cases a with
  | type t => exact ⟨hg.hash_eq, hg.getter_eq, hg.getter_mem⟩
  | function f =>
    refine ⟨hg.hash_eq, hg.getter_eq, ?_⟩
    intro p hp hgetter
    exact List.mem_append_left _ (hg.getter_mem p hp hgetter)
  | property p =>
    refine ⟨?_, ?_, ?_⟩
    · intro q hq
      rcases List.mem_append.mp hq with hq | hq
      · exact hg.hash_eq q hq
      · rw [List.mem_singleton.mp hq]
        obtain ⟨name, receiver, ty, rfl⟩ | ⟨name, ty, rfl⟩ := ha
        · rfl
        · rfl
    · intro q hq hreceiver
      rcases List.mem_append.mp hq with hq | hq
      · exact hg.getter_eq q hq hreceiver
      · rw [List.mem_singleton.mp hq] at hreceiver ⊢
        obtain ⟨name, receiver, ty, rfl⟩ | ⟨name, ty, rfl⟩ := ha
        · rfl
        · cases hreceiver
    · intro q hq hgetter
      rcases List.mem_append.mp hq with hq | hq
      · exact List.mem_append_left _ (hg.getter_mem q hq hgetter)
      · rw [List.mem_singleton.mp hq] at hgetter ⊢
        refine List.mem_append_right _ ?_
        rw [if_pos hgetter]
        exact List.mem_singleton.mpr rfl

/-- Trying to add an entry that a constructor made. -/
theorem attempt (hg : g.Derived digest) {a : Library.Addition} (ha : a.Derived digest) :
    (g.attempt a).Derived digest := by
  unfold Ledger.attempt
  cases g.refusal a with
  | none => exact hg.append ha
  | some _ => exact hg

/-- A history of entries that constructors made. -/
theorem ofHistory : ∀ {as : List Library.Addition}, (∀ a ∈ as, a.Derived digest) →
    (Ledger.ofHistory as).Derived digest := by
  intro as
  induction as using List.reverseRecOn with
  | nil => exact fun _ => ⟨by simp [Ledger.ofHistory], by simp [Ledger.ofHistory], by simp [Ledger.ofHistory]⟩
  | append_singleton as a ih =>
    intro h
    rw [ofHistory_concat]
    refine (ih fun b hb => h b ?_).attempt (h a ?_)
    · exact List.mem_append_left _ hb
    · exact List.mem_append_right _ (List.mem_singleton.mpr rfl)

/-- There is at most one property `isInitialized` on bound references. -/
theorem queries_length_le (hg : g.Derived digest) (hapart : (g.properties.map (·.hash)).Nodup) :
    (g.queries digest).length ≤ 1 := by
  have hnodup : (g.queries digest).Nodup :=
    (List.Nodup.of_map _ hapart).sublist List.filter_sublist
  have hunique : ∀ p ∈ g.queries digest, ∀ q ∈ g.queries digest, p = q := by
    intro p hp q hq
    obtain ⟨hpmem, hpname⟩ := List.mem_filter.mp hp
    obtain ⟨hqmem, hqname⟩ := List.mem_filter.mp hq
    obtain ⟨hpn, hpr⟩ := of_decide_eq_true hpname
    obtain ⟨hqn, hqr⟩ := of_decide_eq_true hqname
    refine List.inj_on_of_nodup_map hapart hpmem hqmem ?_
    rw [hg.hash_eq p hpmem, hg.hash_eq q hqmem, hpn, hqn, hpr, hqr]
  match hqueries : g.queries digest with
  | [] => exact Nat.zero_le 1
  | [_] => exact Nat.le_refl 1
  | p :: q :: rest =>
    rw [hqueries] at hnodup hunique
    have hpq : p = q := hunique p (by simp) q (by simp)
    exact absurd hpq (List.ne_of_not_mem_cons (List.nodup_cons.mp hnodup).1)

end Derived

end Ledger

/-! ## Resolving -/

namespace Library.Keeps

variable {digest : String → UInt64} {l : Library} {g : Ledger}

/-- The candidates for the getter are the properties that the ledger lists. -/
theorem candidates_eq (hk : l.Keeps g) :
    (l.propertiesNamed (.parse Standard.isInitialized)).filter
        (·.receiver == some (SymbolHash.ofName Standard.propertyRef0 digest)) = g.queries digest := by
  rw [hk.shows.propertiesNamed_eq, List.filter_filter, Ledger.queries]
  refine List.filter_congr ?_
  intro p _
  rw [Bool.eq_iff_iff]
  simp [and_comm]

/-- Without a property `isInitialized` on bound references, there is no getter. -/
theorem findGetter_of_nil (hk : l.Keeps g) (hqueries : g.queries digest = []) :
    Intrinsics.findGetter l digest = .error (.ambiguousSymbol Standard.isInitialized 0) := by
  simp only [Intrinsics.findGetter, hk.candidates_eq, hqueries, List.length_nil]

/-- The getter of the one property `isInitialized` on bound references is there, and is found. -/
theorem findGetter_of_single (hk : l.Keeps g) (hg : g.Derived digest) {p : PropertyEntry}
    (hqueries : g.queries digest = [p]) :
    Intrinsics.findGetter l digest = .ok p.hash.getterOf ∧
      l.function? p.hash.getterOf = some (.getter p) ∧
      p.name = .parse Standard.isInitialized ∧
      p.receiver = some (SymbolHash.ofName Standard.propertyRef0 digest) := by
  obtain ⟨hp, hspec⟩ := List.mem_filter.mp
    (show p ∈ g.queries digest from hqueries ▸ List.mem_singleton.mpr rfl)
  obtain ⟨hname, hreceiver⟩ := of_decide_eq_true hspec
  have hgetter : p.getter = some p.hash.getterOf := by
    refine hg.getter_eq p hp ?_
    rw [hreceiver]
    rfl
  have hmem : FunctionEntry.getter p ∈ g.functions := by
    refine hg.getter_mem p hp ?_
    rw [hgetter]
    rfl
  have hfunction : l.function? p.hash.getterOf = some (.getter p) :=
    (hk.shows.function?_iff _ _).mpr ⟨hmem, rfl⟩
  refine ⟨?_, hfunction, hname, hreceiver⟩
  simp only [Intrinsics.findGetter, hk.candidates_eq, hqueries, hgetter, hfunction, Option.isSome_some, if_true]

/-- The reporting functions are those that the ledger lists. -/
theorem reports_eq (hk : l.Keeps g) : l.functionsNamed (.parse Standard.throwUninitialized) = g.reports :=
  hk.shows.functionsNamed_eq _

/-- The one reporting function is found, and every machine knows it. -/
theorem findThrow_of_single (hk : l.Keeps g) {f : FunctionEntry} (hreports : g.reports = [f]) :
    Intrinsics.findThrow l = .ok f.hash ∧ l.function? f.hash = some f ∧
      f.name = .parse Standard.throwUninitialized ∧
      ∀ m : Machine, m.library = l → m.throwFunction? = some f.hash := by
  obtain ⟨hf, hname⟩ := List.mem_filter.mp
    (show f ∈ g.reports from hreports ▸ List.mem_singleton.mpr rfl)
  refine ⟨?_, (hk.shows.function?_iff _ _).mpr ⟨hf, rfl⟩, of_decide_eq_true hname, ?_⟩
  · simp only [Intrinsics.findThrow, hk.reports_eq, hreports]
  · rintro m rfl
    rw [Machine.throwFunction?, hk.reports_eq, hreports]
    rfl

/-- Without reporting function, or with several, none is found. -/
theorem findThrow_of_ne (hk : l.Keeps g) (hreports : g.reports.length ≠ 1) :
    Intrinsics.findThrow l = .error (.ambiguousSymbol Standard.throwUninitialized g.reports.length) := by
  unfold Intrinsics.findThrow
  rw [hk.reports_eq]
  match hlist : g.reports with
  | [] => rfl
  | [f] => exact absurd (by rw [hlist]; rfl) hreports
  | _ :: _ :: _ => rfl

end Library.Keeps

/-- The name of a getter is not the name of a reporting function. -/
theorem getter_name_ne {p : PropertyEntry} (hname : p.name = .parse Standard.isInitialized) :
    (FunctionEntry.getter p).name ≠ .parse Standard.throwUninitialized := by
  have hsibling : (FunctionEntry.getter p).name =
      (QualifiedName.parse Standard.isInitialized).sibling
        ("<get-" ++ (QualifiedName.parse Standard.isInitialized).simple ++ ">") := by
    rw [← hname]
    rfl
  rw [hsibling]
  decide +kernel

/-- **The intrinsics are what their names say.**  After any history of entries that the constructors made,
whatever the digest, there is at most one property `isInitialized` on bound references, and the intrinsics are
found exactly if it is there along with one reporting function.  They are then different, the getter is that
of the property, and the reporting function is the one that every machine over the library recognizes.
Otherwise the fault names the symbol that is missing or ambiguous, with the number of its candidates. -/
theorem resolve_ofHistory (digest : String → UInt64) (as : List Library.Addition)
    (hderived : ∀ a ∈ as, a.Derived digest) :
    ((Ledger.ofHistory as).queries digest).length ≤ 1 ∧
      ((∃ i, Intrinsics.resolve (Library.ofHistory as) digest = .ok i) ↔
        ((Ledger.ofHistory as).queries digest).length = 1 ∧ (Ledger.ofHistory as).reports.length = 1) ∧
      match Intrinsics.resolve (Library.ofHistory as) digest with
      | .ok i =>
        ∃ p f, (Ledger.ofHistory as).queries digest = [p] ∧ (Ledger.ofHistory as).reports = [f] ∧
          i.isInitializedGetter ≠ i.throwUninitialized ∧
          (Library.ofHistory as).function? i.isInitializedGetter = some (.getter p) ∧
          (FunctionEntry.getter p).receiver = some (SymbolHash.ofName Standard.propertyRef0 digest) ∧
          (FunctionEntry.getter p).property = some p.hash ∧
          (Library.ofHistory as).function? i.throwUninitialized = some f ∧
          ∀ m : Machine, m.library = Library.ofHistory as → m.throwFunction? = some i.throwUninitialized
      | .error fault =>
        ((Ledger.ofHistory as).queries digest = [] ∧
            fault = .ambiguousSymbol Standard.isInitialized 0) ∨
          (((Ledger.ofHistory as).queries digest).length = 1 ∧ (Ledger.ofHistory as).reports.length ≠ 1 ∧
            fault = .ambiguousSymbol Standard.throwUninitialized (Ledger.ofHistory as).reports.length) := by
  have hk := Library.Keeps.ofHistory as
  have hg := Ledger.Derived.ofHistory hderived
  have hle := hg.queries_length_le hk.properties.apart
  refine ⟨hle, ?_⟩
  match hqueries : (Ledger.ofHistory as).queries digest with
  | [] =>
    have hresolve : Intrinsics.resolve (Library.ofHistory as) digest =
        .error (.ambiguousSymbol Standard.isInitialized 0) := by
      rw [Intrinsics.resolve, hk.findGetter_of_nil hqueries]
      rfl
    rw [hresolve]
    refine ⟨iff_of_false (fun ⟨_, h⟩ => by cases h) (fun h => by cases h.1), ?_⟩
    exact .inl ⟨rfl, rfl⟩
  | [p] =>
    obtain ⟨hgetter, hreads, hname, hreceiver⟩ := hk.findGetter_of_single hg hqueries
    by_cases hone : (Ledger.ofHistory as).reports.length = 1
    · obtain ⟨f, hreports⟩ := List.length_eq_one_iff.mp hone
      obtain ⟨hthrow, hfunction, hreporter, hmachines⟩ := hk.findThrow_of_single hreports
      have hresolve : Intrinsics.resolve (Library.ofHistory as) digest =
          .ok ⟨p.hash.getterOf, f.hash⟩ := by
        rw [Intrinsics.resolve, hgetter, hthrow]
        rfl
      rw [hresolve]
      refine ⟨iff_of_true ⟨_, rfl⟩ ⟨rfl, hone⟩, ?_⟩
      refine ⟨p, f, rfl, hreports, ?_, hreads, hreceiver, rfl, hfunction, hmachines⟩
      -- One hash would make the getter and the reporting function one function, of two names.
      intro hsame
      have hsame : p.hash.getterOf = f.hash := hsame
      rw [hsame, hfunction] at hreads
      cases hreads
      exact getter_name_ne hname hreporter
    · have hresolve : Intrinsics.resolve (Library.ofHistory as) digest =
          .error (.ambiguousSymbol Standard.throwUninitialized (Ledger.ofHistory as).reports.length) := by
        rw [Intrinsics.resolve, hgetter, hk.findThrow_of_ne hone]
        rfl
      rw [hresolve]
      refine ⟨iff_of_false (fun ⟨_, h⟩ => by cases h) (fun h => hone h.2), ?_⟩
      exact .inr ⟨rfl, hone, rfl⟩
  | _ :: _ :: _ =>
    rw [hqueries, List.length_cons, List.length_cons] at hle
    omega

/-- The standard library is made by the constructors. -/
theorem standardAdditions_derived : ∀ a ∈ Library.standardAdditions, a.Derived Digest.ofString := by
  intro a ha
  rcases List.mem_append.mp ha with ha | ha
  · rcases List.mem_append.mp ha with ha | ha
    · obtain ⟨t, ht, rfl⟩ := List.mem_map.mp ha
      obtain ⟨name, _, rfl⟩ := List.mem_map.mp ht
      exact ⟨name, rfl⟩
    · obtain ⟨p, hp, rfl⟩ := List.mem_map.mp ha
      obtain ⟨receiver, _, rfl⟩ := List.mem_map.mp hp
      exact .inl ⟨_, _, _, rfl⟩
  · rw [List.mem_singleton.mp ha]
    exact ⟨_, _, _, rfl⟩

/-- The standard library has both intrinsics. -/
theorem resolve_standardAdditions :
    (∀ a ∈ Library.standardAdditions, a.Derived Digest.ofString) ∧
      ∃ i, Intrinsics.resolve (Library.ofHistory Library.standardAdditions) Digest.ofString = .ok i :=
  ⟨standardAdditions_derived,
    (resolve_ofHistory Digest.ofString Library.standardAdditions standardAdditions_derived).2.1.mpr
      (by decide +kernel)⟩

end DeferredInit
