import DeferredInit.Proofs.Symbol.Ledger

/-!
# Signatures that differ in one part

A hash is made from the digest of a name, and the digest may do with names what it likes.  What follows it loses
nothing: the multiplier is odd, so multiplication by it can be undone, and each further step adds, or combines bit by
bit, one part of the signature to what has been made of the others.  So whatever the digest, two signatures that differ
in one part have different hashes: two functions that differ in the type of one parameter, two properties of one name
on different receivers, and the getters of the two.

A library refuses an entry as a duplicate if its hash is taken.  Entries that differ in one part only never take each
other's (`signatures_apart`).
-/

namespace DeferredInit

/-! ## Words -/

namespace SymbolHash

/-- What undoes the multiplication by `mix`. -/
def unmix : UInt64 := 0xd3f20f0a40208825

theorem mix_mul_unmix : mix * unmix = 1 := by decide

/-- To multiply by `mix` loses nothing. -/
theorem mul_mix_injective : Function.Injective (· * mix) := by
  intro a b h
  have hundone : a * mix * unmix = b * mix * unmix := congrArg (· * unmix) h
  rwa [UInt64.mul_assoc, UInt64.mul_assoc, mix_mul_unmix, UInt64.mul_one, UInt64.mul_one] at hundone

theorem toBitVec_rotateLeft (x : UInt64) : (Digest.rotateLeft x 17).toBitVec = x.toBitVec.rotateLeft 17 := by
  simp only [Digest.rotateLeft, UInt64.toBitVec_or, UInt64.toBitVec_shiftLeft, UInt64.toBitVec_shiftRight,
    BitVec.rotateLeft_def]
  rfl

/-- To turn a word by 17 places loses nothing. -/
theorem rotateLeft_injective : Function.Injective (Digest.rotateLeft · 17) := by
  intro x y h
  have hturned : x.toBitVec.rotateLeft 17 = y.toBitVec.rotateLeft 17 := by
    rw [← toBitVec_rotateLeft, ← toBitVec_rotateLeft]
    exact congrArg UInt64.toBitVec h
  refine UInt64.toBitVec_inj.1 (BitVec.eq_of_getLsbD_eq fun i hi => ?_)
  -- the bit is found 17 places up, or at the bottom if that is beyond the top
  have hbit := congrArg (·.getLsbD ((i + 17) % 64)) hturned
  simp only [BitVec.getLsbD_rotateLeft] at hbit
  by_cases hup : i < 47
  · have hplace : (i + 17) % 64 = i + 17 := by omega
    have htop : ¬i + 17 < 17 := by omega
    simpa [hplace, htop, show i + 17 < 64 by omega] using hbit
  · have hplace : (i + 17) % 64 = i - 47 := by omega
    have hback : 47 + (i - 47) = i := by omega
    simpa [hplace, hback, show i - 47 < 17 by omega] using hbit

/-! ## Parameters -/

/-- Parameters are taken in one after the other. -/
theorem mixParams_append (acc : UInt64) (i : Nat) (before after : List SymbolHash) :
    mixParams acc i (before ++ after) = mixParams (mixParams acc i before) (i + before.length) after := by
  induction before generalizing acc i with
  | nil => rfl
  | cons p before ih =>
    rw [List.cons_append, mixParams, mixParams, ih, List.length_cons, Nat.add_assoc, Nat.add_comm 1]

/-- To take in parameters loses nothing of what was there before. -/
theorem mixParams_injective (i : Nat) (params : List SymbolHash) : Function.Injective (mixParams · i params) := by
  induction params generalizing i with
  | nil => exact Function.injective_id
  | cons p rest ih =>
    intro a b h
    have hround := ih (i + 1) h
    exact mul_mix_injective ((UInt64.add_left_inj _).1 hround)

/-- One parameter among others can be told from any other in its place. -/
theorem mixParams_inj (acc : UInt64) (i : Nat) (before after : List SymbolHash) (p q : SymbolHash) :
    mixParams acc i (before ++ p :: after) = mixParams acc i (before ++ q :: after) ↔ p = q := by
  refine ⟨fun h => ?_, fun h => h ▸ rfl⟩
  rw [mixParams_append, mixParams_append] at h
  have hround := mixParams_injective (i + before.length + 1) after h
  have hmarked := (UInt64.add_right_inj _).1 hround
  exact congrArg SymbolHash.mk ((UInt64.xor_right_inj _).1 hmarked)

section Signatures

variable (digest : String → UInt64)

/-- **The hash of a function keeps its parameters apart**, each from any other in its place. -/
theorem ofFunction_inj (name : String) (before after : List SymbolHash) (p q : SymbolHash) :
    ofFunction name (before ++ p :: after) digest = ofFunction name (before ++ q :: after) digest ↔ p = q := by
  rw [ofFunction, ofFunction, SymbolHash.mk.injEq, mixParams_inj]

/-- **The hash of a property keeps its receivers apart.** -/
theorem ofProperty_inj (name : String) (r s : SymbolHash) :
    ofProperty name (some r) digest = ofProperty name (some s) digest ↔ r = s := by
  refine ⟨fun h => ?_, fun h => h ▸ rfl⟩
  have hmixed : _ + r.val = _ + s.val := congrArg SymbolHash.val h
  exact congrArg SymbolHash.mk ((UInt64.add_right_inj _).1 hmixed)

/-- **The hash of a getter keeps the properties apart.** -/
theorem getterOf_inj (a b : SymbolHash) : a.getterOf = b.getterOf ↔ a = b := by
  refine ⟨fun h => ?_, fun h => h ▸ rfl⟩
  have hturned := (UInt64.xor_right_inj _).1 (congrArg SymbolHash.val h)
  exact congrArg SymbolHash.mk (rotateLeft_injective hturned)

end Signatures

end SymbolHash

/-! ## Entries -/

/-- **Lists that differ at one place only.** -/
def DifferAt {α : Type} (i : Nat) (xs ys : List α) : Prop :=
  xs.length = ys.length ∧ ∀ j, xs[j]? ≠ ys[j]? ↔ j = i

/-- Up to the place where lists differ they are the same, and after it. -/
theorem DifferAt.split {α : Type} {i : Nat} {xs ys : List α} (h : DifferAt i xs ys) :
    ∃ before x y after, xs = before ++ x :: after ∧ ys = before ++ y :: after ∧ x ≠ y := by
  obtain ⟨hlength, hplaces⟩ := h
  have hsame {j : Nat} (hj : j ≠ i) : xs[j]? = ys[j]? := not_not.1 fun hne => hj ((hplaces j).1 hne)
  have hdiffer : xs[i]? ≠ ys[i]? := (hplaces i).2 rfl
  have hi : i < xs.length := by
    refine Nat.lt_of_not_le fun hle => hdiffer ?_
    rw [List.getElem?_eq_none hle, List.getElem?_eq_none (hlength ▸ hle)]
  have hi' : i < ys.length := hlength ▸ hi
  have htake : ys.take i = xs.take i := by
    refine List.ext_getElem? fun j => ?_
    by_cases hj : j < i
    · rw [List.getElem?_take_of_lt hj, List.getElem?_take_of_lt hj, hsame (Nat.ne_of_lt hj)]
    · rw [List.getElem?_take_eq_none (Nat.le_of_not_lt hj), List.getElem?_take_eq_none (Nat.le_of_not_lt hj)]
  have hdrop : ys.drop (i + 1) = xs.drop (i + 1) := by
    refine List.ext_getElem? fun j => ?_
    rw [List.getElem?_drop, List.getElem?_drop, hsame (by omega)]
  refine ⟨xs.take i, xs[i], ys[i], xs.drop (i + 1), ?_, ?_, fun heq => hdiffer ?_⟩
  · rw [← List.drop_eq_getElem_cons hi, List.take_append_drop]
  · rw [← htake, ← hdrop, ← List.drop_eq_getElem_cons hi', List.take_append_drop]
  · rw [List.getElem?_eq_getElem hi, List.getElem?_eq_getElem hi', heq]

/-- **Overloads**: functions of one name, with the same parameters but for one, which is of another type. -/
def FunctionEntry.Overloads (digest : String → UInt64) (f g : FunctionEntry) : Prop :=
  ∃ (name : QualifiedName) (ts us : List Ty) (r r' : Ty) (i : Nat),
    f = .ofSignature name ts r digest ∧ g = .ofSignature name us r' digest ∧
      DifferAt i (ts.map (·.identity digest)) (us.map (·.identity digest))

/-- **Namesakes**: properties of one name on different receivers. -/
def PropertyEntry.Namesakes (digest : String → UInt64) (p q : PropertyEntry) : Prop :=
  ∃ (name : QualifiedName) (r s : SymbolHash) (ty ty' : Ty),
    p = .extension name r ty digest ∧ q = .extension name s ty' digest ∧ r ≠ s

variable {digest : String → UInt64}

theorem FunctionEntry.Overloads.hash_ne {f g : FunctionEntry} (h : f.Overloads digest g) : f.hash ≠ g.hash := by
  obtain ⟨name, ts, us, r, r', i, rfl, rfl, hparams⟩ := h
  obtain ⟨before, p, q, after, hts, hus, hne⟩ := hparams.split
  show SymbolHash.ofFunction _ _ digest ≠ SymbolHash.ofFunction _ _ digest
  rw [hts, hus, Ne, SymbolHash.ofFunction_inj]
  exact hne

theorem PropertyEntry.Namesakes.hash_ne {p q : PropertyEntry} (h : p.Namesakes digest q) : p.hash ≠ q.hash := by
  obtain ⟨name, r, s, ty, ty', rfl, rfl, hne⟩ := h
  show SymbolHash.ofProperty _ _ digest ≠ SymbolHash.ofProperty _ _ digest
  rw [Ne, SymbolHash.ofProperty_inj]
  exact hne

/-! ## Libraries -/

namespace Ledger

/-- A fault is that of a condition that fails. -/
theorem mem_of_firstFault {conditions : List (Bool × LibraryFault)} {fault : LibraryFault}
    (h : firstFault conditions = some fault) : (false, fault) ∈ conditions := by
  obtain ⟨⟨ok, _⟩, hfind, rfl⟩ := Option.map_eq_some_iff.1 h
  have hok : (!ok) = true := List.find?_some (p := fun c : Bool × LibraryFault => !c.1) hfind
  obtain rfl : ok = false := by simpa using hok
  exact List.mem_of_find?_eq_some hfind

variable (g : Ledger)

/-- A receiver that is not known is no duplicate. -/
theorem eq_typeNotFound_of_mem {receiver : Option SymbolHash} {ok : Bool} {fault : LibraryFault}
    (h : (ok, fault) ∈ g.receiverConditions receiver) : ∃ text, fault = .typeNotFound text := by
  cases receiver with
  | none => cases h
  | some hash => exact ⟨_, (Prod.mk.inj (List.mem_singleton.1 h)).2⟩

/-- A function is refused as a duplicate on account of one with its hash. -/
theorem exists_duplicate_function {f : FunctionEntry} {name : String}
    (h : g.refusal (.function f) = some (.duplicateFunction name)) : ∃ e ∈ g.functions, e.hash = f.hash := by
  rcases List.mem_cons.1 (mem_of_firstFault h) with hfirst | hreceiver
  · simpa using (Prod.mk.inj hfirst).1
  · obtain ⟨text, hfault⟩ := g.eq_typeNotFound_of_mem hreceiver
    cases hfault

/-- A property is refused as a duplicate on account of one with its hash. -/
theorem exists_duplicate_property {p : PropertyEntry} {name : String}
    (h : g.refusal (.property p) = some (.duplicateProperty name)) : ∃ e ∈ g.properties, e.hash = p.hash := by
  rcases List.mem_cons.1 (mem_of_firstFault h) with hfirst | hrest
  · simpa using (Prod.mk.inj hfirst).1
  rcases List.mem_append.1 hrest with hreceiver | hgetter
  · obtain ⟨text, hfault⟩ := g.eq_typeNotFound_of_mem hreceiver
    cases hfault
  · split at hgetter <;> simp at hgetter

/-- The getter of a property is refused as a duplicate on account of a function with its hash. -/
theorem exists_duplicate_getter {p : PropertyEntry} {name : String}
    (h : g.refusal (.property p) = some (.duplicateFunction name)) : ∃ e ∈ g.functions, e.hash = p.hash.getterOf := by
  rcases List.mem_cons.1 (mem_of_firstFault h) with hfirst | hrest
  · exact absurd (Prod.mk.inj hfirst).2 nofun
  rcases List.mem_append.1 hrest with hreceiver | hgetter
  · obtain ⟨text, hfault⟩ := g.eq_typeNotFound_of_mem hreceiver
    cases hfault
  · split at hgetter
    · simpa using (Prod.mk.inj (List.mem_singleton.1 hgetter)).1
    · cases hgetter

/-- Which receivers are known depends on the types alone. -/
theorem receiverConditions_congr {g g' : Ledger} (h : g.types = g'.types) (receiver : Option SymbolHash) :
    g.receiverConditions receiver = g'.receiverConditions receiver := by
  cases receiver with
  | none => rfl
  | some hash => rw [receiverConditions, receiverConditions, h]

/-- Another hash makes no difference to a function that is added after it. -/
theorem refusal_append_function {e f : FunctionEntry} (h : e.hash ≠ f.hash) :
    (g.append (.function e)).refusal (.function f) = g.refusal (.function f) := by
  have hfree : (∀ d ∈ g.functions ++ [e], d.hash ≠ f.hash) ↔ ∀ d ∈ g.functions, d.hash ≠ f.hash := by
    simp [or_imp, forall_and, h]
  have hreceiver : (g.append (.function e)).receiverConditions f.receiver = g.receiverConditions f.receiver :=
    receiverConditions_congr rfl f.receiver
  simp only [refusal, conditions, hreceiver]
  simp only [append, hfree]

/-- Another hash makes no difference to a property that is added after it, and neither does its getter. -/
theorem refusal_append_property {o p : PropertyEntry} (h : o.hash ≠ p.hash) :
    (g.append (.property o)).refusal (.property p) = g.refusal (.property p) := by
  have hgetter : (FunctionEntry.getter o).hash ≠ p.hash.getterOf := fun heq => h ((SymbolHash.getterOf_inj _ _).1 heq)
  have hfree : (∀ d ∈ g.properties ++ [o], d.hash ≠ p.hash) ↔ ∀ d ∈ g.properties, d.hash ≠ p.hash := by
    simp [or_imp, forall_and, h]
  have hreads : (∀ d ∈ g.functions ++ (if o.getter.isSome then [FunctionEntry.getter o] else []),
      d.hash ≠ p.hash.getterOf) ↔ ∀ d ∈ g.functions, d.hash ≠ p.hash.getterOf := by
    split <;> simp [or_imp, forall_and, hgetter]
  have hreceiver : (g.append (.property o)).receiverConditions p.receiver = g.receiverConditions p.receiver :=
    receiverConditions_congr rfl p.receiver
  simp only [refusal, conditions, hreceiver]
  simp only [append, hfree, hreads]

end Ledger

namespace Library

/-- A library refuses what its ledger does, with the same fault. -/
theorem Keeps.error_iff {l : Library} {g : Ledger} (hk : l.Keeps g) (a : Addition) (fault : LibraryFault) :
    l.add a = .error fault ↔ g.refusal a = some fault := by
  have hadd := hk.add a
  cases hrefusal : g.refusal a with
  | none =>
    rw [hrefusal] at hadd
    obtain ⟨l', hl', -⟩ := hadd
    rw [hl']
    exact ⟨nofun, nofun⟩
  | some reason =>
    rw [hrefusal] at hadd
    rw [show l.add a = .error reason from hadd, Except.error.injEq, Option.some.injEq]

/-- **Entries that differ in one part**: overloads, or namesakes. -/
inductive Addition.Apart (digest : String → UInt64) : Addition → Addition → Prop
  | overloads {f g : FunctionEntry} : f.Overloads digest g → Apart digest (.function f) (.function g)
  | namesakes {p q : PropertyEntry} : p.Namesakes digest q → Apart digest (.property p) (.property q)

/-- To add an entry makes no difference to what becomes of another one that differs from it in one part. -/
theorem Addition.Apart.refusal_attempt {a b : Addition} (h : Apart digest a b) (g : Ledger) :
    (g.attempt a).refusal b = g.refusal b := by
  unfold Ledger.attempt
  cases g.refusal a with
  | some fault => rfl
  | none =>
    cases h with
    | overloads h => exact g.refusal_append_function h.hash_ne
    | namesakes h => exact g.refusal_append_property h.hash_ne

/-- **Signatures that differ in one part have different hashes**, whatever the digest makes of names: the functions of
one name, if one parameter differs, the properties of one name on different receivers, and the getters of different
properties.

So a library never refuses one of two such entries as a duplicate of the other.  To try the one makes no difference to
what becomes of the other right after it, and whenever one is refused as a duplicate, or its getter is, that is on
account of an entry other than the one that differs from it in one part only. -/
theorem signatures_apart (digest : String → UInt64) :
    (∀ name (params : List SymbolHash) i p q, i < params.length → p ≠ q →
      SymbolHash.ofFunction name (params.set i p) digest ≠ SymbolHash.ofFunction name (params.set i q) digest) ∧
    (∀ name r s, r ≠ s →
      SymbolHash.ofProperty name (some r) digest ≠ SymbolHash.ofProperty name (some s) digest) ∧
    (∀ a b : SymbolHash, a ≠ b → a.getterOf ≠ b.getterOf) ∧
    (∀ a b, Addition.Apart digest a b → ∀ as fault,
      (ofHistory (as ++ [a])).add b = .error fault ↔ (ofHistory as).add b = .error fault) ∧
    (∀ f g, f.Overloads digest g → ∀ as name,
      (ofHistory as).add (.function g) = .error (.duplicateFunction name) →
        ∃ e ∈ (Ledger.ofHistory as).functions, e.hash = g.hash ∧ e ≠ f) ∧
    ∀ p q, p.Namesakes digest q → ∀ as name,
      ((ofHistory as).add (.property q) = .error (.duplicateProperty name) →
        ∃ e ∈ (Ledger.ofHistory as).properties, e.hash = q.hash ∧ e ≠ p) ∧
      ((ofHistory as).add (.property q) = .error (.duplicateFunction name) →
        ∃ e ∈ (Ledger.ofHistory as).functions, e.hash = q.hash.getterOf ∧ e ≠ .getter p) := by
  refine ⟨fun name params i p q hi hpq => ?_, fun name r s hrs => ?_, fun a b hab => ?_, fun a b hab as fault => ?_,
    fun f g hfg as name hrefused => ?_, fun p q hpq as name => ⟨fun hrefused => ?_, fun hrefused => ?_⟩⟩
  · rw [List.set_eq_take_cons_drop p hi, List.set_eq_take_cons_drop q hi, Ne, SymbolHash.ofFunction_inj]
    exact hpq
  · rwa [Ne, SymbolHash.ofProperty_inj]
  · rwa [Ne, SymbolHash.getterOf_inj]
  · rw [(Keeps.ofHistory _).error_iff, (Keeps.ofHistory as).error_iff, Ledger.ofHistory_concat, hab.refusal_attempt]
  · rw [(Keeps.ofHistory as).error_iff] at hrefused
    obtain ⟨e, he, hhash⟩ := Ledger.exists_duplicate_function _ hrefused
    exact ⟨e, he, hhash, fun heq => hfg.hash_ne (heq ▸ hhash)⟩
  · rw [(Keeps.ofHistory as).error_iff] at hrefused
    obtain ⟨e, he, hhash⟩ := Ledger.exists_duplicate_property _ hrefused
    exact ⟨e, he, hhash, fun heq => hpq.hash_ne (heq ▸ hhash)⟩
  · rw [(Keeps.ofHistory as).error_iff] at hrefused
    obtain ⟨e, he, hhash⟩ := Ledger.exists_duplicate_getter _ hrefused
    refine ⟨e, he, hhash, ?_⟩
    rintro rfl
    exact hpq.hash_ne ((SymbolHash.getterOf_inj _ _).1 hhash)

/-- Even where the digest tells no names apart, there may be a `print` for one class and for another, and a property
`hidden` of both.  A third function is refused, and that is on account of the second. -/
theorem signatures_apart_blank :
    let digest : String → UInt64 := fun _ => 0
    let f := FunctionEntry.ofSignature "print" [.int, .reference ⟨1⟩ false] .unit digest
    let g := FunctionEntry.ofSignature "::print" [.int, .reference ⟨2⟩ true] .unit digest
    let p := PropertyEntry.extension "hidden" ⟨1⟩ .boolean digest
    let q := PropertyEntry.extension "hidden" ⟨2⟩ .boolean digest
    let as : List Addition := [.type ⟨.parse "A", ⟨1⟩⟩, .type ⟨.parse "B", ⟨2⟩⟩, .function f, .function g]
    (f.Overloads digest g ∧ (ofHistory as).add (.function g) = .error (.duplicateFunction "print") ∧
      ∃ e ∈ (Ledger.ofHistory as).functions, e.hash = g.hash ∧ e ≠ f) ∧
    p.Namesakes digest q ∧ ∀ fault, (ofHistory (as ++ [.property p])).add (.property q) ≠ .error fault := by
  intro digest f g p q as
  have hfg : f.Overloads digest g := by
    refine ⟨"print", _, _, _, _, 1, rfl, rfl, rfl, fun j => ?_⟩
    match j with
    | 0 | 1 => decide
    | j + 2 => simp
  have hpq : p.Namesakes digest q := ⟨"hidden", _, _, _, _, rfl, rfl, by decide⟩
  have hrefused : (ofHistory as).add (.function g) = .error (.duplicateFunction "print") := by decide
  obtain ⟨-, -, -, hanswer, hfunction, -⟩ := signatures_apart digest
  refine ⟨⟨hfg, hrefused, hfunction f g hfg as "print" hrefused⟩, hpq, fun fault hfault => ?_⟩
  have hok : ((ofHistory as).add (.property q)).isOk = true := by decide
  rw [(hanswer _ _ (.namesakes hpq) as fault).1 hfault] at hok
  cases hok

end Library

end DeferredInit
