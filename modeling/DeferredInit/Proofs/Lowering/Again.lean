import DeferredInit.Proofs.Lowering.Origin

/-!
# Lowering again

A lowered program is not meant to be lowered again.  If a declaration was lowered, lowering notices: some lowered
declaration can still be reached, and its initializer is in the way (`lower_twice`).  Which one it is cannot be said
in general, since the old body of a getter is dropped with all that is declared there; but the property of that getter
then remains, or one that is even further out (`Done.visible`).

If nothing but reads and queries was lowered, lowering again succeeds.  It finds the two reads of each guard
(`Program.guardReads`), and nothing else.
-/

namespace DeferredInit

open Program LoweringFault

variable {w : Lowering} {p q : Program} {n k a b : NodeId} {R L : List NodeId}

/-! ## Guards and their reads -/

namespace Program

/-- **The two reads of a guard**, found by what the nodes own from the node in whose place it stands: the one that is
tested, which the condition of its first statement owns, and the one that is its second statement. -/
def guardReads (q : Program) (n : NodeId) : List NodeId :=
  match q.kids n with
  | [check, value] =>
    match q.kids check with
    | [test, _] =>
      match q.kids test with
      | [tested, _] => [tested, value]
      | _ => []
    | _ => []
  | _ => []

theorem mem_guardReads {m : NodeId} : m ∈ q.guardReads n ↔ ∃ check value test failure tested null,
    q.kids n = [check, value] ∧ q.kids check = [test, failure] ∧ q.kids test = [tested, null] ∧
      (m = tested ∨ m = value) := by
  unfold guardReads
  constructor
  · intro h
    split at h
    · next check value h₁ =>
      split at h
      · next test failure h₂ =>
        split at h
        · next tested null h₃ => exact ⟨check, value, test, failure, tested, null, h₁, h₂, h₃, by simpa using h⟩
        · cases h
      · cases h
    · cases h
  · rintro ⟨check, value, test, failure, tested, null, h₁, h₂, h₃, h⟩
    simpa only [h₁, h₂, h₃, List.mem_cons, List.not_mem_nil, or_false] using h

/-- What a guard tests is no statement of a guard. -/
theorem Enclosed.tested_ne_value (hL : Enclosed q R L) {test tested null check value : NodeId} (ha : a ∈ L)
    (htest : test ∈ L) (h₁ : q.kids a = [check, value]) (h₃ : q.kids test = [tested, null]) : tested ≠ value := by
  rintro rfl
  obtain rfl := hL.owner_unique ha htest (k := tested) (by simp [h₁]) (by simp [h₃])
  have hd := hL.kids_nodup ha
  obtain ⟨rfl, -⟩ := List.cons.inj (h₁.symm.trans h₃)
  simp [h₁] at hd

theorem Enclosed.nodup_guardReads (hL : Enclosed q R L) (ha : a ∈ L) : (q.guardReads a).Nodup := by
  unfold guardReads
  split
  · next check value h₁ =>
    split
    · next test failure h₂ =>
      split
      · next tested null h₃ =>
        have hcheck := hL.kids_mem ha (k := check) (by simp [h₁])
        have htest := hL.kids_mem hcheck (k := test) (by simp [h₂])
        simpa using hL.tested_ne_value ha htest h₁ h₃
      · exact List.nodup_nil
    · exact List.nodup_nil
  · exact List.nodup_nil

/-- Different guards have different reads. -/
theorem Enclosed.disjoint_guardReads (hL : Enclosed q R L) (ha : a ∈ L) (hb : b ∈ L) (hab : a ≠ b) :
    (q.guardReads a).Disjoint (q.guardReads b) := by
  intro m hma hmb
  obtain ⟨check, value, test, failure, tested, null, h₁, h₂, h₃, hm⟩ := mem_guardReads.1 hma
  obtain ⟨check', value', test', failure', tested', null', h₁', h₂', h₃', hm'⟩ := mem_guardReads.1 hmb
  have hcheck := hL.kids_mem ha (k := check) (by simp [h₁])
  have htest := hL.kids_mem hcheck (k := test) (by simp [h₂])
  have hcheck' := hL.kids_mem hb (k := check') (by simp [h₁'])
  have htest' := hL.kids_mem hcheck' (k := test') (by simp [h₂'])
  rcases hm with rfl | rfl <;> rcases hm' with rfl | rfl
  · obtain rfl := hL.owner_unique htest htest' (k := m) (by simp [h₃]) (by simp [h₃'])
    obtain rfl := hL.owner_unique hcheck hcheck' (k := test) (by simp [h₂]) (by simp [h₂'])
    exact hab (hL.owner_unique ha hb (k := check) (by simp [h₁]) (by simp [h₁']))
  · exact hL.tested_ne_value hb htest h₁' h₃ rfl
  · exact hL.tested_ne_value ha htest' h₁ h₃' rfl
  · exact hab (hL.owner_unique ha hb (k := m) (by simp [h₁]) (by simp [h₁']))

end Program

/-- Whether a call of a library function, if it is one, has nothing but an extension receiver. -/
def ExprForm.isBare (hash : SymbolHash) : ExprForm → Bool
  | .call (.library h) dispatch _ args => h != hash || dispatch.isNone && args.isEmpty
  | _ => true

namespace Lowering

/-- **Bare queries**: those that can be reached have neither a dispatch receiver nor arguments, which lowering would
drop unseen. -/
def BareQueries (w : Lowering) (p : Program) : Prop :=
  ∀ e E, p.Reachable (.expr e) → p.expr? e = some E → E.form.isBare w.intrinsics.isInitializedGetter = true

theorem BareQueries.of_exprs (h : ∀ E ∈ p.exprs, E.form.isBare w.intrinsics.isInitializedGetter = true) :
    BareQueries w p := fun _ E _ hE => h E (Array.mem_of_getElem? hE)

section

variable {s : Progress} (hf : p.IsForest) (h : Done w p p.nodes s)
include hf h

/-! ## What stays within reach -/

/-- A bare query owns its reference alone, and what the reference owned is owned under the query afterwards. -/
theorem Done.kids_query (hbare : BareQueries w p) (hn : n ∈ p.nodes) (hc : w.construct? p n = some .query) :
    ∃ reference, p.kids n = [reference] ∧ w.construct? p reference = none ∧
      ∀ k ∈ p.kids reference, s.program.Reachable n → s.program.Reachable k := by
  cases h.lowered.changed hn hc with
  | @query e reference E N dispatch subject args property field P r ty g he hE hN hform _ _ _ _ hq _ =>
    have hcall := hbare e E ((mem_nodes_iff hf).1 hn) he
    obtain ⟨rfl, rfl⟩ : dispatch = none ∧ args = [] := by simpa [hE, ExprForm.isBare] using hcall
    refine ⟨.expr reference, ?_, by simp [construct?, hN, hform], fun k hk hreach => ?_⟩
    · simp [kids_expr he, hE, ExprForm.owned, ExprForm.children]
    · have hvalue : .expr g.value ∈ s.program.kids (.expr e) := by
        simp [kids_expr hq, Presence.form, ExprForm.owned, ExprForm.children]
      refine .owned (.owned hreach hvalue) ?_
      simpa [kids_expr hN, hform, kids_expr g.value_eq, ExprForm.owned, ExprForm.children] using hk

/-- **A node of the original program that has stayed within reach**, with the construct that owns it.  Only the
reference of a query need not be there itself. -/
structure Visible (w : Lowering) (p q : Program) (n : NodeId) : Prop where
  owner : ∀ m ∈ p.nodes, (w.construct? p m).isSome → n ∈ p.kids m → q.Reachable m
  itself : (∀ m ∈ p.nodes, w.construct? p m = some .query → n ∉ p.kids m) → q.Reachable n

section

variable (hbare : BareQueries w p)
variable (hnone : ∀ d ∈ p.nodes, s.program.Reachable d → w.construct? p d ≠ some .property)
include hbare hnone

/-- **What a visible node owns is visible**, unless some lowered property has stayed within reach. -/
theorem Done.visible_of_mem_kids (hn : n ∈ p.nodes) (hvis : Visible w p s.program n) (hk : k ∈ p.kids n) :
    Visible w p s.program k := by
  have hL := enclosed_nodes hf
  constructor
  · intro m hm hc hkm
    obtain rfl := hL.owner_unique hm hn hkm hk
    refine hvis.itself fun e he hquery hne => ?_
    -- the reference that a query owns is no construct, but `m` is
    obtain ⟨reference, hkids, hreference, -⟩ := h.kids_query hf hbare he hquery
    obtain rfl : m = reference := by simpa [hkids] using hne
    simp [hreference] at hc
  · intro hnot
    by_cases howner : ∃ e ∈ p.nodes, w.construct? p e = some .query ∧ n ∈ p.kids e
    · obtain ⟨e, he, hquery, hne⟩ := howner
      obtain ⟨reference, hkids, -, hmoved⟩ := h.kids_query hf hbare he hquery
      obtain rfl : n = reference := by simpa [hkids] using hne
      exact hmoved k hk (hvis.owner e he (by simp [hquery]) hne)
    · -- no query owns `n`, so it is there itself, and unless a rule has touched it, it still owns `k`
      simp only [not_exists, not_and] at howner
      have hreach := hvis.itself howner
      have huntouched : ∀ m ∈ p.nodes, ¬Touches w p m n := by
        intro m hm htouch
        cases htouch with
        | var hc =>
          cases h.lowered.changed hm hc with
          | var hd hD hi => simp [kids_decl hd, hD, DeclForm.owned, DeclForm.ownedDecls, DeclForm.ownedExprs, hi] at hk
        | read hc =>
          cases h.lowered.changed hm hc with
          | read he hE => simp [kids_expr he, hE, ExprForm.owned, ExprForm.children] at hk
        | query hc => exact hnot _ hn hc hk
        | reference hc he hE => exact howner _ hm hc (by simp [kids_expr he, hE, ExprForm.owned, ExprForm.children])
        | @field d field D F r content hc hd hD hr =>
          have hkid : .decl field ∈ p.kids (.decl d) := by
            simp [kids_decl hd, hD, DeclForm.owned, DeclForm.ownedDecls, hr]
          exact hnone _ hm (hvis.owner _ hm (by simp [hc]) hkid) hc
        | @getter d getter D G r f hc hd hD hr =>
          have hkid : .decl getter ∈ p.kids (.decl d) := by
            simp [kids_decl hd, hD, DeclForm.owned, DeclForm.ownedDecls, hr]
          exact hnone _ hm (hvis.owner _ hm (by simp [hc]) hkid) hc
      refine .owned hreach ?_
      rw [(h.lowered.untouched (hL.has n hn) huntouched).kids_eq]
      exact hk

/-- **All nodes of the original program are visible**, unless some lowered property has stayed within reach. -/
theorem Done.visible (hn : p.Reachable n) : Visible w p s.program n := by
  induction hn with
  | @outermost n hn =>
    have hreach : s.program.Reachable n := .outermost (by rwa [outermost, h.lowered.topLevel_eq])
    exact ⟨fun m hm _ hk => absurd hk ((enclosed_nodes hf).not_mem_kids hn hm), fun _ => hreach⟩
  | owned hn hk ih => exact h.visible_of_mem_kids hf hbare hnone ((mem_nodes_iff hf).2 hn) ih hk

/-- Then the constructs are within reach themselves. -/
theorem Done.reachable_of_construct? (hn : n ∈ p.nodes) (hc : (w.construct? p n).isSome) : s.program.Reachable n := by
  refine (h.visible hf hbare hnone ((mem_nodes_iff hf).1 hn)).itself fun e he hquery hk => ?_
  obtain ⟨reference, hkids, hreference, -⟩ := h.kids_query hf hbare he hquery
  obtain rfl : n = reference := by simpa [hkids] using hk
  simp [hreference] at hc

end

end

/-! ## What lowering finds the second time -/

theorem tally_eq_zero_iff {s : Progress} {A : List NodeId} {c : Construct} (h : Done w p A s) :
    c.tally s.stats = 0 ↔ ∀ n ∈ A, w.construct? p n ≠ some c := by
  simp [h.tally c, List.countP_eq_zero]

/-- The counts tell whether a declaration was lowered. -/
theorem Done.declarations_eq_zero_iff {s : Progress} {A : List NodeId} (h : Done w p A s) :
    s.stats.vars + s.stats.properties = 0 ↔
      (∀ n ∈ A, w.construct? p n ≠ some .var) ∧ ∀ n ∈ A, w.construct? p n ≠ some .property := by
  rw [Nat.add_eq_zero_iff]
  exact and_congr (tally_eq_zero_iff h (c := .var)) (tally_eq_zero_iff h (c := .property))

section

variable {s : Progress} (hw : w.intrinsics.throwUninitialized ≠ w.intrinsics.isInitializedGetter) (hp : p.Closed)
variable (hf : p.IsForest) (h : Done w p p.nodes s)

include hf h in
/-- If a declaration was lowered, one that was lowered is within reach afterwards. -/
theorem Done.exists_declaration (hbare : BareQueries w p) (hcount : s.stats.vars + s.stats.properties ≠ 0) :
    ∃ m ∈ p.nodes, s.program.Reachable m ∧ (w.construct? p m = some .var ∨ w.construct? p m = some .property) := by
  by_contra hnone
  have hvar : ∀ m ∈ p.nodes, s.program.Reachable m → w.construct? p m ≠ some .var :=
    fun m hm hreach hc => hnone ⟨m, hm, hreach, .inl hc⟩
  have hproperty : ∀ m ∈ p.nodes, s.program.Reachable m → w.construct? p m ≠ some .property :=
    fun m hm hreach hc => hnone ⟨m, hm, hreach, .inr hc⟩
  -- with no lowered property within reach, every construct is, and so no declaration was lowered at all
  have hreach {m : NodeId} (hm : m ∈ p.nodes) (hc : (w.construct? p m).isSome) : s.program.Reachable m :=
    h.reachable_of_construct? hf hbare hproperty hm hc
  refine hcount (h.declarations_eq_zero_iff.2 ⟨fun m hm hc => ?_, fun m hm hc => ?_⟩)
  · exact hvar m hm (hreach hm (by simp [hc])) hc
  · exact hproperty m hm (hreach hm (by simp [hc])) hc

theorem guardReads_guard {e : ExprId} {E : Expr} {x : DeclId} {span : Span} {ty : Ty} {name : String}
    (g : ReadGuard w q span x ty name) (hq : q.expr? e = some { E with form := g.form }) :
    q.guardReads (.expr e) = [.expr g.tested, .expr g.value] := by
  simp [guardReads, kids_expr hq, ReadGuard.form, kids_expr g.check_eq, kids_expr g.test_eq, ExprForm.owned,
    ExprForm.children]

theorem construct?_getValue {t : ExprId} {E : Expr} {x : DeclId} (ht : q.expr? t = some E) (hE : E.form = .getValue x) :
    w.construct? q (.expr t) = if (q.decl? x).any (·.isDeferredVariable) then some .read else none := by
  simp only [construct?, ht, Option.bind_eq_bind, Option.bind_some, hE]

include h in
/-- A lowered read has two reads in its place. -/
theorem Done.guardReads_read (hn : n ∈ p.nodes) (hc : w.construct? p n = some .read) :
    ∃ tested value, s.program.guardReads n = [tested, value] ∧ w.construct? s.program tested = some .read ∧
      w.construct? s.program value = some .read := by
  cases h.lowered.changed hn hc with
  | @read e E x X ty name g he hE hx _ _ _ hq =>
    have hX : X.isDeferredVariable = true := by
      rw [construct?_getValue he hE, hx] at hc
      simpa using hc
    obtain ⟨X', hX', hsk⟩ := h.alike x X hx
    have hread : (if (s.program.decl? x).any (·.isDeferredVariable) then some Construct.read else none) =
        some .read := by
      simp [hX', Decl.isDeferredVariable_of_skeleton hsk, hX]
    exact ⟨.expr g.tested, .expr g.value, guardReads_guard g hq, (construct?_getValue g.tested_eq rfl).trans hread,
      (construct?_getValue g.value_eq rfl).trans hread⟩

include hw hp hf h in
/-- **The constructs within reach of a lowered program** are the declarations that were lowered, the reads in guards,
and what guarded getters read of their receivers. -/
theorem Done.construct?_reachable (hn : s.program.Reachable n) {c : Construct}
    (hc : w.construct? s.program n = some c) :
    c.isDeclaration = true ∧ n ∈ p.nodes ∧ w.construct? p n = some c ∨
      c = .read ∧ ((∃ m ∈ p.nodes, w.construct? p m = some .read ∧ n ∈ s.program.guardReads m) ∨
        ∃ d ∈ p.nodes, w.construct? p d = some .property) := by
  have read {t : ExprId} {E : Expr} {x : DeclId} (ht : s.program.expr? t = some E) (hE : E.form = .getValue x)
      (hc : w.construct? s.program (.expr t) = some c) : c = .read := by
    rw [construct?_getValue ht hE] at hc
    split at hc
    · exact (Option.some.inj hc).symm
    · cases hc
  cases h.origin hf hn with
  | old hn =>
    rw [h.construct?_old hp hn ((enclosed_nodes hf).has n hn), Option.filter_eq_some_iff] at hc
    exact .inl ⟨hc.2, hn, hc.1⟩
  | null he => simp [construct?, he] at hc
  | @read _ e E x ty name g hmem hread he hE hq hn =>
    have hguard := guardReads_guard g hq
    rcases construct?_readGuard hw g hn with rfl | rfl | hnone
    · exact .inr ⟨read g.tested_eq rfl hc, .inl ⟨_, hmem, hread, by simp [hguard]⟩⟩
    · exact .inr ⟨read g.value_eq rfl hc, .inl ⟨_, hmem, hread, by simp [hguard]⟩⟩
    · simp [hnone] at hc
  | @query _ span field subject ty g _ hn => simp [construct?_presence g hn] at hc
  | @getter _ d span getter field receiver ty name g hd hproperty hr hn =>
    rcases construct?_bodyGuard hw g hn with ⟨t, ht, rfl⟩ | hnone
    · obtain ⟨r, ty, -, he⟩ := g.this_eq.expr? ht
      exact .inr ⟨read he rfl hc, .inr ⟨d, hd, hproperty⟩⟩
    · simp [hnone] at hc

section

variable (hbare : BareQueries w p) (hproperty : ∀ n ∈ p.nodes, w.construct? p n ≠ some .property)
include hf h hbare hproperty

/-- If no property was lowered, all lowered reads are still within reach. -/
theorem Done.mem_nodes_of_read (hn : n ∈ p.nodes) (hc : w.construct? p n = some .read) : n ∈ s.program.nodes :=
  (mem_nodes_iff (h.preserves.isForest hf)).2
    (h.reachable_of_construct? hf hbare (fun d hd _ => hproperty d hd) hn (by simp [hc]))

include hw hp in
/-- If no property was lowered, the reads that lowering finds the second time are those in the guards. -/
theorem Done.read_iff : n ∈ s.program.nodes ∧ w.construct? s.program n = some .read ↔
    ∃ m ∈ p.nodes, w.construct? p m = some .read ∧ n ∈ s.program.guardReads m := by
  have hf' := h.preserves.isForest hf
  have hL := enclosed_nodes hf'
  constructor
  · rintro ⟨hn, hc⟩
    rcases h.construct?_reachable hw hp hf ((mem_nodes_iff hf').1 hn) hc with ⟨hdecl, -⟩ | ⟨-, hread | hgetter⟩
    · cases hdecl
    · exact hread
    · obtain ⟨d, hd, hc⟩ := hgetter
      exact absurd hc (hproperty d hd)
  · rintro ⟨m, hm, hc, hn⟩
    refine ⟨?_, ?_⟩
    · obtain ⟨check, value, test, failure, tested, null, h₁, h₂, h₃, hn⟩ := mem_guardReads.1 hn
      have hm' := h.mem_nodes_of_read hf hbare hproperty hm hc
      have hcheck := hL.kids_mem hm' (k := check) (by simp [h₁])
      have htest := hL.kids_mem hcheck (k := test) (by simp [h₂])
      rcases hn with rfl | rfl
      · exact hL.kids_mem htest (by simp [h₃])
      · exact hL.kids_mem hm' (by simp [h₁])
    · obtain ⟨tested, value, hguard, htested, hvalue⟩ := h.guardReads_read hm hc
      rw [hguard, List.mem_cons, List.mem_singleton] at hn
      rcases hn with rfl | rfl
      · exact htested
      · exact hvalue

include hw hp in
/-- **Each read that was lowered is found twice the second time.** -/
theorem Done.countP_read : s.program.nodes.countP (w.construct? s.program · = some .read) =
    2 * p.nodes.countP (w.construct? p · = some .read) := by
  have hf' := h.preserves.isForest hf
  have hL := enclosed_nodes hf'
  let reads := p.nodes.filter (w.construct? p · = some .read)
  have hreads {m : NodeId} : m ∈ reads ↔ m ∈ p.nodes ∧ w.construct? p m = some .read := by simp [reads]
  have hreach {m : NodeId} (hm : m ∈ reads) : m ∈ s.program.nodes :=
    h.mem_nodes_of_read hf hbare hproperty (hreads.1 hm).1 (hreads.1 hm).2
  have hnodup : (reads.flatMap s.program.guardReads).Nodup := by
    refine List.nodup_flatMap.2 ⟨fun m hm => hL.nodup_guardReads (hreach hm), ?_⟩
    refine ((nodup_nodes hf).filter _).pairwise_of_forall_ne fun a ha b hb hab => ?_
    exact hL.disjoint_guardReads (hreach ha) (hreach hb) hab
  -- both lists are without duplicates, so it is enough that they have the same members
  have hperm : (s.program.nodes.filter (w.construct? s.program · = some .read)).Perm
      (reads.flatMap s.program.guardReads) := by
    refine (List.perm_ext_iff_of_nodup ((nodup_nodes hf').filter _) hnodup).2 fun m => ?_
    rw [List.mem_filter, List.mem_flatMap, decide_eq_true_iff, h.read_iff hw hp hf hbare hproperty]
    simp only [hreads, and_assoc]
  have hlength : ∀ m ∈ reads, (s.program.guardReads m).length = 2 := by
    intro m hm
    obtain ⟨tested, value, hguard, -⟩ := h.guardReads_read (hreads.1 hm).1 (hreads.1 hm).2
    rw [hguard]
    rfl
  calc s.program.nodes.countP (w.construct? s.program · = some .read)
      = (s.program.nodes.filter (w.construct? s.program · = some .read)).length := List.countP_eq_length_filter
    _ = (reads.flatMap s.program.guardReads).length := hperm.length_eq
    _ = 2 * reads.length := by
        rw [List.length_flatMap, List.map_congr_left hlength, List.map_const', List.sum_replicate_nat, Nat.mul_comm]
    _ = 2 * p.nodes.countP (w.construct? p · = some .read) := by rw [List.countP_eq_length_filter]

end

section

variable (hok : ∀ n ∈ p.nodes, w.violations p n = []) (hbare : BareQueries w p)
include hw hp hf h hok hbare

/-- **Lowering again fails if a declaration was lowered**, whose initializer is in the way. -/
theorem Done.lower_declared (hcount : s.stats.vars + s.stats.properties ≠ 0) : ∃ name span,
    (w.lower s.program).1 = .error (.fault (.initializerPresent name span)) ∨
      (w.lower s.program).1 = .error (.fault (.fieldInitialized name span)) := by
  obtain ⟨d, hd, hreach, hdecl⟩ := h.exists_declaration hf hbare hcount
  have hviolated : w.violations s.program d ≠ [] := by
    obtain ⟨name, span, h | h⟩ := h.violations_of_declaration hd hdecl (hok d hd) <;> simp [h]
  obtain ⟨m, f, hm, hmf, hlower⟩ :=
    lower_error (h.preserves.closed hp) (h.preserves.isForest hf) hreach hviolated
  -- what is reported need not be `d`, but nothing except lowered declarations violates anything
  rcases h.violations_reachable hw hp hf hok hm with hnil | ⟨hm, hdecl⟩
  · rw [hnil] at hmf
    cases hmf
  · obtain ⟨name, span, h | h⟩ := h.violations_of_declaration hm hdecl (hok m hm)
    · rw [h, List.mem_singleton] at hmf
      exact ⟨name, span, .inl (hmf ▸ hlower)⟩
    · rw [h, List.mem_singleton] at hmf
      exact ⟨name, span, .inr (hmf ▸ hlower)⟩

/-- **Lowering again succeeds if no declaration was lowered**, and it counts each lowered read twice. -/
theorem Done.lower_undeclared (hcount : s.stats.vars + s.stats.properties = 0) :
    (w.lower s.program).1 = .ok { reads := 2 * s.stats.reads } := by
  obtain ⟨hvar, hproperty⟩ := h.declarations_eq_zero_iff.1 hcount
  have hq := h.preserves.closed hp
  have hf' := h.preserves.isForest hf
  obtain ⟨stats, hstats⟩ := lower_ok (w := w) hq hf' fun n hn => by
    rcases h.violations_reachable hw hp hf hok hn with hnil | ⟨hn, hc | hc⟩
    · exact hnil
    · exact absurd hc (hvar n hn)
    · exact absurd hc (hproperty n hn)
  have hagain := done_of_lower hq hf' (Prod.ext hstats rfl)
  have hzero {c : Construct} (hc : c ≠ .read) : c.tally stats = 0 := by
    refine (tally_eq_zero_iff hagain).2 fun n hn hnc => ?_
    rcases h.construct?_reachable hw hp hf ((mem_nodes_iff hf').1 hn) hnc with ⟨hdecl, hn, h⟩ | ⟨h, -⟩
    · cases c with
      | var => exact hvar n hn h
      | property => exact hproperty n hn h
      | read | query => cases hdecl
    · exact hc h
  have hreads : stats.reads = 2 * s.stats.reads :=
    calc stats.reads = s.program.nodes.countP (w.construct? s.program · = some .read) := hagain.tally .read
      _ = 2 * p.nodes.countP (w.construct? p · = some .read) := h.countP_read hw hp hf hbare hproperty
      _ = 2 * s.stats.reads := congrArg (2 * ·) (h.tally .read).symm
  obtain ⟨vars, reads, queries, properties⟩ := stats
  obtain rfl : vars = 0 := hzero (c := .var) nofun
  obtain rfl : queries = 0 := hzero (c := .query) nofun
  obtain rfl : properties = 0 := hzero (c := .property) nofun
  obtain rfl : reads = 2 * s.stats.reads := hreads
  exact hstats

end

end

/-- A lowering that succeeds has found nothing violated. -/
theorem violations_eq_nil_of_lower (hp : p.Closed) (hf : p.IsForest) {stats : LoweringStats}
    (h : (w.lower p).1 = .ok stats) : ∀ n ∈ p.nodes, w.violations p n = [] := by
  intro n hn
  by_contra hviolated
  obtain ⟨m, f, -, -, hlower⟩ := lower_error hp hf ((mem_nodes_iff hf).1 hn) hviolated
  rw [h] at hlower
  cases hlower

/-- **A program is never lowered twice unnoticed.**  Lower a closed program that is a forest and whose queries are bare,
and lower the result again.  If the first lowering counted a variable or a property, the second fails, since an
initializer is present or a field is initialized.  Otherwise it succeeds, and counts two reads for each one of the
first time, and nothing else. -/
theorem lower_twice (hw : w.intrinsics.throwUninitialized ≠ w.intrinsics.isInitializedGetter) (hp : p.Closed)
    (hf : p.findShared = .ok none) (hbare : BareQueries w p) {stats : LoweringStats}
    (h : w.lower p = (.ok stats, q)) :
    (0 < stats.vars + stats.properties → ∃ name span,
      (w.lower q).1 = .error (.fault (.initializerPresent name span)) ∨
        (w.lower q).1 = .error (.fault (.fieldInitialized name span))) ∧
    (stats.vars + stats.properties = 0 → (w.lower q).1 = .ok { reads := 2 * stats.reads }) := by
  have hforest := findShared_eq_none_iff.1 hf
  have hdone := done_of_lower hp hforest h
  have hok := violations_eq_nil_of_lower hp hforest (congrArg Prod.fst h)
  exact ⟨fun hcount => hdone.lower_declared hw hp hforest hok hbare (Nat.pos_iff_ne_zero.1 hcount),
    hdone.lower_undeclared hw hp hforest hok hbare⟩

/-- The sample program without its class, and without the declaration of its variable. -/
def undeclaredSample : Program :=
  { sample with
    exprs := sample.exprs.modify 17 fun E => { E with form := .block [⟨10⟩, ⟨13⟩, ⟨16⟩] }
    topLevel := [⟨6⟩] }

/-- Lowered twice, the sample program is rejected.  Where its declarations are out of reach, it has two reads the first
time and four the second. -/
theorem lower_twice_sample :
    ((Sample.lowering.lower sample).1 = .ok { vars := 1, reads := 2, queries := 1, properties := 1 } ∧
      ∃ name span,
        (Sample.lowering.lower (Sample.lowering.lower sample).2).1 = .error (.fault (.initializerPresent name span)) ∨
          (Sample.lowering.lower (Sample.lowering.lower sample).2).1 = .error (.fault (.fieldInitialized name span))) ∧
    (Sample.lowering.lower undeclaredSample).1 = .ok { reads := 2 } ∧
      (Sample.lowering.lower (Sample.lowering.lower undeclaredSample).2).1 = .ok { reads := 4 } := by
  have hstats : (Sample.lowering.lower sample).1 = .ok { vars := 1, reads := 2, queries := 1, properties := 1 } := by
    decide +kernel
  have hstats' : (Sample.lowering.lower undeclaredSample).1 = .ok { reads := 2 } := by decide +kernel
  have hlower : Sample.lowering.lower sample =
      (.ok { vars := 1, reads := 2, queries := 1, properties := 1 }, (Sample.lowering.lower sample).2) := by
    rw [← hstats]
  have hlower' : Sample.lowering.lower undeclaredSample =
      (.ok { reads := 2 }, (Sample.lowering.lower undeclaredSample).2) := by
    rw [← hstats']
  have hw : Sample.lowering.intrinsics.throwUninitialized ≠ Sample.lowering.intrinsics.isInitializedGetter := by
    decide +kernel
  have hbare : BareQueries Sample.lowering sample := .of_exprs (by decide +kernel)
  have hbare' : BareQueries Sample.lowering undeclaredSample := .of_exprs (by decide +kernel)
  exact ⟨⟨hstats, (lower_twice hw (by decide) (by decide +kernel) hbare hlower).1 Nat.zero_lt_two⟩,
    hstats', (lower_twice hw (by decide) (by decide +kernel) hbare' hlower').2 rfl⟩

end Lowering

end DeferredInit
