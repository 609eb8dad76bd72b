import DeferredInit.Proofs.Lowering.Lowered

/-!
# Lowering node by node

A traversal looks up what a node owns before it goes there, and the program changes under it.  In a forest it
still comes by the nodes of the original program in postorder, once each: when it reaches a node, neither the rule
of that node nor that of its owner has been applied, and no other rule changes it.  `Done` is what holds when the
nodes of some first part of the postorder have been lowered; `Done.step` adds one node to that part, and
`forM_lowerNode` shows that a traversal does nothing but take such steps.
-/

namespace DeferredInit

open Program

/-- How often a construct was counted. -/
def Construct.tally (c : Construct) (s : LoweringStats) : Nat :=
  match c with
  | var => s.vars
  | read => s.reads
  | query => s.queries
  | property => s.properties

theorem Construct.tally_count (c c' : Construct) (s : LoweringStats) :
    c.tally (c'.count s) = c.tally s + if c' = c then 1 else 0 := by
  cases c <;> cases c' <;> rfl

/-- Statistics are known by their tallies. -/
theorem LoweringStats.ext_tally {s t : LoweringStats} (h : ∀ c, Construct.tally c s = Construct.tally c t) : s = t := by
  have h₁ := h .var
  have h₂ := h .read
  have h₃ := h .query
  have h₄ := h .property
  cases s
  cases t
  simp_all [Construct.tally]

namespace Lowering

variable {w : Lowering} {p q q' : Program} {n : NodeId} {c : Construct} {R L A : List NodeId}

/-! ## One construct -/

/-- A node that a rule comes upon was changed, if at all, by a rule of its own. -/
def Met (w : Lowering) (p q : Program) (k : NodeId) : Prop :=
  p.SameAt q k ∨ ∃ c, c ≠ .property ∧ After w p q k c

theorem Met.decl? {d : DeclId} {D : Decl} (h : Met w p q (.decl d)) (hd : q.decl? d = some D)
    (hD : ∀ v, D.form ≠ .var v) : p.decl? d = some D := by
  rcases h with h | ⟨c, hc, h⟩
  · exact Eq.trans h.symm hd
  · obtain ⟨D', v, hD', hv⟩ := h.form_decl hc
    rw [hd] at hD'
    obtain rfl := Option.some.inj hD'
    exact absurd hv (hD v)

theorem Met.expr? {e : ExprId} {E : Expr} {property : DeclId} {dispatch extension : Option ExprId}
    (h : Met w p q (.expr e)) (he : q.expr? e = some E) (hE : E.form = .propertyRef property dispatch extension) :
    p.expr? e = some E := by
  rcases h with h | ⟨c, -, h⟩
  · exact Eq.trans h.symm he
  · obtain ⟨E', hE', hform⟩ := h.form_expr
    rw [he] at hE'
    obtain rfl := Option.some.inj hE'
    exact absurd hE (hform _ _ _)

/-- **A rule makes of a construct what is to become of it**, if it finds the construct as it was. -/
theorem Change.after (h : Change w q n c q') (hp : p.Closed) (hpq : Preserves p q) (halike : Alike p q)
    (hsame : p.SameAt q n) (hkids : ∀ k ∈ p.kids n, Met w p q k) : After w p q' n c := by
  have hnew {m : NodeId} (hm : ¬q.Has m) : ¬p.Has m := mt hpq.has hm
  cases h with
  | @var d D v null q₁ hd _ hD hi _ hq =>
    refine .var (Eq.trans hsame.symm hd) hD hi (hnew (hq.fresh _ (by simp))) (hq.expr? List.mem_cons_self) ?_
    exact (decl?_setDecl _ (hq.old.decl? hd) _ _).trans (if_pos rfl)
  | @read e E x X v q₁ g ds es he hE hx hdef hv _ hq hfresh =>
    have he₀ : p.expr? e = some E := Eq.trans hsame.symm he
    have hx₀ : p.Has (.decl x) := hp.has_of_expr he₀ (by simp [hE, ExprForm.mentioned, ExprForm.subject?])
    obtain ⟨X₀, hX₀, hsk⟩ := halike.back hx₀ hx
    have hty : X₀.form.ty? = some v.ty := by
      rw [← DeclForm.ty?_skeleton, show X₀.form.skeleton = X.form.skeleton from (Decl.mk.inj hsk).2.2.2,
        DeclForm.ty?_skeleton, hv]
      rfl
    have hold := hq.old.has (has_of_expr? he)
    have hg : ∀ m ∈ g.nodes, q₁.SameAt (q₁.setExpr e { E with form := g.form }) m := fun m hm =>
      sameAt_setExpr hold _ (by rintro rfl; exact hfresh _ hm (has_of_expr? he))
    exact .read (g := g.carry hg) he₀ hE hX₀ hty (Decl.mk.inj hsk).1 (fun m hm => hnew (hfresh m hm))
      ((expr?_setExpr _ (hq.old.expr? he) _ _).trans (if_pos rfl))
  | @query e reference E N dispatch subject args property field P r ty q₁ g es he hE hN hform hP hr _ hf hq hfresh =>
    have he₀ : p.expr? e = some E := Eq.trans hsame.symm he
    have hkid : .expr reference ∈ p.kids (.expr e) := by simp [kids_expr he₀, hE, ExprForm.owned, ExprForm.children]
    have hN₀ := (hkids _ hkid).expr? hN hform
    have hP₀ : p.Has (.decl property) :=
      hp.has_of_expr hN₀ (by simp [hform, ExprForm.mentioned, ExprForm.subject?])
    obtain ⟨P₀, hP₀, hsk⟩ := halike.back hP₀ hP
    have hr₀ : P₀.form = .property r := by
      rw [← DeclForm.skeleton_property, show P₀.form.skeleton = P.form.skeleton from (Decl.mk.inj hsk).2.2.2,
        DeclForm.skeleton_property, hr]
    have hne := call_ne_reference he hE hN hform
    have he₁ := hq.old.expr? ((expr?_setExpr _ hN e _).trans ((if_neg hne).trans he))
    have hN₁ := hq.old.expr? ((expr?_setExpr _ hN reference _).trans (if_pos rfl))
    have hg : ∀ m ∈ g.nodes, q₁.SameAt (q₁.setExpr e ⟨E.span, .boolean, g.form⟩) m := fun m hm =>
      sameAt_setExpr (has_of_expr? he₁) _ (by rintro rfl; exact hfresh _ hm (has_of_expr? he))
    exact .query (g := g.carry hg) he₀ hE hN₀ hform hP₀ hr₀ hf (fun m hm => hnew (hfresh m hm))
      ((expr?_setExpr _ he₁ _ _).trans (if_pos rfl))
      ((expr?_setExpr _ he₁ _ _).trans ((if_neg hne.symm).trans hN₁))
  | @property d field getter D F r content null q₁ q₂ hd _ hD _ _ hf hg hF hcontent _ hi hguard hq =>
    have hd₀ : p.decl? d = some D := Eq.trans hsame.symm hd
    have hfkid : .decl field ∈ p.kids (.decl d) := by
      simp [kids_decl hd₀, hD, DeclForm.owned, DeclForm.ownedDecls, hf]
    have hgkid : .decl getter ∈ p.kids (.decl d) := by
      simp [kids_decl hd₀, hD, DeclForm.owned, DeclForm.ownedDecls, hg]
    have hF₀ := (hkids _ hfkid).decl? hF (by simp [hcontent])
    have hne := hguard.ne hF hcontent
    have hF₁ := hq.old.decl? (hguard.decl?_of_ne hF hne)
    have hnull := hnew (mt hguard.preserves.has (hq.fresh (.expr null) (by simp)))
    obtain @⟨G, f, q₀, g, ds, es, hG, hfun, hq₀, hfresh⟩ := hguard
    have hG₀ := (hkids _ hgkid).decl? hG (by simp [hfun])
    have hG₁ := hq.old.decl? ((decl?_setDecl _ (hq₀.old.decl? hG) getter _).trans (if_pos rfl))
    have hg' : ∀ m ∈ g.nodes, q₀.SameAt (q₂.setDecl field (F.withInitializer null)) m := by
      intro m hm
      have hgetter : m ≠ .decl getter := by rintro rfl; exact hfresh _ hm (has_of_decl? hG)
      have hfield : m ≠ .decl field := by rintro rfl; exact hfresh _ hm (has_of_decl? hF)
      exact ((sameAt_setDecl (hq₀.old.has (has_of_decl? hG)) _ hgetter).trans
        (hq.old.sameAt (has_setDecl.2 (g.has m hm)))).trans (sameAt_setDecl (has_of_decl? hF₁) _ hfield)
    exact .property (g := g.carry hg') hd₀ hD hf hg hF₀ hcontent hi hnull (hq.expr? List.mem_cons_self)
      ((decl?_setDecl _ hF₁ _ _).trans (if_pos rfl)) hG₀ hfun (fun m hm => hnew (hfresh m hm))
      ((decl?_setDecl _ hF₁ _ _).trans ((if_neg hne.symm).trans hG₁))

/-- What a construct is does not depend on initializers and bodies. -/
theorem construct?_congr (hp : p.Closed) (halike : Alike p q) (hn : p.Has n) (hsame : p.SameAt q n) :
    w.construct? q n = w.construct? p n := by
  cases n with
  | decl d =>
    simp only [construct?, show q.decl? d = p.decl? d from hsame]
  | expr e =>
    obtain ⟨E, hE⟩ := has_expr_iff.1 hn
    simp only [construct?, show q.expr? e = p.expr? e from hsame, hE, Option.bind_eq_bind, Option.bind_some]
    cases hform : E.form with
    | getValue x =>
      have hx : p.Has (.decl x) := hp.has_of_expr hE (by simp [hform, ExprForm.mentioned, ExprForm.subject?])
      obtain ⟨X, hX⟩ := has_decl_iff.1 hx
      obtain ⟨X', hX', hsk⟩ := halike x X hX
      simp [hX, hX', Decl.isDeferredVariable_of_skeleton hsk]
    | call callee _ _ _ => cases callee <;> rfl
    | _ => rfl

/-- A rule that finds a construct as it was overwrites what it would have overwritten then. -/
theorem Touches.back {k : NodeId} (h : Touches w q n k) (hsame : p.SameAt q n)
    (hconstruct : w.construct? q n = w.construct? p n) (hkids : ∀ m ∈ p.kids n, Met w p q m) :
    Touches w p n k := by
  cases h with
  | var h => exact .var (hconstruct ▸ h)
  | read h => exact .read (hconstruct ▸ h)
  | query h => exact .query (hconstruct ▸ h)
  | @reference e reference E N callee dispatch subject extension args property h he hE hr hN =>
    have he₀ : p.expr? e = some E := Eq.trans hsame.symm he
    have hkid : .expr reference ∈ p.kids (.expr e) := by simp [kids_expr he₀, hE, ExprForm.owned, ExprForm.children]
    exact .reference (hconstruct ▸ h) he₀ hE ((hkids _ hkid).expr? hr hN) hN
  | @field d field D F r content h hd hD hr hF hcontent =>
    have hd₀ : p.decl? d = some D := Eq.trans hsame.symm hd
    have hkid : .decl field ∈ p.kids (.decl d) := by
      simp [kids_decl hd₀, hD, DeclForm.owned, DeclForm.ownedDecls, hr]
    exact .field (hconstruct ▸ h) hd₀ hD hr ((hkids _ hkid).decl? hF (by simp [hcontent])) hcontent
  | @getter d getter D G r f h hd hD hr hG hf =>
    have hd₀ : p.decl? d = some D := Eq.trans hsame.symm hd
    have hkid : .decl getter ∈ p.kids (.decl d) := by
      simp [kids_decl hd₀, hD, DeclForm.owned, DeclForm.ownedDecls, hr]
    exact .getter (hconstruct ▸ h) hd₀ hD hr ((hkids _ hkid).decl? hG (by simp [hf])) hf

/-! ## The first part of a postorder -/

/-- **A first part of a postorder has been lowered.** -/
structure Done (w : Lowering) (p : Program) (A : List NodeId) (s : Progress) : Prop where
  preserves : Preserves p s.program
  alike : Alike p s.program
  lowered : Lowered w p s.program (· ∈ A)
  tally : ∀ c, Construct.tally c s.stats = A.countP (w.construct? p · = some c)

theorem Done.nil (w : Lowering) (p : Program) : Done w p [] { program := p } where
  preserves := .refl p
  alike := .refl p
  lowered := ⟨rfl, rfl, id, fun h => absurd h List.not_mem_nil, fun _ _ => .refl p _⟩
  tally c := by cases c <;> rfl

namespace Done

variable {s t : Progress}

/-- A node that is not among those lowered is the same as before, unless its owner has been lowered. -/
theorem sameAt (h : Done w p A s) (hA : ∀ a ∈ A, p.kids a ⊆ A) (hn : p.Has n) (hnA : n ∉ A) :
    p.SameAt s.program n := by
  refine h.lowered.untouched hn fun a ha htouch => ?_
  rcases htouch.own_or_kid with ⟨rfl, -⟩ | ⟨hk, -⟩
  · exact hnA ha
  · exact hnA (hA a ha hk)

/-- What the next node owns has been changed only by rules of its own. -/
theorem met (h : Done w p A s) (hL : Enclosed p R L) (hA : A ⊆ L) (hn : n ∈ L) (hnA : n ∉ A) {k : NodeId}
    (hk : k ∈ p.kids n) : Met w p s.program k := by
  by_cases htouch : ∃ a ∈ A, Touches w p a k
  · obtain ⟨a, ha, hak⟩ := htouch
    rcases hak.own_or_kid with ⟨rfl, hproperty⟩ | ⟨hka, -⟩
    · obtain ⟨c, hc⟩ := Option.isSome_iff_exists.1 hak.construct?_isSome
      exact .inr ⟨c, fun h => hproperty (h ▸ hc), h.lowered.changed ha hc⟩
    · exact absurd (hL.owner_unique hn (hA ha) hk hka ▸ ha) hnA
  · exact .inl (h.lowered.untouched (hL.has k (hL.kids_mem hn hk)) fun a ha hak => htouch ⟨a, ha, hak⟩)

/-- **One more node is lowered.** -/
theorem step (h : Done w p A s) (hp : p.Closed) (hL : Enclosed p R L) (hAL : A ⊆ L) (hA : ∀ a ∈ A, p.kids a ⊆ A)
    (hn : n ∈ L) (hnA : n ∉ A) (hrule : w.rule n s = .ok () t) : Done w p (A ++ [n]) t := by
  have hhas := hL.has n hn
  have hsame := h.sameAt hA hhas hnA
  have hconstruct := construct?_congr (w := w) hp h.alike hhas hsame
  have outcome := rule_outcome (w := w) (h.preserves.closed hp) (h.preserves.has hhas)
  rw [hrule] at outcome
  cases outcome with
  | idle hnone =>
    rw [hconstruct] at hnone
    refine ⟨h.preserves, h.alike, ⟨h.lowered.name_eq, h.lowered.topLevel_eq, h.lowered.has, ?_, ?_⟩, ?_⟩
    · intro m c hm hc
      rcases List.mem_append.1 hm with hm | hm
      · exact h.lowered.changed hm hc
      · rw [List.mem_singleton.1 hm, hnone] at hc
        cases hc
    · intro m hm huntouched
      exact h.lowered.untouched hm fun a ha => huntouched a (List.mem_append_left _ ha)
    · intro c
      simp [h.tally c, List.countP_append, hnone]
  | @change c q hchange =>
    have hc : w.construct? p n = some c := hconstruct ▸ hchange.construct?_eq
    have hafter := hchange.after hp h.preserves h.alike hsame fun k hk => h.met hL hAL hn hnA hk
    have hother {k : NodeId} (hk : s.program.Has k) (hnot : ¬Touches w p n k) : s.program.SameAt q k :=
      hchange.sameAt hk fun htouch => hnot (htouch.back hsame hconstruct fun m hm => h.met hL hAL hn hnA hm)
    refine ⟨h.preserves.trans hchange.preserves, h.alike.trans hchange.alike, ⟨?_, ?_, ?_, ?_, ?_⟩, ?_⟩
    · exact hchange.preserves.name_eq.trans h.lowered.name_eq
    · exact hchange.preserves.topLevel_eq.trans h.lowered.topLevel_eq
    · exact fun hm => hchange.preserves.has (h.lowered.has hm)
    · intro m c' hm hc'
      rcases List.mem_append.1 hm with hm | hm
      · -- neither what has become of `m` nor what was built for it is overwritten by the rule for `n`
        refine (h.lowered.changed hm hc').carry hc' fun k hk hor => hother hk fun htouch => ?_
        rcases hor with hmk | hnew
        · exact hnA (Touches.unique hL (hAL hm) hn hmk htouch ▸ hm)
        · exact hnew (htouch.has hL hn)
      · obtain rfl := List.mem_singleton.1 hm
        rw [hc] at hc'
        obtain rfl := Option.some.inj hc'
        exact hafter
    · intro m hm huntouched
      have hbefore := h.lowered.untouched hm fun a ha => huntouched a (List.mem_append_left _ ha)
      have hnot := huntouched n (List.mem_append_right _ List.mem_cons_self)
      exact hbefore.trans (hother (h.preserves.has hm) hnot)
    · intro c'
      simp [Construct.tally_count, h.tally c', List.countP_append, hc]

end Done

/-! ## Whole traversals -/

section Traversal

variable {s t : Progress} {N B C ns : List NodeId}

theorem forM_cons (act : NodeId → LowerM Unit) (n : NodeId) (L : List NodeId) :
    (n :: L).forM act = act n >>= fun _ => L.forM act := rfl

theorem forM_map {α : Type} (f : α → NodeId) (act : NodeId → LowerM Unit) (as : List α) :
    (as.map f).forM act = as.forM fun a => act (f a) := by
  induction as with
  | nil => rfl
  | cons a as ih =>
    rw [List.map_cons, forM_cons, ih]
    rfl

theorem forM_append_ok {act : NodeId → LowerM Unit} (h : A.forM act s = .ok () t) :
    (A ++ B).forM act s = B.forM act t := by
  induction A generalizing s with
  | nil => cases h; rfl
  | cons n A ih =>
    rw [forM_cons] at h
    rw [List.cons_append, forM_cons]
    cases hn : act n s with
    | ok _ u =>
      rw [LowerM.bind_ok hn] at h ⊢
      exact ih h
    | error stop u =>
      rw [LowerM.bind_error hn] at h
      cases h

theorem forM_append_error {act : NodeId → LowerM Unit} {stop : Stop LoweringFault}
    (h : A.forM act s = .error stop t) : (A ++ B).forM act s = .error stop t := by
  induction A generalizing s with
  | nil => cases h
  | cons n A ih =>
    rw [forM_cons] at h
    rw [List.cons_append, forM_cons]
    cases hn : act n s with
    | ok _ u =>
      rw [LowerM.bind_ok hn] at h ⊢
      exact ih h
    | error stop' u =>
      rw [LowerM.bind_error hn] at h ⊢
      exact h

/-- **Lowering one node after another** lowers a longer part of the postorder. -/
theorem Done.run (hp : p.Closed) (hN : Postorder p R (A ++ (L ++ C))) (hd : (A ++ (L ++ C)).Nodup)
    (h : Done w p A s) (hrun : L.forM w.rule s = .ok () t) : Done w p (A ++ L) t := by
  induction L generalizing A s with
  | nil =>
    cases hrun
    rwa [List.append_nil]
  | cons n L ih =>
    have hnA : n ∉ A := fun hmem => (List.nodup_append.1 hd).2.2 n hmem n List.mem_cons_self rfl
    rw [forM_cons] at hrun
    cases hn : w.rule n s with
    | error stop u =>
      rw [LowerM.bind_error hn] at hrun
      cases hrun
    | ok _ u =>
      rw [LowerM.bind_ok hn] at hrun
      have hu := h.step hp (hN.enclosed hd) (List.subset_append_left A _) (hN.kids_subset_left hd) (by simp) hnA hn
      have hcons : A ++ (n :: L ++ C) = (A ++ [n]) ++ (L ++ C) := by simp
      rw [hcons] at hN hd
      have ht := ih hN hd hu hrun
      rwa [List.append_assoc] at ht

/-- **A traversal lowers node by node**, in the postorder of the original program. -/
theorem forM_lowerNode (hp : p.Closed) (hns : Postorder p ns L) {depth : Nat} (hdepth : L.length ≤ depth)
    (hN : Postorder p R (A ++ (L ++ C))) (hd : (A ++ (L ++ C)).Nodup) (h : Done w p A s) :
    ns.forM (w.lowerNode depth) s = L.forM w.rule s := by
  induction hns generalizing A C s depth with
  | nil => rfl
  | @cons n rest B M hn _ _ ih₁ ih₂ =>
    simp only [List.length_append, List.length_cons] at hdepth
    obtain ⟨depth, rfl⟩ : ∃ k, depth = k + 1 := ⟨depth - 1, by omega⟩
    have hB : A ++ ((B ++ n :: M) ++ C) = A ++ (B ++ (n :: M ++ C)) := by simp
    have hM : A ++ ((B ++ n :: M) ++ C) = (A ++ (B ++ [n])) ++ (M ++ C) := by simp
    have hnA : n ∉ A := fun hmem => (List.nodup_append.1 hd).2.2 n hmem n (by simp) rfl
    have howned : owned n s = .ok (p.kids n) s := by
      rw [owned_run (h.preserves.has hn), (h.sameAt (hN.kids_subset_left hd) hn hnA).kids_eq]
    have hkids := ih₁ (by omega : B.length ≤ depth) (hB ▸ hN) (hB ▸ hd) h
    rw [forM_cons, lowerNode]
    cases hrunB : B.forM w.rule s with
    | error stop u =>
      rw [forM_append_error hrunB]
      refine LowerM.bind_error ?_
      rw [LowerM.bind_ok howned]
      exact LowerM.bind_error (hkids.trans hrunB)
    | ok _ u =>
      have hu := h.run hp (hB ▸ hN) (hB ▸ hd) hrunB
      rw [forM_append_ok hrunB, forM_cons]
      have hnode : (owned n >>= fun ks => ks.forM (w.lowerNode depth) >>= fun _ => w.rule n) s = w.rule n u := by
        rw [LowerM.bind_ok howned, LowerM.bind_ok (hkids.trans hrunB)]
      cases hrule : w.rule n u with
      | error stop t =>
        rw [LowerM.bind_error hrule]
        exact LowerM.bind_error (hnode.trans hrule)
      | ok _ t =>
        rw [LowerM.bind_ok hrule, LowerM.bind_ok (hnode.trans hrule)]
        have hrun : (B ++ [n]).forM w.rule s = .ok () t := by
          rw [forM_append_ok hrunB, forM_cons, LowerM.bind_ok hrule]
          rfl
        have ht : Done w p (A ++ (B ++ [n])) t :=
          h.run (C := M ++ C) hp (by simpa using hN) (by simpa using hd) hrun
        exact ih₂ (by omega) (hM ▸ hN) (hM ▸ hd) ht

/-- **Lowering a forest** lowers each of its nodes once, after those that it owns. -/
theorem lowerAll_eq (hp : p.Closed) (hf : p.IsForest) :
    w.lowerAll { program := p } = p.nodes.forM w.rule { program := p } := by
  obtain ⟨hL, hd⟩ := postorder_nodes hf
  have hdepth : p.nodes.length ≤ depthBound p := by
    have := length_le_size hd fun _ => hL.has
    unfold depthBound
    omega
  have hN : Postorder p p.outermost ([] ++ (p.nodes ++ [])) := by rwa [List.append_nil]
  rw [← forM_lowerNode hp hL hdepth hN (by rwa [List.append_nil]) (.nil w p), outermost, forM_map]
  rfl

/-- A lowering that succeeds has lowered every node of the program. -/
theorem done_of_lower (hp : p.Closed) (hf : p.IsForest) {stats : LoweringStats} (h : w.lower p = (.ok stats, q)) :
    Done w p p.nodes ⟨q, stats⟩ := by
  obtain ⟨hL, hd⟩ := postorder_nodes hf
  rw [lower] at h
  cases hall : w.lowerAll { program := p } with
  | error stop s =>
    rw [hall] at h
    cases (Prod.mk.inj h).1
  | ok _ s =>
    rw [hall] at h
    cases h
    rw [lowerAll_eq hp hf] at hall
    have hN : Postorder p p.outermost ([] ++ (p.nodes ++ [])) := by rwa [List.append_nil]
    exact (Done.nil w p).run hp hN (by rwa [List.append_nil]) hall

end Traversal

/-- **What a successful lowering has done.**  In a closed program that is a forest, every deferred variable, read of
one, query and genuine deferred property that can be reached has become what `After` says, all other nodes are
what they were, and no handle is lost.  The statistics count each of these constructs once. -/
theorem lowered_of_lower (hp : p.Closed) (hf : p.findShared = .ok none) {stats : LoweringStats}
    (h : w.lower p = (.ok stats, q)) :
    Lowered w p q p.Reachable ∧ ∃ L : List NodeId, L.Nodup ∧ (∀ n, n ∈ L ↔ p.Reachable n) ∧
      ∀ c, Construct.tally c stats = L.countP (w.construct? p · = some c) := by
  have hforest := findShared_eq_none_iff.1 hf
  have hdone := done_of_lower hp hforest h
  have hreach : (fun n => n ∈ p.nodes) = p.Reachable := funext fun n => propext (mem_nodes_iff hforest)
  exact ⟨hreach ▸ hdone.lowered, p.nodes, nodup_nodes hforest, fun n => mem_nodes_iff hforest, hdone.tally⟩

/-- The sample program has one variable, two reads of it, one query and one property. -/
theorem lowered_of_lower_sample :
    sample.Closed ∧ sample.findShared = .ok none ∧
      (Sample.lowering.lower sample).1 = .ok { vars := 1, reads := 2, queries := 1, properties := 1 } ∧
      Lowered Sample.lowering sample (Sample.lowering.lower sample).2 sample.Reachable :=
  have hstats : (Sample.lowering.lower sample).1 = .ok { vars := 1, reads := 2, queries := 1, properties := 1 } := by
    decide +kernel
  have hlower : Sample.lowering.lower sample =
      (.ok { vars := 1, reads := 2, queries := 1, properties := 1 }, (Sample.lowering.lower sample).2) := by
    rw [← hstats]
  ⟨by decide, by decide +kernel, hstats, (lowered_of_lower (by decide) (by decide +kernel) hlower).1⟩

end Lowering

end DeferredInit
