import DeferredInit.Proofs.Lowering.Steps
import DeferredInit.Proofs.Program.Sample

/-!
# Lowering keeps a forest

Rules move nodes about and build new ones, and a traversal may stop between any two of them, or in the middle
of one.  At all these moments the program is still closed, and what was enclosed still is: `Preserves` says so
of two programs, `Change.preserves` proves it of one rule and `lowerNode_preserves` of a traversal.

No rule has to know where in the program it is applied.  In particular a query may be replaced at a node that
nothing owns: then its reference is owned by nothing enclosed either, and where the receiver goes makes no
difference.
-/

namespace DeferredInit

open Program
open scoped List

/-! ## Initializers -/

theorem DeclForm.mem_mentioned_withInitializer {form : DeclForm} {e : ExprId} {n : NodeId}
    (h : n ∈ (form.withInitializer e).mentioned) : n ∈ [NodeId.expr e] ∨ n ∈ form.mentioned := by
  cases form <;> grind [withInitializer, mentioned]

theorem DeclForm.owned_withInitializer (form : DeclForm) (e : ExprId) :
    (form.withInitializer e).owned <+~ [.expr e] ++ form.owned := by
  cases form with
  | var _ | field _ => exact (List.sublist_append_left [NodeId.expr e] _).subperm
  | _ => exact (List.sublist_cons_self _ _).subperm

/-! ## What all changes preserve -/

/-- **What lowering preserves**: the name, the outermost declarations, all handles, that the program is closed, and that
nodes are enclosed. -/
structure Preserves (p q : Program) : Prop where
  name_eq : q.name = p.name
  topLevel_eq : q.topLevel = p.topLevel
  has : ∀ {n}, p.Has n → q.Has n
  closed : p.Closed → q.Closed
  enclosed : ∀ {R L}, Enclosed p R L → ∃ M, Enclosed q R M

variable {w : Lowering} {p q : Program} {S : List NodeId} {ds : List (DeclId × Decl)} {es : List (ExprId × Expr)}

namespace Preserves

theorem refl (p : Program) : Preserves p p := ⟨rfl, rfl, id, id, fun h => ⟨_, h⟩⟩

theorem trans {r : Program} (h : Preserves p q) (h' : Preserves q r) : Preserves p r where
  name_eq := h'.name_eq.trans h.name_eq
  topLevel_eq := h'.topLevel_eq.trans h.topLevel_eq
  has hn := h'.has (h.has hn)
  closed hp := h'.closed (h.closed hp)
  enclosed hL := by
    obtain ⟨M, hM⟩ := h.enclosed hL
    exact h'.enclosed hM

theorem isForest (h : Preserves p q) (hp : p.IsForest) : q.IsForest := by
  obtain ⟨L, hL⟩ := hp
  obtain ⟨M, hM⟩ := h.enclosed hL
  refine ⟨M, ?_⟩
  rw [outermost, h.topLevel_eq]
  exact hM

/-- Nodes are built, and a declaration is overwritten that takes them. -/
theorem setDecl (hq : Assembles p [] q S ds es) {d : DeclId} {D new : Decl} (hd : p.decl? d = some D)
    (hmentioned : ∀ n ∈ new.form.mentioned, n ∈ S ∨ n ∈ D.form.mentioned)
    (howned : new.form.owned <+~ S ++ D.form.owned) : Preserves p (q.setDecl d new) := by
  have hd' := hq.old.decl? hd
  refine ⟨hq.old.name_eq, hq.old.topLevel_eq, fun hn => has_setDecl.2 (hq.old.has hn), fun hp => ?_, fun {R L} hL => ?_⟩
  · refine (hq.closed (by simp) hp).setDecl fun n hn => ?_
    rcases hmentioned n hn with hn | hn
    · exact hq.has (by simp) n hn
    · exact hq.old.has (hp.has_of_decl hd hn)
  · obtain ⟨M, -, hM⟩ := (hq.frame R).enclosed hL
    refine ⟨M, hM.give (n := .decl d) (fun _ => has_setDecl) (fun m hm => ?_) ?_⟩
    · rw [kids_setDecl (has_of_decl? hd'), if_neg hm]
    · rw [kids_setDecl (has_of_decl? hd'), if_pos rfl, kids_decl hd']
      exact howned

/-- Nodes are built, and an expression is overwritten that takes them. -/
theorem setExpr (hq : Assembles p [] q S ds es) {e : ExprId} {E new : Expr} (he : p.expr? e = some E)
    (hmentioned : ∀ n ∈ new.form.mentioned, n ∈ S ∨ n ∈ E.form.mentioned)
    (howned : new.form.owned <+~ S ++ E.form.owned) : Preserves p (q.setExpr e new) := by
  have he' := hq.old.expr? he
  refine ⟨hq.old.name_eq, hq.old.topLevel_eq, fun hn => has_setExpr.2 (hq.old.has hn), fun hp => ?_, fun {R L} hL => ?_⟩
  · refine (hq.closed (by simp) hp).setExpr fun n hn => ?_
    rcases hmentioned n hn with hn | hn
    · exact hq.has (by simp) n hn
    · exact hq.old.has (hp.has_of_expr he hn)
  · obtain ⟨M, -, hM⟩ := (hq.frame R).enclosed hL
    refine ⟨M, hM.give (n := .expr e) (fun _ => has_setExpr) (fun m hm => ?_) ?_⟩
    · rw [kids_setExpr (has_of_expr? he'), if_neg hm]
    · rw [kids_setExpr (has_of_expr? he'), if_pos rfl, kids_expr he']
      exact howned

/-- Storage gets an initializer. -/
theorem withInitializer {null : ExprId} (hq : Assembles p [] q [.expr null] ds es) {d : DeclId} {D : Decl}
    (hd : p.decl? d = some D) : Preserves p (q.setDecl d (D.withInitializer null)) :=
  setDecl hq hd (fun _ => DeclForm.mem_mentioned_withInitializer) (D.form.owned_withInitializer null)

end Preserves

/-! ## The rules -/

namespace Lowering

/-- The receiver of a query moves from the reference to what takes the query's place. -/
theorem moved_preserves {e reference : ExprId} {E N N' new : Expr} {subject : Option ExprId} {value null : ExprId}
    (he : p.expr? e = some E) (hE : .expr reference ∈ E.form.owned) (hN : p.expr? reference = some N)
    (hNowned : N.form.owned = subject.toList.map .expr) (hN' : N'.form.owned = [])
    (hmentioned : ∀ n ∈ N'.form.mentioned, n ∈ N.form.mentioned) (hne : e ≠ reference)
    (hq : Assembles (p.setExpr reference N') (subject.toList.map .expr) q [.expr null, .expr value] ds es)
    (hnew : new.form.owned = [.expr value, .expr null]) (hnew' : new.form.mentioned = [.expr value, .expr null]) :
    Preserves p (q.setExpr e new) := by
  have hr := has_of_expr? hN
  have he' : (p.setExpr reference N').expr? e = some E := by rw [expr?_setExpr _ hN, if_neg hne, he]
  have heq := has_of_expr? (hq.old.expr? he')
  have hreference (m : NodeId) (hm : m ≠ .expr reference) : (p.setExpr reference N').kids m = p.kids m := by
    rw [kids_setExpr hr, if_neg hm]
  have hquery (m : NodeId) (hm : m ≠ .expr e) : (q.setExpr e new).kids m = q.kids m := by
    rw [kids_setExpr heq, if_neg hm]
  refine ⟨hq.old.name_eq, hq.old.topLevel_eq, fun hn => has_setExpr.2 (hq.old.has (has_setExpr.2 hn)), fun hp => ?_,
    fun {R L} hL => ?_⟩
  · have hp₁ := hp.setExpr (e := reference) (E := N') fun n hn => hp.has_of_expr hN (hmentioned n hn)
    have hS : ∀ n ∈ subject.toList.map NodeId.expr, (p.setExpr reference N').Has n := fun n hn =>
      has_setExpr.2 (hp.has_of_expr hN (ExprForm.mem_mentioned_of_mem_owned (by rwa [hNowned])))
    refine (hq.closed hS hp₁).setExpr fun n hn => hq.has hS n ?_
    rw [hnew'] at hn
    exact (List.Perm.swap _ _ []).mem_iff.1 hn
  · by_cases hmem : .expr reference ∈ L
    · have h₁ : Enclosed (p.setExpr reference N') (subject.toList.map .expr ++ R) L := by
        refine hL.exchange hmem (fun _ => has_setExpr) hreference (List.Perm.subperm ?_)
        rw [kids_setExpr hr, if_pos rfl, hN', kids_expr hN, hNowned, List.append_nil]
        exact List.perm_append_comm
      obtain ⟨M, -, hM⟩ := (hq.frame R).enclosed h₁
      refine ⟨M, hM.give (n := .expr e) (fun _ => has_setExpr) hquery ?_⟩
      rw [kids_setExpr heq, if_pos rfl, hnew]
      exact ((List.Perm.swap _ _ []).subperm.trans (List.sublist_append_left _ _).subperm)
    · have hemem : .expr e ∉ L := fun h => hmem (hL.kids_mem h (by rw [kids_expr he]; exact hE))
      have h₁ := hL.off hmem (fun _ => has_setExpr) hreference
      exact ⟨L, (h₁.extend hq.old).off hemem (fun _ => has_setExpr) hquery⟩

theorem GuardsGetter.preserves {getter field : DeclId} {ty : Ty} {name : String}
    (h : GuardsGetter w p getter field ty name q) : Preserves p q := by
  obtain @⟨G, f, q, g, ds, es, hG, hf, hq, -⟩ := h
  refine .setDecl hq hG (fun n hn => ?_) ?_
  · simp only [hf, DeclForm.mentioned, Option.toList_some] at hn ⊢
    grind
  · rw [hf]
    simp only [DeclForm.owned, DeclForm.ownedDecls, DeclForm.ownedExprs, Option.toList_some, List.map_cons, List.map_nil]
    exact List.perm_append_comm.subperm.trans
      ((List.subperm_append_left _).2 (List.sublist_append_left _ _).subperm)

/-- **A rule preserves** what lowering preserves. -/
theorem Change.preserves {n : NodeId} {c : Construct} (h : Change w p n c q) : Preserves p q := by
  cases h with
  | var hd _ _ _ _ hq => exact .withInitializer hq hd
  | read he _ _ _ _ _ hq _ =>
    refine .setExpr hq he (fun n hn => .inl ?_) ?_
    · exact (List.Perm.swap _ _ []).mem_iff.1 hn
    · exact (List.Perm.swap _ _ []).subperm.trans (List.sublist_append_left _ _).subperm
  | @query e reference E N _ subject _ property _ _ _ _ q' g _ he hE hN hform _ _ _ _ hq _ =>
    refine moved_preserves he ?_ hN ?_ rfl ?_ (call_ne_reference he hE hN hform) hq rfl rfl
    · simp [hE, ExprForm.owned, ExprForm.children]
    · simp [hform, ExprForm.owned, ExprForm.children]
    · simp [hform, ExprForm.mentioned, ExprForm.subject?, ExprForm.children]
  | property _ _ _ _ _ _ _ hF hc _ _ hguard hq =>
    exact hguard.preserves.trans (.withInitializer hq (hguard.decl?_of_ne hF (hguard.ne hF hc)))

/-! ## The traversal -/

/-- How far a lowering has come when it ends, with success or without. -/
def final {α : Type} : EStateM.Result (Stop LoweringFault) Progress α → Progress
  | .ok _ s => s
  | .error _ s => s

theorem rule_preserves {s : Progress} (hp : s.program.Closed) {n : NodeId} (hn : s.program.Has n) :
    Preserves s.program (final (w.rule n s)).program := by
  have h := rule_outcome (w := w) hp hn
  generalize w.rule n s = r at h
  cases h with
  | idle _ | fault _ => exact .refl _
  | change h => exact h.preserves
  | late _ h => exact h.preserves

/-- Doing one thing after another preserves what each of them preserves. -/
theorem bind_preserves {α β : Type} {act : LowerM α} {next : α → LowerM β} {s : Progress}
    (h : Preserves s.program (final (act s)).program)
    (hnext : ∀ a t, act s = .ok a t → Preserves t.program (final (next a t)).program) :
    Preserves s.program (final ((act >>= next) s)).program := by
  cases hact : act s with
  | ok a t =>
    rw [LowerM.bind_ok hact]
    rw [hact] at h
    exact h.trans (hnext a t hact)
  | error stop t =>
    rw [LowerM.bind_error hact]
    rwa [hact] at h

theorem forM_preserves {α : Type} (node : α → NodeId) {act : α → LowerM Unit}
    (hact : ∀ a (s : Progress), s.program.Closed → s.program.Has (node a) →
      Preserves s.program (final (act a s)).program)
    (as : List α) (s : Progress) (hp : s.program.Closed) (has : ∀ a ∈ as, s.program.Has (node a)) :
    Preserves s.program (final (as.forM act s)).program := by
  induction as generalizing s with
  | nil => exact .refl _
  | cons a as ih =>
    show Preserves _ (final ((act a >>= fun _ => as.forM act) s)).program
    have h := hact a s hp (has a List.mem_cons_self)
    refine bind_preserves h fun _ t hok => ?_
    rw [hok] at h
    exact ih t (h.closed hp) fun b hb => h.has (has b (List.mem_cons_of_mem _ hb))

theorem owned_run {s : Progress} {n : NodeId} (hn : s.program.Has n) : owned n s = .ok (s.program.kids n) s := by
  have hget : (get : LowerM Progress) s = .ok s s := rfl
  simp [owned, bind, EStateM.bind, hget, owned?_eq_some hn, pure, EStateM.pure]

/-- **A traversal preserves** what lowering preserves, from wherever it starts and however it ends. -/
theorem lowerNode_preserves (depth : Nat) (n : NodeId) (s : Progress) (hp : s.program.Closed) (hn : s.program.Has n) :
    Preserves s.program (final (w.lowerNode depth n s)).program := by
  induction depth generalizing n s with
  | zero => exact .refl _
  | succ depth ih =>
    rw [lowerNode, LowerM.bind_ok (owned_run hn)]
    have h := forM_preserves id ih (s.program.kids n) s hp fun k hk => hp.has_of_mem_kids hk
    refine bind_preserves h fun _ t hok => ?_
    rw [hok] at h
    exact rule_preserves (h.closed hp) (h.has hn)

/-- **Lowering preserves** what its rules preserve, whether it comes to its end or stops halfway. -/
theorem lower_preserves (hp : p.Closed) : Preserves p (w.lower p).2 := by
  have h : Preserves p (final (w.lowerAll { program := p })).program :=
    forM_preserves .decl (fun d => lowerNode_preserves (depthBound p) (.decl d)) p.topLevel
      { program := p } hp fun d hd => hp.has_of_topLevel hd
  rw [lower]
  cases hall : w.lowerAll { program := p } with
  | ok _ s | error _ s => rwa [hall] at h

/-- **Lowering keeps a forest.**  If the search finds no node with two owners before a closed program is lowered,
it finds none afterwards, even if the lowering stopped halfway. -/
theorem findShared_lower (hp : p.Closed) (hf : p.findShared = .ok none) : (w.lower p).2.findShared = .ok none :=
  findShared_eq_none_iff.2 ((lower_preserves hp).isForest (findShared_eq_none_iff.1 hf))

/-- The sample program is a forest, and stays one. -/
theorem findShared_lower_sample :
    sample.Closed ∧ sample.findShared = .ok none ∧ (Sample.lowering.lower sample).2.findShared = .ok none :=
  ⟨by decide, by decide +kernel, findShared_lower (by decide) (by decide +kernel)⟩

end Lowering

end DeferredInit
