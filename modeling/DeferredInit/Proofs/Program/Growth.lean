import DeferredInit.Proofs.Program.Forest

/-!
# Programs that grow

New code is built like an expression on a stack: each new node takes the nodes that it owns from the top and
is put there itself, so that nothing built is ever owned twice.  `Assembles p S q T` says that `q` is `p` with
such nodes added, where the stack was `S` before and is `T` afterwards.  What follows from it is all that the
rules of a lowering need of a builder: old nodes stay as they are, the program stays closed, and nodes that
were enclosed with `S` are enclosed with `T` (`Assembles.enclosed`).

Overwriting a node gives back what it owned and takes what it owns afterwards; `Enclosed.exchange` keeps the
accounts.
-/

namespace DeferredInit

open scoped List

namespace Program

variable {p q : Program} {n : NodeId} {R S T L : List NodeId}

/-! ## Nodes after a change -/

theorem has_pushExpr {E : Expr} : (p.pushExpr E).Has n ↔ n = .expr p.nextExpr ∨ p.Has n := by
  cases n with
  | decl d => simp [Has, pushExpr]
  | expr e =>
    obtain ⟨i⟩ := e
    simp only [Has, pushExpr, nextExpr, Array.size_push, NodeId.expr.injEq, ExprId.mk.injEq]
    omega

theorem has_pushDecl {D : Decl} : (p.pushDecl D).Has n ↔ n = .decl p.nextDecl ∨ p.Has n := by
  cases n with
  | expr e => simp [Has, pushDecl]
  | decl d =>
    obtain ⟨i⟩ := d
    simp only [Has, pushDecl, nextDecl, Array.size_push, NodeId.decl.injEq, DeclId.mk.injEq]
    omega

@[simp] theorem has_setExpr {e : ExprId} {E : Expr} : (p.setExpr e E).Has n ↔ p.Has n := by
  cases n <;> simp [Has, setExpr]

@[simp] theorem has_setDecl {d : DeclId} {D : Decl} : (p.setDecl d D).Has n ↔ p.Has n := by
  cases n <;> simp [Has, setDecl]

theorem not_has_nextExpr : ¬p.Has (.expr p.nextExpr) := Nat.lt_irrefl _

theorem not_has_nextDecl : ¬p.Has (.decl p.nextDecl) := Nat.lt_irrefl _

theorem kids_pushExpr_self {E : Expr} : (p.pushExpr E).kids (.expr p.nextExpr) = E.form.owned := by
  simp [kids, owned?]

theorem kids_pushDecl_self {D : Decl} : (p.pushDecl D).kids (.decl p.nextDecl) = D.form.owned := by
  simp [kids, owned?]

theorem kids_setExpr {e : ExprId} (he : p.Has (.expr e)) (E : Expr) :
    (p.setExpr e E).kids n = if n = .expr e then E.form.owned else p.kids n := by
  obtain ⟨old, hold⟩ := has_expr_iff.1 he
  cases n with
  | decl d => rfl
  | expr e' =>
    simp only [kids, owned?, expr?_setExpr p hold, NodeId.expr.injEq]
    split <;> rfl

theorem kids_setDecl {d : DeclId} (hd : p.Has (.decl d)) (D : Decl) :
    (p.setDecl d D).kids n = if n = .decl d then D.form.owned else p.kids n := by
  obtain ⟨old, hold⟩ := has_decl_iff.1 hd
  cases n with
  | expr e => rfl
  | decl d' =>
    simp only [kids, owned?, decl?_setDecl p hold, NodeId.decl.injEq]
    split <;> rfl

/-! ## More nodes -/

/-- **A program with more nodes**: what the smaller program has is in the larger one as it is. -/
structure Extends (p q : Program) : Prop where
  name_eq : q.name = p.name
  topLevel_eq : q.topLevel = p.topLevel
  decl?_eq : ∀ d, p.Has (.decl d) → q.decl? d = p.decl? d
  expr?_eq : ∀ e, p.Has (.expr e) → q.expr? e = p.expr? e

namespace Extends

theorem refl (p : Program) : Extends p p := ⟨rfl, rfl, fun _ _ => rfl, fun _ _ => rfl⟩

theorem decl? (h : Extends p q) {d : DeclId} {D : Decl} (hd : p.decl? d = some D) : q.decl? d = some D :=
  (h.decl?_eq d (has_of_decl? hd)).trans hd

theorem expr? (h : Extends p q) {e : ExprId} {E : Expr} (he : p.expr? e = some E) : q.expr? e = some E :=
  (h.expr?_eq e (has_of_expr? he)).trans he

theorem has (h : Extends p q) (hn : p.Has n) : q.Has n := by
  cases n with
  | decl d =>
    obtain ⟨D, hD⟩ := has_decl_iff.1 hn
    exact has_of_decl? (h.decl? hD)
  | expr e =>
    obtain ⟨E, hE⟩ := has_expr_iff.1 hn
    exact has_of_expr? (h.expr? hE)

theorem kids_eq (h : Extends p q) (hn : p.Has n) : q.kids n = p.kids n := by
  cases n with
  | decl d => simp [kids, owned?, h.decl?_eq d hn]
  | expr e => simp [kids, owned?, h.expr?_eq e hn]

theorem trans {r : Program} (h : Extends p q) (h' : Extends q r) : Extends p r where
  name_eq := h'.name_eq.trans h.name_eq
  topLevel_eq := h'.topLevel_eq.trans h.topLevel_eq
  decl?_eq d hd := (h'.decl?_eq d (h.has hd)).trans (h.decl?_eq d hd)
  expr?_eq e he := (h'.expr?_eq e (h.has he)).trans (h.expr?_eq e he)

theorem pushExpr (p : Program) (E : Expr) : Extends p (p.pushExpr E) where
  name_eq := rfl
  topLevel_eq := rfl
  decl?_eq _ _ := rfl
  expr?_eq e he := by
    have hne : e ≠ p.nextExpr := by rintro rfl; exact not_has_nextExpr he
    simp [hne]

theorem pushDecl (p : Program) (D : Decl) : Extends p (p.pushDecl D) where
  name_eq := rfl
  topLevel_eq := rfl
  decl?_eq d hd := by
    have hne : d ≠ p.nextDecl := by rintro rfl; exact not_has_nextDecl hd
    simp [hne]
  expr?_eq _ _ := rfl

end Extends

/-! ## Closed programs stay closed -/

namespace Closed

theorem pushExpr (hp : p.Closed) {E : Expr} (hE : ∀ n ∈ E.form.mentioned, p.Has n) : (p.pushExpr E).Closed := by
  have hmono : ∀ {n}, p.Has n → (p.pushExpr E).Has n := (Extends.pushExpr p E).has
  refine ⟨fun d hd => hmono (hp.1 d hd), fun D hD n hn => hmono (hp.2.1 D hD n hn), ?_⟩
  intro E' hE' n hn
  rcases Array.mem_push.1 hE' with hE' | rfl
  · exact hmono (hp.2.2 E' hE' n hn)
  · exact hmono (hE n hn)

theorem pushDecl (hp : p.Closed) {D : Decl} (hD : ∀ n ∈ D.form.mentioned, p.Has n) : (p.pushDecl D).Closed := by
  have hmono : ∀ {n}, p.Has n → (p.pushDecl D).Has n := (Extends.pushDecl p D).has
  refine ⟨fun d hd => hmono (hp.1 d hd), ?_, fun E hE n hn => hmono (hp.2.2 E hE n hn)⟩
  intro D' hD' n hn
  rcases Array.mem_push.1 hD' with hD' | rfl
  · exact hmono (hp.2.1 D' hD' n hn)
  · exact hmono (hD n hn)

theorem setExpr (hp : p.Closed) {e : ExprId} {E : Expr} (hE : ∀ n ∈ E.form.mentioned, p.Has n) :
    (p.setExpr e E).Closed := by
  refine ⟨fun d hd => has_setExpr.2 (hp.1 d hd), fun D hD n hn => has_setExpr.2 (hp.2.1 D hD n hn),
    fun E' hE' n hn => has_setExpr.2 ?_⟩
  rcases Array.mem_or_eq_of_mem_setIfInBounds hE' with hE' | rfl
  · exact hp.2.2 E' hE' n hn
  · exact hE n hn

theorem setDecl (hp : p.Closed) {d : DeclId} {D : Decl} (hD : ∀ n ∈ D.form.mentioned, p.Has n) :
    (p.setDecl d D).Closed := by
  refine ⟨fun d' hd' => has_setDecl.2 (hp.1 d' hd'), fun D' hD' n hn => has_setDecl.2 ?_,
    fun E hE n hn => has_setDecl.2 (hp.2.2 E hE n hn)⟩
  rcases Array.mem_or_eq_of_mem_setIfInBounds hD' with hD' | rfl
  · exact hp.2.1 D' hD' n hn
  · exact hD n hn

end Closed

/-! ## Enclosed nodes stay enclosed -/

namespace Enclosed

theorem mono (h : Enclosed p R L) (hS : S <+~ R) : Enclosed p S L :=
  ⟨h.nodup, h.has, ((List.subperm_append_right _).2 hS).trans h.subperm⟩

theorem congr (h : Enclosed p R L) (hhas : ∀ n ∈ L, q.Has n) (hkids : ∀ n ∈ L, q.kids n = p.kids n) :
    Enclosed q R L := by
  refine ⟨h.nodup, hhas, ?_⟩
  rw [List.flatMap_congr hkids]
  exact h.subperm

theorem extend (h : Enclosed p R L) (hq : Extends p q) : Enclosed q R L :=
  h.congr (fun n hn => hq.has (h.has n hn)) fun n hn => hq.kids_eq (h.has n hn)

/-- A new node takes what it owns from the stack and is put there itself. -/
theorem push (h : Enclosed p ((q.kids n).reverse ++ R) L) (hq : Extends p q) (hold : ¬p.Has n) (hnew : q.Has n) :
    Enclosed q (n :: R) (n :: L) := by
  have hn : n ∉ L := fun hn => hold (h.has n hn)
  refine ⟨List.nodup_cons.2 ⟨hn, h.nodup⟩, ?_, ?_⟩
  · intro m hm
    rcases List.mem_cons.1 hm with rfl | hm
    · exact hnew
    · exact hq.has (h.has m hm)
  · have hkids : (L.flatMap q.kids) = L.flatMap p.kids :=
      List.flatMap_congr fun m hm => hq.kids_eq (h.has m hm)
    rw [List.flatMap_cons, hkids, List.cons_append, List.subperm_cons]
    refine List.Perm.subperm_right ?_ |>.1 h.subperm
    rw [List.perm_iff_count]
    intro k
    simp only [List.count_append, List.count_reverse]
    omega

/-- An enclosed node gives back what it owned and takes what it owns afterwards. -/
theorem exchange (h : Enclosed p R L) (hn : n ∈ L) (hhas : ∀ m, q.Has m ↔ p.Has m)
    (hkids : ∀ m, m ≠ n → q.kids m = p.kids m) (hex : S ++ q.kids n <+~ R ++ p.kids n) : Enclosed q S L := by
  refine ⟨h.nodup, fun m hm => (hhas m).2 (h.has m hm), ?_⟩
  obtain ⟨A, B, rfl⟩ := List.append_of_mem hn
  have hnot : n ∉ A ++ B := (List.nodup_cons.1 (List.perm_middle.nodup_iff.1 h.nodup)).1
  have hAB : (A ++ B).flatMap q.kids = (A ++ B).flatMap p.kids :=
    List.flatMap_congr fun m hm => hkids m (by rintro rfl; exact hnot hm)
  have split (r : Program) (U : List NodeId) :
      U ++ (A ++ n :: B).flatMap r.kids ~ (U ++ r.kids n) ++ (A ++ B).flatMap r.kids := by
    rw [List.perm_iff_count]
    intro k
    simp only [List.count_append, List.flatMap_append, List.flatMap_cons]
    omega
  have hsub : (S ++ q.kids n) ++ (A ++ B).flatMap p.kids <+~ (R ++ p.kids n) ++ (A ++ B).flatMap p.kids :=
    (List.subperm_append_right _).2 hex
  rw [← hAB] at hsub
  rw [(split q S).subperm_right]
  refine hsub.trans ?_
  rw [hAB, ← (split p R).subperm_right]
  exact h.subperm

/-- A node that is not enclosed can change as it will. -/
theorem off (h : Enclosed p R L) (hn : n ∉ L) (hhas : ∀ m, q.Has m ↔ p.Has m)
    (hkids : ∀ m, m ≠ n → q.kids m = p.kids m) : Enclosed q R L :=
  h.congr (fun m hm => (hhas m).2 (h.has m hm)) fun m hm => hkids m (by rintro rfl; exact hn hm)

/-- A node can be given more to own from the stack, whether it is enclosed or not. -/
theorem give (h : Enclosed p (S ++ R) L) (hhas : ∀ m, q.Has m ↔ p.Has m)
    (hkids : ∀ m, m ≠ n → q.kids m = p.kids m) (hn : q.kids n <+~ S ++ p.kids n) : Enclosed q R L := by
  by_cases hmem : n ∈ L
  · refine h.exchange hmem hhas hkids ?_
    refine ((List.subperm_append_left R).2 hn).trans (List.Perm.subperm ?_)
    rw [← List.append_assoc]
    exact List.perm_append_comm.append_right _
  · exact (h.off hmem hhas hkids).mono (List.sublist_append_right S R).subperm

end Enclosed

/-! ## Assembling -/

/-- **Assembling code**: `q` is `p` with new nodes, each of which took what it owns from the stack, which was
`S` and has become `T`.  The new declarations and expressions are `ds` and `es`. -/
inductive Assembles (p : Program) (S : List NodeId) :
    Program → List NodeId → List (DeclId × Decl) → List (ExprId × Expr) → Prop
  | start : Assembles p S p S [] []
  | expr {q : Program} {T : List NodeId} {ds : List (DeclId × Decl)} {es : List (ExprId × Expr)} {E : Expr} :
      Assembles p S q (E.form.owned.reverse ++ T) ds es → (∀ d ∈ E.form.subject?, q.Has (.decl d)) →
      Assembles p S (q.pushExpr E) (.expr q.nextExpr :: T) ds ((q.nextExpr, E) :: es)
  | var {q : Program} {T : List NodeId} {ds : List (DeclId × Decl)} {es : List (ExprId × Expr)} {value : ExprId}
      (name : String) (ty : Ty) (span : Span) :
      Assembles p S q (.expr value :: T) ds es →
      Assembles p S (q.pushDecl ((Decl.var name ty span).withInitializer value)) (.decl q.nextDecl :: T)
        ((q.nextDecl, (Decl.var name ty span).withInitializer value) :: ds) es

namespace Assembles

variable {ds : List (DeclId × Decl)} {es : List (ExprId × Expr)}

/-- What is old stays. -/
theorem old (h : Assembles p S q T ds es) : Extends p q := by
  induction h with
  | start => exact .refl p
  | expr _ _ ih => exact ih.trans (.pushExpr _ _)
  | var _ _ _ _ ih => exact ih.trans (.pushDecl _ _)

theorem expr? (h : Assembles p S q T ds es) {e : ExprId} {E : Expr} (he : (e, E) ∈ es) : q.expr? e = some E := by
  induction h with
  | start => exact absurd he List.not_mem_nil
  | @expr q _ _ _ E' _ _ ih =>
    rcases List.mem_cons.1 he with heq | he
    · obtain ⟨rfl, rfl⟩ := Prod.mk.inj heq
      simp
    · exact (Extends.pushExpr q E').expr? (ih he)
  | var _ _ _ _ ih => exact ih he

theorem decl? (h : Assembles p S q T ds es) {d : DeclId} {D : Decl} (hd : (d, D) ∈ ds) : q.decl? d = some D := by
  induction h with
  | start => exact absurd hd List.not_mem_nil
  | expr _ _ ih => exact ih hd
  | @var q _ _ _ _ _ _ _ _ ih =>
    rcases List.mem_cons.1 hd with heq | hd
    · obtain ⟨rfl, rfl⟩ := Prod.mk.inj heq
      simp
    · exact (Extends.pushDecl q _).decl? (ih hd)

/-- What is added is new. -/
theorem fresh (h : Assembles p S q T ds es) :
    ∀ n ∈ ds.map (NodeId.decl ·.1) ++ es.map (NodeId.expr ·.1), ¬p.Has n := by
  induction h with
  | start => exact fun n hn => absurd hn List.not_mem_nil
  | expr h _ ih =>
    intro n hn
    rcases List.mem_cons.1 (List.perm_middle.mem_iff.1 hn) with rfl | hn
    · exact fun hp => not_has_nextExpr (h.old.has hp)
    · exact ih n hn
  | var _ _ _ h ih =>
    intro n hn
    rcases List.mem_cons.1 hn with rfl | hn
    · exact fun hp => not_has_nextDecl (h.old.has hp)
    · exact ih n hn

/-- What is on the stack exists. -/
theorem has (h : Assembles p S q T ds es) (hS : ∀ n ∈ S, p.Has n) : ∀ n ∈ T, q.Has n := by
  induction h with
  | start => exact hS
  | expr _ _ ih =>
    intro n hn
    rcases List.mem_cons.1 hn with rfl | hn
    · exact has_pushExpr.2 (.inl rfl)
    · exact has_pushExpr.2 (.inr (ih n (List.mem_append_right _ hn)))
  | var _ _ _ _ ih =>
    intro n hn
    rcases List.mem_cons.1 hn with rfl | hn
    · exact has_pushDecl.2 (.inl rfl)
    · exact has_pushDecl.2 (.inr (ih n (List.mem_cons_of_mem _ hn)))

theorem closed (h : Assembles p S q T ds es) (hS : ∀ n ∈ S, p.Has n) (hp : p.Closed) : q.Closed := by
  induction h with
  | start => exact hp
  | expr h hsub ih =>
    refine ih.pushExpr fun n hn => ?_
    rw [ExprForm.mentioned, List.mem_append] at hn
    rcases hn with hn | hn
    · obtain ⟨d, hd, rfl⟩ := List.mem_map.1 hn
      exact hsub d (Option.mem_toList.1 hd)
    · refine h.has hS n (List.mem_append_left _ (List.mem_reverse.2 ?_))
      rw [ExprForm.owned_eq]
      exact List.mem_append_left _ hn
  | var _ _ _ h ih =>
    refine ih.pushDecl fun n hn => h.has hS n ?_
    simp [Decl.withInitializer, Decl.var, DeclForm.withInitializer, DeclForm.mentioned] at hn
    exact hn ▸ List.mem_cons_self

/-- **Assembling keeps nodes enclosed.** -/
theorem enclosed (h : Assembles p S q T ds es) (hL : Enclosed p S L) : ∃ M, L ⊆ M ∧ Enclosed q T M := by
  induction h with
  | start => exact ⟨L, fun _ h => h, hL⟩
  | @expr q _ _ _ E _ _ ih =>
    obtain ⟨M, hLM, hM⟩ := ih
    rw [← kids_pushExpr_self (p := q)] at hM
    exact ⟨_, List.subset_cons_of_subset _ hLM,
      hM.push (.pushExpr q E) not_has_nextExpr (has_pushExpr.2 (.inl rfl))⟩
  | @var q _ _ _ _ _ _ _ _ ih =>
    obtain ⟨M, hLM, hM⟩ := ih
    refine ⟨_, List.subset_cons_of_subset _ hLM,
      Enclosed.push ?_ (.pushDecl q _) not_has_nextDecl (has_pushDecl.2 (.inl rfl))⟩
    rw [kids_pushDecl_self]
    exact hM

/-- What lies deeper in the stack stays there. -/
theorem frame (h : Assembles p S q T ds es) (R : List NodeId) : Assembles p (S ++ R) q (T ++ R) ds es := by
  induction h with
  | start => exact .start
  | expr _ hsub ih =>
    rw [List.append_assoc] at ih
    exact .expr ih hsub
  | var name ty span _ ih => exact .var name ty span ih

end Assembles

end Program

end DeferredInit
