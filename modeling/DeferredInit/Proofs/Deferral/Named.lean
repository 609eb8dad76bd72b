import DeferredInit.Proofs.Deferral.Simulation
import DeferredInit.Proofs.Lowering.Named

/-!
# What names in reports change

A program that was lowered with names in its reports does what the one without names does, and tells a name in each
access before initialization (`lower_named`).

Nothing but expressions differs between the two programs, and no value and no state contains the handle of one.  So
the two are evaluated side by side, each expression next to what it has become (`eval_tied`).  Only a report
differs: it evaluates its text first.  The text lies one level deeper than the report, so at the same depth one run
may be cut short where the other is not.
-/

namespace DeferredInit

open Program

/-- The fault, without the name of what was accessed before initialization. -/
def RuntimeFault.unnamed : RuntimeFault → RuntimeFault
  | uninitializedAccess _ => uninitializedAccess none
  | fault => fault

/-- The answer, without the name of what was accessed before initialization. -/
def Answer.unnamed (a : Answer) : Answer := (a.1.mapError RuntimeFault.unnamed, a.2)

/-- **Runs that are the same but for names.** -/
inductive SameButNames : Except Halt (List Answer) → Except Halt (List Answer) → Prop
  | answers {as bs : List Answer} : List.Forall₂ (fun a b => a.unnamed.Alike b.unnamed) as bs →
      SameButNames (.ok as) (.ok bs)
  | halt (h : Halt) : SameButNames (.error h) (.error h)

namespace Lowering

/-- Which of two runs may be cut short by its depth: that without names, or that with names. -/
inductive CutShort where
  | plain
  | named

namespace CutShort

/-- How machines are compared: names do not count, and all variables are the same. -/
def tie (cut : CutShort) : Tie :=
  { Tie.unlessLeft .exhausted with
    fault f g := f.unnamed = g.unnamed
    fault_refl _ := rfl
    left stop := cut = plain ∧ stop = .halt .exhausted
    right stop := cut = named ∧ stop = .halt .exhausted }

theorem left_exhausted : plain.tie.left (.halt .exhausted) := ⟨rfl, rfl⟩

theorem right_exhausted : named.tie.right (.halt .exhausted) := ⟨rfl, rfl⟩

/-- The depths of two runs of which one may be cut short.  If it is the one without names, the other goes deeper, or
at least as deep where there are no names. -/
def Fits (q q' : Program) : CutShort → Nat → Nat → Prop
  | plain, n, k => n ≤ k ∧ (q.exprs.size < q'.exprs.size → n < k)
  | named, n, k => k ≤ n

variable {cut : CutShort} {q q' : Program} {n k : Nat}

theorem Fits.pred (h : cut.Fits q q' (n + 1) (k + 1)) : cut.Fits q q' n k := by
  cases cut <;> simp only [Fits] at h ⊢ <;> omega

theorem answers_unnamed {a b : Answer} (h : cut.tie.Answers a b) : a.unnamed.Alike b.unnamed where
  value_eq := by
    simp only [Answer.unnamed]
    rcases h.value with ⟨v, ha, hb⟩ | ⟨f, g, ha, hb, hfg⟩
    · rw [ha, hb]
    · rw [ha, hb, Except.mapError, Except.mapError, show f.unnamed = g.unnamed from hfg]
  reads_eq := h.state.reads_eq
  statics_eq := h.state.statics_eq
  size_eq := h.state.size_eq
  fields := h.state.fields

theorem same_of_runs {r r' : Except Halt (List Answer)} (h : cut.tie.Runs r r') :
    SameButNames r r' ∨ cut = plain ∧ r = .error .exhausted ∨ cut = named ∧ r' = .error .exhausted := by
  cases h with
  | ok h => exact .inl (.answers (h.imp fun _ _ => answers_unnamed))
  | halt h => exact .inl (.halt h)
  | left hl => exact .inr (.inl ⟨hl.1, congrArg Except.error (Stop.halt.inj hl.2)⟩)
  | right hr => exact .inr (.inr ⟨hr.1, congrArg Except.error (Stop.halt.inj hr.2)⟩)

end CutShort

/-- **A machine whose program has names in its reports**, next to one whose program has none. -/
structure TellsNames (throw : SymbolHash) (σ : ExprId → ExprId) (m m' : Machine) : Prop where
  library_eq : m.library = m'.library
  maxDepth_eq : m.maxDepth = m'.maxDepth
  closed : m.program.Closed
  reports : ReportsNamed throw σ m.program m'.program
  throw_eq : m.throwFunction? = some throw

section

variable {throw : SymbolHash} {σ : ExprId → ExprId} {m m' : Machine} {cut : CutShort} {n k : Nat}

namespace TellsNames

theorem renamed (h : TellsNames throw σ m m') : Machine.Renamed σ m m' :=
  ⟨h.library_eq, h.maxDepth_eq, h.reports.decl?⟩

/-- **A report** ends with the fault of an access before initialization, whether or not it tells a name. -/
theorem report_tied (h : TellsNames throw σ m m') (hfit : cut.Fits m.program m'.program (n + 1) (k + 1))
    (hsize : m.program.exprs.size < m'.program.exprs.size) {e e' text : ExprId} {E E' : Expr} {span : Span} {ty : Ty}
    {name : String} (hE : m.program.expr? e = some E) (hcall : E.form = .call (.library throw) none none [])
    (hE' : m'.program.expr? e' = some E') (hcall' : E'.form = .call (.library throw) none none [text])
    (htext : m'.program.expr? text = some ⟨span, ty, .const (.str name)⟩) :
    Tied cut.tie.evals (· = ·) (m.eval (n + 1) e) (m'.eval (k + 1) e') := by
  have hthrow : m'.throwFunction? = some throw := by
    rw [← h.throw_eq, Machine.throwFunction?, Machine.throwFunction?, h.library_eq]
  have hplain : m.eval (n + 1) e = EvalM.fail (.uninitializedAccess none) := by
    rw [m.eval_succ hE, hcall]
    show EvalM.fail (m.libraryFault throw []) = _
    rw [Machine.libraryFault, if_pos h.throw_eq]
    rfl
  have hnamed : m'.eval (k + 1) e' =
      m'.eval k text >>= fun v => EvalM.fail (.uninitializedAccess v.str?) := by
    rw [m'.eval_succ hE', hcall']
    show ((do let v ← m'.eval k text; pure [v]) >>= fun args => EvalM.fail (m'.libraryFault throw args)) = _
    rw [bind_assoc]
    simp only [pure_bind, Machine.libraryFault, if_pos hthrow]
    rfl
  rw [hplain, hnamed]
  cases k with
  | zero =>
    -- the text lies one level deeper than anything that the run without names evaluates
    cases cut with
    | plain => exact absurd (hfit.2 hsize) (by omega)
    | named => exact fun s t _ => .right ⟨_, CutShort.right_exhausted, rfl⟩
  | succ k =>
    rw [m'.eval_const htext, pure_bind]
    exact .throw (.stop (.fault rfl))

/-- **What is evaluated without names ends alike with names.** -/
theorem eval_tied (h : TellsNames throw σ m m') (hfit : cut.Fits m.program m'.program n k) {e : ExprId}
    (he : m.program.Has (.expr e)) : Tied cut.tie.evals (· = ·) (m.eval n e) (m'.eval k (σ e)) := by
  -- operands lie one level deeper on both sides, whichever of the two may be cut short
  induction n generalizing k e with
  | zero =>
    cases cut with
    | plain => exact Tie.left_halt CutShort.left_exhausted
    | named =>
      obtain rfl : k = 0 := by simpa [CutShort.Fits] using hfit
      exact Tie.right_halt CutShort.right_exhausted
  | succ n ih =>
    cases k with
    | zero =>
      cases cut with
      | plain => exact absurd hfit.1 (by omega)
      | named => exact Tie.right_halt CutShort.right_exhausted
    | succ k =>
      obtain ⟨E, hE⟩ := has_expr_iff.1 he
      cases h.reports.expr? e E hE with
      | same hE' =>
        rw [m.eval_succ hE, m'.eval_succ hE', Expr.rename, Operations.evalNode_rename]
        refine Tie.evalNode_tied (h.renamed.performs (fun d D hD e he => ?_) fun _ _ _ _ => id) fun c hc => ?_
        · exact ih hfit.pred (h.closed.has_of_ownedExprs hD he)
        · exact ih hfit.pred (h.closed.has_of_children hE hc)
      | named hsize hcall hE' htext => exact report_tied h hfit hsize hE hcall hE' rfl htext

/-- Runs end alike. -/
theorem runs_tied (h : TellsNames throw σ m m') (hfit : cut.Fits m.program m'.program n k) (steps : List Step)
    (s : State) : cut.tie.Runs (m.semantics.run n steps s) (m'.semantics.run k steps s) := by
  have hleft (f : RuntimeFault) : ¬cut.tie.left (.fault f) := by
    rintro ⟨_, hf⟩
    cases hf
  have hright (f : RuntimeFault) : ¬cut.tie.right (.fault f) := by
    rintro ⟨_, hf⟩
    cases hf
  refine Tie.takeSteps hleft hright (Tie.step_of_enter h.renamed fun d D hD e he => ?_) steps (.refl (fun _ _ => rfl) s)
  exact eval_tied h hfit (h.closed.has_of_ownedExprs hD he)

/-- With names, evaluations may go as deep as the report of a name needs. -/
theorem fits_depthBound (h : TellsNames throw σ m m') :
    CutShort.plain.Fits m.program m'.program m.depthBound m'.depthBound := by
  simp only [Machine.depthBound, h.maxDepth_eq]
  refine ⟨?_, fun hlt => ?_⟩
  · have hmul := Nat.mul_le_mul_left (m'.maxDepth + 1) (Nat.add_le_add_right h.reports.size_le 1)
    omega
  · have hmul : (m'.maxDepth + 1) * (m.program.exprs.size + 1) < (m'.maxDepth + 1) * (m'.program.exprs.size + 1) :=
      Nat.mul_lt_mul_of_pos_left (Nat.add_lt_add_right hlt 1) (Nat.add_one_pos m'.maxDepth)
    omega

/-- What the run without names comes to, the one with names does if it goes deep enough. -/
theorem run_of_fits (h : TellsNames throw σ m m') (hfit : CutShort.plain.Fits m.program m'.program n k)
    (steps : List Step) (s : State) : m.semantics.run n steps s = .error .exhausted ∨
      SameButNames (m.semantics.run n steps s) (m'.semantics.run k steps s) := by
  rcases CutShort.same_of_runs (h.runs_tied hfit steps s) with hsame | ⟨-, hplain⟩ | ⟨hcut, -⟩
  · exact .inr hsame
  · exact .inl hplain
  · cases hcut

/-- What the run with names comes to, the one without names does at the same depth. -/
theorem run_of_named (h : TellsNames throw σ m m') (k : Nat) (steps : List Step) (s : State) :
    m'.semantics.run k steps s = .error .exhausted ∨
      SameButNames (m.semantics.run k steps s) (m'.semantics.run k steps s) := by
  have hfit : CutShort.named.Fits m.program m'.program k k := Nat.le_refl k
  rcases CutShort.same_of_runs (h.runs_tied hfit steps s) with hsame | ⟨hcut, -⟩ | ⟨-, hnamed⟩
  · exact .inr hsame
  · cases hcut
  · exact .inl hnamed

end TellsNames

end

theorem ofLibrary_eq (l : Library) (options : LoweringOptions) :
    ofLibrary l options = (Intrinsics.resolve l).map fun i => { intrinsics := i, options } := by
  cases h : Intrinsics.resolve l <;> simp [ofLibrary, h] <;> rfl

theorem TellsNames.of_lower {l : Library} {i : Intrinsics} (hi : Intrinsics.resolve l = .ok i) {p q q' : Program}
    (hp : p.Closed) (hf : p.IsForest) {s t : LoweringStats} (h : (plain i).lower p = (.ok s, q))
    (h' : (named i).lower p = (.ok t, q')) (maxDepth : Nat) :
    TellsNames i.throwUninitialized (namedExpr i p p.nodes) ⟨q, l, maxDepth⟩ ⟨q', l, maxDepth⟩ where
  library_eq := rfl
  maxDepth_eq := rfl
  closed := (done_of_lower hp hf h).preserves.closed hp
  reports := reportsNamed_of_lower hp hf h h'
  throw_eq := throwFunction?_of_ofLibrary (w := plain i) (by rw [ofLibrary_eq, hi]; rfl) rfl

/-- **Names in reports change nothing but names.**  Take a closed program that is a forest, and any library.  If the
library hosts no lowering, then neither one with names nor one without.  Otherwise both lowerings end with the same
fault, or both end with the same statistics.  In that case take any steps from any state.  A machine with the one
program and a machine with the other give answers that are the same but for names, one by one, with as many field
reads, or halt alike.  They do so by themselves, and where the one with names goes deeper, unless the run without
names exhausts its depth; and at equal depths, unless the run with names does. -/
theorem lower_named (l : Library) {p : Program} (hp : p.Closed) (hf : p.findShared = .ok none) :
    (∃ fault, ∀ options, ofLibrary l options = .error fault) ∨
      ∃ w w', ofLibrary l { namesInReports := false } = .ok w ∧ ofLibrary l { namesInReports := true } = .ok w' ∧
        ((∃ fault, (w.lower p).1 = .error (.fault fault) ∧ (w'.lower p).1 = .error (.fault fault)) ∨
          ∃ stats q q', w.lower p = (.ok stats, q) ∧ w'.lower p = (.ok stats, q') ∧
            ∀ (maxDepth : Nat) (steps : List Step) (s : State),
              let m : Machine := ⟨q, l, maxDepth⟩
              let m' : Machine := ⟨q', l, maxDepth⟩
              (takeSteps m.take steps s = .error .exhausted ∨
                SameButNames (takeSteps m.take steps s) (takeSteps m'.take steps s)) ∧
              (∀ n k, n < k → m.semantics.run n steps s = .error .exhausted ∨
                SameButNames (m.semantics.run n steps s) (m'.semantics.run k steps s)) ∧
              ∀ k, m'.semantics.run k steps s = .error .exhausted ∨
                SameButNames (m.semantics.run k steps s) (m'.semantics.run k steps s)) := by
  have hforest := findShared_eq_none_iff.1 hf
  cases hi : Intrinsics.resolve l with
  | error fault => exact .inl ⟨fault, fun options => by rw [ofLibrary_eq, hi]; rfl⟩
  | ok i =>
    refine .inr ⟨plain i, named i, by rw [ofLibrary_eq, hi]; rfl, by rw [ofLibrary_eq, hi]; rfl, ?_⟩
    have hfst := lower_named_fst (i := i) hp hforest
    have hfirst := lower_first (w := plain i) hp hforest
    split at hfirst
    · obtain ⟨stats, hstats⟩ := hfirst
      have h : (plain i).lower p = (.ok stats, ((plain i).lower p).2) := Prod.ext hstats rfl
      have h' : (named i).lower p = (.ok stats, ((named i).lower p).2) := Prod.ext (hfst.trans hstats) rfl
      refine .inr ⟨stats, _, _, h, h', fun maxDepth steps s => ?_⟩
      have hnames := TellsNames.of_lower hi hp hforest h h' maxDepth
      refine ⟨?_, fun n k hnk => hnames.run_of_fits ⟨hnk.le, fun _ => hnk⟩ steps s, fun k => hnames.run_of_named k steps s⟩
      rw [← Machine.run_depthBound, ← Machine.run_depthBound]
      exact hnames.run_of_fits hnames.fits_depthBound steps s
    · next fault _ => exact .inl ⟨fault, hfirst, hfst.trans hfirst⟩

/-- The sample program gets a property that has no value in its last step.  With names in reports it tells which. -/
theorem lower_named_sample :
    let w := plain Sample.lowering.intrinsics
    let w' := named Sample.lowering.intrinsics
    sample.Closed ∧ sample.findShared = .ok none ∧
      ofLibrary .standard { namesInReports := false } = .ok w ∧ ofLibrary .standard { namesInReports := true } = .ok w' ∧
      (w.lower sample).1 = .ok { vars := 1, reads := 2, queries := 1, properties := 1 } ∧
      (w'.lower sample).2.exprs.size = (w.lower sample).2.exprs.size + 3 ∧
      ∃ answers answers',
        (Machine.semantics ⟨(w.lower sample).2, .standard, 256⟩).run 37 Sample.steps {} = .ok answers ∧
        answers.map (·.1) = [.ok (.bool false), .ok (.str "ready"), .ok (.object ⟨2, some ⟨0⟩⟩),
          .error (.uninitializedAccess none)] ∧
        (Machine.semantics ⟨(w'.lower sample).2, .standard, 256⟩).run 38 Sample.steps {} = .ok answers' ∧
        answers'.map (·.1) = [.ok (.bool false), .ok (.str "ready"), .ok (.object ⟨2, some ⟨0⟩⟩),
          .error (.uninitializedAccess (some "name"))] ∧
        List.Forall₂ (fun a b => a.unnamed.Alike b.unnamed) answers answers' := by
  intro w w'
  have hp : sample.Closed := by decide
  have hf : sample.findShared = .ok none := by decide +kernel
  have hw : ofLibrary .standard { namesInReports := false } = .ok w := by decide +kernel
  have hw' : ofLibrary .standard { namesInReports := true } = .ok w' := by decide +kernel
  have hstats : (w.lower sample).1 = .ok { vars := 1, reads := 2, queries := 1, properties := 1 } := by decide +kernel
  have hsize : (w'.lower sample).2.exprs.size = (w.lower sample).2.exprs.size + 3 := by decide +kernel
  have hvalues : ((Machine.semantics ⟨(w.lower sample).2, .standard, 256⟩).run 37 Sample.steps {}).map
      (·.map (·.1)) = .ok [.ok (.bool false), .ok (.str "ready"), .ok (.object ⟨2, some ⟨0⟩⟩),
        .error (.uninitializedAccess none)] := by
    decide +kernel
  have hvalues' : ((Machine.semantics ⟨(w'.lower sample).2, .standard, 256⟩).run 38 Sample.steps {}).map
      (·.map (·.1)) = .ok [.ok (.bool false), .ok (.str "ready"), .ok (.object ⟨2, some ⟨0⟩⟩),
        .error (.uninitializedAccess (some "name"))] := by
    decide +kernel
  refine ⟨hp, hf, hw, hw', hstats, hsize, ?_⟩
  rcases lower_named .standard hp hf with ⟨fault, h⟩ | ⟨_, _, h, h', hlower⟩
  · rw [h] at hw
    cases hw
  obtain rfl := Except.ok.inj (h.symm.trans hw)
  obtain rfl := Except.ok.inj (h'.symm.trans hw')
  rcases hlower with ⟨fault, h, -⟩ | ⟨stats, q, q', h, h', hruns⟩
  · rw [hstats] at h
    cases h
  rw [h] at hvalues
  rw [h'] at hvalues'
  rw [h, h']
  rcases (hruns 256 Sample.steps {}).2.1 37 38 (by decide) with hrun | hrun
  · rw [hrun] at hvalues
    cases hvalues
  · generalize Semantics.run _ 37 _ _ = r, Semantics.run _ 38 _ _ = r' at hrun hvalues hvalues'
    cases hrun with
    | answers hanswers =>
      exact ⟨_, _, rfl, Except.ok.inj hvalues, rfl, Except.ok.inj hvalues', hanswers⟩
    | halt => cases hvalues

end Lowering

end DeferredInit
