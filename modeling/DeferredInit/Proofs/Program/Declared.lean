import DeferredInit.Program.Declare
import DeferredInit.Proofs.Lowering.Building

/-!
# What a front end declares

A front end declares classes, functions and properties one after the other.  Each time it adds new nodes, which
belong together (`Builds`), and gives one of them, the new declaration, to the class that is to have it, or to none
(`Declares`).  Nothing else in the program changes.  So whatever is declared leaves a closed program closed, and a
forest a forest.

A property is declared with all its parts at once; `DeclaredProperty` says which they are and what its accessors do.
-/

namespace DeferredInit

open Program
open scoped List

variable {p q r : Program} {n : NodeId} {S T R L : List NodeId} {d : DeclId} {D : Decl}
variable {ds : List (DeclId × Decl)} {es : List (ExprId × Expr)}

namespace Program

/-! ## New nodes -/

/-- **Building upon a program**: `q` is `p` with new nodes, of which `T` have no owner yet. -/
structure Builds (p q : Program) (T : List NodeId) : Prop where
  old : Extends p q
  closed : p.Closed → q.Closed
  enclosed : ∀ {R L}, Enclosed p R L → ∃ M, Enclosed q (T ++ R) M

namespace Builds

theorem refl (p : Program) : Builds p p [] := ⟨.refl p, id, fun h => ⟨_, h⟩⟩

theorem trans (h : Builds p q T) (h' : Builds q r S) : Builds p r (S ++ T) where
  old := h.old.trans h'.old
  closed hp := h'.closed (h.closed hp)
  enclosed hL := by
    obtain ⟨M, hM⟩ := h.enclosed hL
    rw [List.append_assoc]
    exact h'.enclosed hM

theorem assembles (h : Assembles p [] q T ds es) : Builds p q T where
  old := h.old
  closed := h.closed (by simp)
  enclosed {R L} hL := by
    obtain ⟨M, -, hM⟩ := (h.frame R).enclosed hL
    exact ⟨M, hM⟩

/-- A new declaration takes what it owns. -/
theorem pushDecl (h : Builds p q (D.form.owned.reverse ++ T)) (hD : ∀ n ∈ D.form.mentioned, q.Has n) :
    Builds p (q.pushDecl D) (.decl q.nextDecl :: T) where
  old := h.old.trans (.pushDecl q D)
  closed hp := (h.closed hp).pushDecl hD
  enclosed hL := by
    obtain ⟨M, hM⟩ := h.enclosed hL
    rw [List.append_assoc, ← kids_pushDecl_self] at hM
    exact ⟨_, hM.push (.pushDecl q D) not_has_nextDecl (has_pushDecl.2 (.inl rfl))⟩

/-- A new declaration is overwritten, and takes more. -/
theorem setDecl (h : Builds p q (S ++ T)) (hd : q.decl? d = some D) (hnew : ¬p.Has (.decl d)) {new : Decl}
    (hmentioned : ∀ n ∈ new.form.mentioned, q.Has n) (howned : new.form.owned <+~ S ++ D.form.owned) :
    Builds p (q.setDecl d new) T where
  old :=
    { name_eq := h.old.name_eq
      topLevel_eq := h.old.topLevel_eq
      decl?_eq := fun d' hd' =>
        ((decl?_setDecl q hd d' new).trans (if_neg (by rintro rfl; exact hnew hd'))).trans (h.old.decl?_eq d' hd')
      expr?_eq := h.old.expr?_eq }
  closed hp := (h.closed hp).setDecl hmentioned
  enclosed hL := by
    obtain ⟨M, hM⟩ := h.enclosed hL
    rw [List.append_assoc] at hM
    refine ⟨M, hM.give (n := .decl d) (fun _ => has_setDecl) (fun m hm => ?_) ?_⟩
    · rw [kids_setDecl (has_of_decl? hd), if_neg hm]
    · rw [kids_setDecl (has_of_decl? hd), if_pos rfl, kids_decl hd]
      exact howned

end Builds

/-! ## One more declaration -/

/-- A declaration that is a class. -/
def IsClass (p : Program) (d : DeclId) : Prop := ∃ C c, p.decl? d = some C ∧ C.form = .cls c

/-- **One more declaration**: `q` is `p` with `member` and all that belongs to it, as a member of `owner`, or as an
outermost declaration. -/
structure Declares (p q : Program) (owner : Option DeclId) (member : DeclId) : Prop where
  topLevel_eq : q.topLevel = p.topLevel ++ if owner = none then [member] else []
  decl? : ∀ {d D}, p.decl? d = some D → (∀ c, D.form ≠ .cls c) → q.decl? d = some D
  cls? : ∀ {d D c}, p.decl? d = some D → D.form = .cls c →
    q.decl? d = some { D with form := .cls { c with members := c.members ++ if owner = some d then [member] else [] } }
  expr? : ∀ {e E}, p.expr? e = some E → q.expr? e = some E
  closed : p.Closed → q.Closed
  forest : p.IsForest → q.IsForest

namespace Declares

variable {owner : Option DeclId} {member : DeclId}

theorem isClass (h : Declares p q owner member) (hd : p.IsClass d) : q.IsClass d := by
  obtain ⟨C, c, hC, hc⟩ := hd
  exact ⟨_, _, h.cls? hC hc, rfl⟩

/-- What could be reached can still be reached. -/
theorem reachable (h : Declares p q owner member) (hn : p.Reachable n) : q.Reachable n := by
  induction hn with
  | outermost hn =>
    refine .outermost ?_
    rw [outermost, h.topLevel_eq, List.map_append]
    exact List.mem_append_left _ hn
  | @owned n k _ hk ih =>
    refine .owned ih ?_
    cases n with
    | expr e =>
      obtain ⟨E, hE⟩ := has_expr_iff.1 (has_of_mem_kids hk)
      rwa [kids_expr (h.expr? hE), ← kids_expr hE]
    | decl d =>
      obtain ⟨D, hD⟩ := has_decl_iff.1 (has_of_mem_kids hk)
      -- only a class may own more than it did
      by_cases hcls : ∃ c, D.form = .cls c
      · obtain ⟨c, hc⟩ := hcls
        rw [kids_decl hD, hc] at hk
        rw [kids_decl (h.cls? hD hc)]
        simp only [DeclForm.owned, DeclForm.ownedDecls, DeclForm.ownedExprs, List.map_append, List.map_nil,
          List.append_nil] at hk ⊢
        exact List.mem_append_left _ hk
      · rwa [kids_decl (h.decl? hD fun c hc => hcls ⟨c, hc⟩), ← kids_decl hD]

end Declares

theorem no_more_members {c : ClassDecl} (hD : D.form = .cls c) :
    { D with form := .cls { c with members := c.members ++ [] } } = D := by
  cases D
  cases hD
  simp

/-- A declaration without an owner becomes an outermost one. -/
theorem Builds.addTopLevel {member : DeclId} (h : Builds p q [.decl member]) (hmember : q.Has (.decl member)) :
    Declares p (q.addTopLevel member) none member where
  topLevel_eq := by simp [Program.addTopLevel, h.old.topLevel_eq]
  decl? hd _ := h.old.decl? hd
  cls? {d D c} hd hc := by
    rw [if_neg nofun, no_more_members hc]
    exact h.old.decl? hd
  expr? he := h.old.expr? he
  closed hp := by
    obtain ⟨htop, hdecls, hexprs⟩ := h.closed hp
    refine ⟨fun d hd => ?_, hdecls, hexprs⟩
    rcases List.mem_append.1 hd with hd | hd
    · exact htop d hd
    · exact List.mem_singleton.1 hd ▸ hmember
  forest := by
    rintro ⟨L, hL⟩
    obtain ⟨M, hM⟩ := h.enclosed hL
    refine ⟨M, Enclosed.mono (hM.congr (fun n hn => hM.has n hn) fun n _ => ?_) (List.Perm.subperm ?_)⟩
    · cases n <;> rfl
    · simp only [outermost, Program.addTopLevel, h.old.topLevel_eq, List.map_append, List.map_cons, List.map_nil]
      exact List.perm_append_comm

/-- A declaration without an owner becomes a member of a class. -/
theorem Builds.addMember {member o : DeclId} {C : Decl} {c : ClassDecl} (h : Builds p q [.decl member])
    (hmember : q.Has (.decl member)) (hC : p.decl? o = some C) (hc : C.form = .cls c) :
    Declares p (q.setDecl o { C with form := .cls { c with members := c.members ++ [member] } }) (some o) member where
  topLevel_eq := by simp [Program.setDecl, h.old.topLevel_eq]
  decl? {d D} hd hD := by
    have hne : d ≠ o := by
      rintro rfl
      rw [hC] at hd
      obtain rfl := Option.some.inj hd
      exact hD c hc
    rw [decl?_setDecl q (h.old.decl? hC), if_neg hne]
    exact h.old.decl? hd
  cls? {d D c'} hd hD := by
    rw [decl?_setDecl q (h.old.decl? hC)]
    by_cases hne : d = o
    · subst hne
      rw [hC] at hd
      obtain rfl := Option.some.inj hd
      obtain rfl := DeclForm.cls.inj (hc.symm.trans hD)
      simp
    · rw [if_neg hne, if_neg fun heq => hne (Option.some.inj heq).symm, no_more_members hD]
      exact h.old.decl? hd
  expr? he := h.old.expr? he
  closed hp := by
    refine (h.closed hp).setDecl fun n hn => ?_
    simp only [DeclForm.mentioned, List.map_append, List.map_cons, List.map_nil, List.mem_append,
      List.mem_singleton] at hn
    rcases hn with hn | rfl
    · exact h.old.has (hp.has_of_decl hC (by simpa [hc, DeclForm.mentioned] using hn))
    · exact hmember
  forest := by
    rintro ⟨L, hL⟩
    obtain ⟨M, hM⟩ := h.enclosed hL
    have hC' := h.old.decl? hC
    refine ⟨M, ?_⟩
    rw [outermost, show (q.setDecl o _).topLevel = p.topLevel from h.old.topLevel_eq]
    refine hM.give (S := [.decl member]) (n := .decl o) (fun _ => has_setDecl) (fun m hm => ?_) ?_
    · rw [kids_setDecl (has_of_decl? hC'), if_neg hm]
    · rw [kids_setDecl (has_of_decl? hC'), if_pos rfl, kids_decl hC']
      simp only [hc, DeclForm.owned, DeclForm.ownedDecls, DeclForm.ownedExprs, List.map_append, List.map_cons,
        List.map_nil, List.append_nil]
      exact List.perm_append_comm.subperm

/-! ## What is declared -/

/-- The form of an expression. -/
def form? (p : Program) (e : ExprId) : Option ExprForm := (p.expr? e).map (·.form)

/-- A declaration that is a parameter. -/
def IsParameter (p : Program) (d : DeclId) : Prop := ∃ D x, p.decl? d = some D ∧ D.form = .parameter x

theorem IsParameter.has (h : p.IsParameter d) : p.Has (.decl d) := by
  obtain ⟨D, x, hD, -⟩ := h
  exact has_of_decl? hD

/-- **A function as it is declared**: its receiver, its parameters, its body, and the property whose accessor it is. -/
structure IsFunction (p : Program) (f : DeclId) (receiver : Option DeclId) (params : List DeclId) (body : ExprId)
    (property : Option DeclId) : Prop where
  decl? : ∃ F returnType, p.decl? f = some F ∧
    F.form = .function { returnType, params, dispatchReceiver := receiver, body := some body, property }
  receiver : ∀ r, receiver = some r → p.IsParameter r
  params : ∀ x ∈ params, p.IsParameter x

/-- What an expression reads to get at a receiver, wherever it stands. -/
def ReadsThis (p : Program) (receiver : Option DeclId) (this : Option ExprId) : Prop :=
  this.map p.form? = receiver.map fun r => some (.getValue r)

/-- A body that returns a field of the receiver. -/
def ReturnsField (p : Program) (getter : DeclId) (receiver : Option DeclId) (body : ExprId) (field : DeclId) : Prop :=
  ∃ result read this, p.form? body = some (.block [result]) ∧ p.form? result = some (.ret getter (some read)) ∧
    p.form? read = some (.getField field this) ∧ p.ReadsThis receiver this

/-- A body that stores a parameter into a field of the receiver. -/
def StoresField (p : Program) (receiver : Option DeclId) (value : DeclId) (body : ExprId) (field : DeclId) : Prop :=
  ∃ store this newValue, p.form? body = some (.block [store]) ∧ p.form? store = some (.setField field this newValue) ∧
    p.form? newValue = some (.getValue value) ∧ p.ReadsThis receiver this

/-- **A property as it is declared**, with all its parts. -/
structure DeclaredProperty (p : Program) (parts : PropertyParts) (span : Span) (owner : Option DeclId) (name : String)
    (ty : Ty) (modifiers : Modifiers) : Prop where
  property : p.decl? parts.property = some
    { name, span, modifiers := if owner.isNone then modifiers ∪ .static else modifiers,
      form := .property
        { ty, owner, backingField := some parts.field, getter := some parts.getter, setter := parts.setter } }
  field : p.decl? parts.field = some
    { name, span,
      modifiers := (if owner.isNone then modifiers ∪ .static else modifiers) ∩ (.static ∪ .mutable),
      form := .field { ty, owner, property := some parts.property } }
  getter : ∃ receiver body, p.IsFunction parts.getter receiver [] body (some parts.property) ∧
    receiver.isSome = owner.isSome ∧ p.ReturnsField parts.getter receiver body parts.field
  setter : ∀ s, parts.setter = some s → ∃ receiver value body,
    p.IsFunction s receiver [value] body (some parts.property) ∧ receiver.isSome = owner.isSome ∧
      p.StoresField receiver value body parts.field

theorem IsFunction.has {f : DeclId} {receiver property : Option DeclId} {params : List DeclId} {body : ExprId}
    (h : p.IsFunction f receiver params body property) : p.Has (.decl f) := by
  obtain ⟨F, returnType, hF, -⟩ := h.decl?
  exact has_of_decl? hF

/-! ## What stays -/

/-- **Code that is kept**: everything but classes and properties is in `q` as it is in `p`. -/
structure Keeps (p q : Program) : Prop where
  decl? : ∀ {d D}, p.decl? d = some D → (∀ c, D.form ≠ .cls c) → (∀ r, D.form ≠ .property r) → q.decl? d = some D
  expr? : ∀ {e E}, p.expr? e = some E → q.expr? e = some E

namespace Keeps

theorem trans (h : Keeps p q) (h' : Keeps q r) : Keeps p r :=
  ⟨fun hd hc hp => h'.decl? (h.decl? hd hc hp) hc hp, fun he => h'.expr? (h.expr? he)⟩

theorem form? (h : Keeps p q) {e : ExprId} {form : ExprForm} (he : p.form? e = some form) : q.form? e = some form := by
  obtain ⟨E, hE, rfl⟩ := Option.map_eq_some_iff.1 he
  exact Option.map_eq_some_iff.2 ⟨E, h.expr? hE, rfl⟩

theorem isParameter (h : Keeps p q) (hd : p.IsParameter d) : q.IsParameter d := by
  obtain ⟨D, x, hD, hx⟩ := hd
  exact ⟨D, x, h.decl? hD (by simp [hx]) (by simp [hx]), hx⟩

theorem isFunction (h : Keeps p q) {f : DeclId} {receiver property : Option DeclId} {params : List DeclId}
    {body : ExprId} (hf : p.IsFunction f receiver params body property) :
    q.IsFunction f receiver params body property := by
  obtain ⟨⟨F, returnType, hF, hform⟩, hreceiver, hparams⟩ := hf
  exact ⟨⟨F, returnType, h.decl? hF (by simp [hform]) (by simp [hform]), hform⟩,
    fun r hr => h.isParameter (hreceiver r hr), fun x hx => h.isParameter (hparams x hx)⟩

theorem readsThis (h : Keeps p q) {receiver : Option DeclId} {this : Option ExprId} (ht : p.ReadsThis receiver this) :
    q.ReadsThis receiver this := by
  cases this with
  | none => exact ht
  | some t =>
    cases receiver with
    | none => cases ht
    | some r => exact congrArg some (h.form? (Option.some.inj ht))

theorem returnsField (h : Keeps p q) {getter field : DeclId} {receiver : Option DeclId} {body : ExprId}
    (hb : p.ReturnsField getter receiver body field) : q.ReturnsField getter receiver body field := by
  obtain ⟨result, read, this, hbody, hresult, hread, hthis⟩ := hb
  exact ⟨result, read, this, h.form? hbody, h.form? hresult, h.form? hread, h.readsThis hthis⟩

theorem storesField (h : Keeps p q) {value field : DeclId} {receiver : Option DeclId} {body : ExprId}
    (hb : p.StoresField receiver value body field) : q.StoresField receiver value body field := by
  obtain ⟨store, this, newValue, hbody, hstore, hvalue, hthis⟩ := hb
  exact ⟨store, this, newValue, h.form? hbody, h.form? hstore, h.form? hvalue, h.readsThis hthis⟩

end Keeps

/-- A parameter stays when something else is overwritten. -/
theorem IsParameter.setDecl {x : DeclId} (hx : p.IsParameter x) (hd : p.decl? d = some D)
    (hD : ∀ y, D.form ≠ .parameter y) (new : Decl) : (p.setDecl d new).IsParameter x := by
  obtain ⟨X, y, hX, hy⟩ := hx
  have hne : x ≠ d := by
    rintro rfl
    rw [hd] at hX
    obtain rfl := Option.some.inj hX
    exact hD y hy
  exact ⟨X, y, (decl?_setDecl p hd x new).trans ((if_neg hne).trans hX), hy⟩

theorem Extends.keeps (h : Extends p q) : Keeps p q := ⟨fun hd _ _ => h.decl? hd, h.expr?⟩

theorem Declares.keeps {owner : Option DeclId} {member : DeclId} (h : Declares p q owner member) : Keeps p q :=
  ⟨fun hd hc _ => h.decl? hd hc, h.expr?⟩

theorem keeps_setDecl {x : PropertyDecl} (hd : p.decl? d = some D) (hx : D.form = .property x) (new : Decl) :
    Keeps p (p.setDecl d new) where
  decl? {d' D'} hd' _ hp := by
    have hne : d' ≠ d := by
      rintro rfl
      rw [hd] at hd'
      obtain rfl := Option.some.inj hd'
      exact hp x hx
    rw [decl?_setDecl p hd, if_neg hne]
    exact hd'
  expr? he := he

end Program

/-! ## Building the parts -/

namespace BuildM

variable {span : Span} {owner : Option DeclId} {name : String} {ty : Ty} {property field : DeclId}

theorem form?_of_expr? {e : ExprId} {E : Expr} (h : p.expr? e = some E) : p.form? e = some E.form := by
  rw [form?, h, Option.map_some]

theorem readsThis_of_readsReceiver {receiver : Option DeclId} {this : Option ExprId}
    (h : ReadsReceiver p span receiver this) : p.ReadsThis receiver this := by
  cases receiver with
  | none =>
    obtain rfl : this = none := h
    rfl
  | some r =>
    obtain ⟨t, ty, rfl, ht⟩ := h
    exact congrArg some (form?_of_expr? ht)

variable (span)

theorem receiver_builds (howner : ∀ o, owner = some o → p.Has (.decl o)) :
    ∃ r q, receiver span owner p = .ok r q ∧ Builds p q (r.toList.map .decl) ∧ r.isSome = owner.isSome ∧
      ∀ x, r = some x → q.IsParameter x := by
  cases owner with
  | none => exact ⟨none, p, rfl, .refl p, rfl, fun _ h => by cases h⟩
  | some o =>
    obtain ⟨C, hC⟩ := has_decl_iff.1 (howner o rfl)
    obtain ⟨ty, hty⟩ : ∃ ty, instanceType o p = .ok ty p := by
      simp only [instanceType, bind, EStateM.bind, decl_run hC]
      cases C.form.cls? <;> exact ⟨_, rfl⟩
    refine ⟨some p.nextDecl, p.pushDecl (Decl.receiver ty span), ?_, ?_, rfl, ?_⟩
    · simp only [receiver, bind, EStateM.bind, hty, addDecl_run, pure, EStateM.pure]
    · exact (Builds.refl p).pushDecl fun _ h => absurd h List.not_mem_nil
    · rintro x ⟨⟩
      exact ⟨Decl.receiver ty span, _, by simp, rfl⟩

/-- Declares a function, and gives it the body that is built for it. -/
def functionWith (F : Decl) (build : DeclId → BuildM ExprId) : BuildM DeclId := do
  let function ← addDecl F
  setBody function (← build function)
  return function

/-- **A function is declared** together with its body, of which `P` is known as soon as its expressions are there. -/
theorem functionWith_builds (name : String) (returnType : Ty) (receiver property : Option DeclId) (params : List DeclId)
    (build : DeclId → BuildM ExprId) (P : Program → ExprId → Prop)
    (h : Builds p q ((receiver.toList ++ params).map NodeId.decl).reverse)
    (hreceiver : ∀ r, receiver = some r → q.IsParameter r) (hparams : ∀ x ∈ params, q.IsParameter x)
    (hproperty : ∀ x, property = some x → q.Has (.decl x))
    (hbuild : ∀ r G, Extends q r → r.decl? q.nextDecl = some G → ∃ body r' es, build q.nextDecl r = .ok body r' ∧
      Assembles r [] r' [.expr body] [] es ∧ ∀ u : Program, (∀ x ∈ es, u.expr? x.1 = some x.2) → P u body) :
    ∃ r body, functionWith
        { name, span, form := .function { returnType, params, dispatchReceiver := receiver, property } } build q =
          .ok q.nextDecl r ∧
      Builds p r [.decl q.nextDecl] ∧ r.IsFunction q.nextDecl receiver params body property ∧ P r body := by
  let fn : FunctionDecl := { returnType, params, dispatchReceiver := receiver, property }
  let F : Decl := { name := name, span := span, form := .function fn }
  have hmentioned : ∀ n ∈ F.form.mentioned, q.Has n := by
    intro n hn
    simp only [F, fn, DeclForm.mentioned, Option.toList_none, List.append_nil, List.map_nil, List.mem_map,
      List.mem_append, Option.mem_toList] at hn
    obtain ⟨x, (hx | hx) | hx, rfl⟩ := hn
    · exact (hreceiver x hx).has
    · exact (hparams x hx).has
    · exact hproperty x hx
  have hF : (q.pushDecl F).decl? q.nextDecl = some F := by simp
  have e₂ : Extends q (q.pushDecl F) := .pushDecl q F
  have b₂ : Builds p (q.pushDecl F) [.decl q.nextDecl] := by
    refine Builds.pushDecl (T := []) ?_ hmentioned
    simpa [F, fn, DeclForm.owned, DeclForm.ownedDecls, DeclForm.ownedExprs] using h
  obtain ⟨body, r, es, hrun, g, hP⟩ := hbuild _ F e₂ hF
  have hF' := g.old.decl? hF
  have hbody := g.has (by simp) _ List.mem_cons_self
  let new : Decl := { F with form := .function { fn with body := some body } }
  have hset : setBody q.nextDecl body r = .ok () (r.setDecl q.nextDecl new) := by
    rw [setBody, modifyDecl_run hF']
  have b₃ : Builds p (r.setDecl q.nextDecl new) [.decl q.nextDecl] := by
    refine Builds.setDecl (S := [.expr body]) (b₂.trans (.assembles g)) hF' (fun h' => not_has_nextDecl (h.old.has h'))
      (fun n hn => ?_) ?_
    · simp only [new, fn, DeclForm.mentioned, Option.toList_some, List.map_cons, List.map_nil, List.mem_append,
        List.mem_singleton] at hn
      rcases hn with hn | rfl
      · exact g.old.has (e₂.has (hmentioned n (List.mem_append_left _ hn)))
      · exact hbody
    · simp only [new, F, fn, DeclForm.owned, DeclForm.ownedDecls, DeclForm.ownedExprs, Option.toList_some,
        Option.toList_none, List.map_cons, List.map_nil, List.append_nil]
      exact List.perm_append_comm.subperm
  have hparameter {x : DeclId} (hx : q.IsParameter x) : (r.setDecl q.nextDecl new).IsParameter x :=
    (g.old.keeps.isParameter (e₂.keeps.isParameter hx)).setDecl hF' (fun _ h => by cases h) new
  refine ⟨r.setDecl q.nextDecl new, body, ?_, b₃, ⟨⟨new, returnType, ?_, rfl⟩, fun x hx => hparameter (hreceiver x hx),
    fun x hx => hparameter (hparams x hx)⟩, hP _ fun x hx => g.expr? hx⟩
  · simp only [functionWith, bind, EStateM.bind, addDecl_run, F, fn] at hrun ⊢
    simp only [hrun, hset]
    rfl
  · exact (decl?_setDecl r hF' q.nextDecl new).trans (if_pos rfl)

/-! ## Accessors -/

/-- The body of a getter. -/
def returnField (receiver : Option DeclId) (field getter : DeclId) : BuildM ExprId := do
  let this ← this span receiver
  let read ← getField span field this
  let result ← ret span getter (some read)
  block span .unit [result]

theorem returnField_assembles {receiver : Option DeclId} {getter : DeclId}
    (hreceiver : ∀ x, receiver = some x → p.Has (.decl x)) (hfield : p.Has (.decl field))
    (hgetter : p.Has (.decl getter)) :
    ∃ body q es, returnField span receiver field getter p = .ok body q ∧ Assembles p [] q [.expr body] [] es ∧
      ∀ r : Program, (∀ x ∈ es, r.expr? x.1 = some x.2) → r.ReturnsField getter receiver body field := by
  obtain ⟨F, hF⟩ := has_decl_iff.1 hfield
  obtain ⟨this, reads, q₁, h₁, g₁, -, hthis⟩ := this_assembles span (.start (p := p) (S := [])) hreceiver
  obtain ⟨read, q₂, h₂, g₂⟩ := getField_assembles span g₁ (g₁.old.decl? hF) rfl
  obtain ⟨result, q₃, h₃, g₃⟩ := addExpr_assembles span (.ret getter (some read)) .nothing g₂
    (by simpa [ExprForm.subject?] using g₂.old.has hgetter)
  obtain ⟨body, q₄, h₄, g₄⟩ := addExpr_assembles span (.block [result]) .unit g₃ (by simp [ExprForm.subject?])
  refine ⟨body, q₄, _, ?_, g₄, fun r hr => ⟨result, read, this, ?_, ?_, ?_, ?_⟩⟩
  · simp only [returnField, bind, EStateM.bind, h₁, h₂, ret, h₃, block, h₄]
  · exact form?_of_expr? (hr _ List.mem_cons_self)
  · exact form?_of_expr? (hr _ (List.mem_cons_of_mem _ List.mem_cons_self))
  · exact form?_of_expr? (hr _ (List.mem_cons_of_mem _ (List.mem_cons_of_mem _ List.mem_cons_self)))
  · exact readsThis_of_readsReceiver (hthis r fun t ht => hr t (by simp [ht]))

/-- The body of a setter. -/
def storeValue (receiver : Option DeclId) (field value : DeclId) : BuildM ExprId := do
  let this ← this span receiver
  let newValue ← getValue span value
  let store ← setField span field this newValue
  block span .unit [store]

theorem storeValue_assembles {receiver : Option DeclId} {value : DeclId}
    (hreceiver : ∀ x, receiver = some x → p.Has (.decl x)) (hfield : p.Has (.decl field))
    (hvalue : p.Has (.decl value)) :
    ∃ body q es, storeValue span receiver field value p = .ok body q ∧ Assembles p [] q [.expr body] [] es ∧
      ∀ r : Program, (∀ x ∈ es, r.expr? x.1 = some x.2) → r.StoresField receiver value body field := by
  obtain ⟨V, hV⟩ := has_decl_iff.1 hvalue
  obtain ⟨this, reads, q₁, h₁, g₁, -, hthis⟩ := this_assembles span (.start (p := p) (S := [])) hreceiver
  obtain ⟨newValue, q₂, h₂, g₂⟩ := getValue_assembles span g₁ (g₁.old.decl? hV) rfl
  obtain ⟨store, q₃, h₃, g₃⟩ := addExpr_assembles span (.setField field this newValue) .unit (T := [])
    (by cases this <;> exact g₂) (by simpa [ExprForm.subject?] using g₂.old.has hfield)
  obtain ⟨body, q₄, h₄, g₄⟩ := addExpr_assembles span (.block [store]) .unit g₃ (by simp [ExprForm.subject?])
  refine ⟨body, q₄, _, ?_, g₄, fun r hr => ⟨store, this, newValue, ?_, ?_, ?_, ?_⟩⟩
  · simp only [storeValue, bind, EStateM.bind, h₁, h₂, setField, h₃, block, h₄]
  · exact form?_of_expr? (hr _ List.mem_cons_self)
  · exact form?_of_expr? (hr _ (List.mem_cons_of_mem _ List.mem_cons_self))
  · exact form?_of_expr? (hr _ (List.mem_cons_of_mem _ (List.mem_cons_of_mem _ List.mem_cons_self)))
  · exact readsThis_of_readsReceiver (hthis r fun t ht => hr t (by simp [ht]))

variable (name ty)

/-- **A getter is declared.** -/
theorem declareGetter_builds (howner : ∀ o, owner = some o → p.Has (.decl o)) (hproperty : p.Has (.decl property))
    (hfield : p.Has (.decl field)) :
    ∃ getter q, declareGetter span owner property field name ty p = .ok getter q ∧ Builds p q [.decl getter] ∧
      ∃ receiver body, q.IsFunction getter receiver [] body (some property) ∧ receiver.isSome = owner.isSome ∧
        q.ReturnsField getter receiver body field := by
  obtain ⟨receiver, p₁, h₁, b₁, hisSome, hparameter⟩ := receiver_builds span howner
  obtain ⟨q, body, hrun, hq, hf, hP⟩ := functionWith_builds (p := p) (q := p₁) span ("<get-" ++ name ++ ">") ty receiver
    (some property) [] (returnField span receiver field)
    (fun u body => u.ReturnsField p₁.nextDecl receiver body field) (by cases receiver <;> exact b₁) hparameter nofun
    (fun x hx => Option.some.inj hx ▸ b₁.old.has hproperty) fun r G e hG =>
      returnField_assembles span (fun x hx => e.has (hparameter x hx).has) (e.has (b₁.old.has hfield)) (has_of_decl? hG)
  refine ⟨p₁.nextDecl, q, ?_, hq, receiver, body, hf, hisSome, hP⟩
  rw [← hrun, declareGetter]
  simp only [functionWith, returnField, bind_assoc]
  simp only [bind, EStateM.bind, h₁]

/-- **A setter is declared.** -/
theorem declareSetter_builds (howner : ∀ o, owner = some o → p.Has (.decl o)) (hproperty : p.Has (.decl property))
    (hfield : p.Has (.decl field)) :
    ∃ setter q, declareSetter span owner property field name ty p = .ok setter q ∧ Builds p q [.decl setter] ∧
      ∃ receiver value body, q.IsFunction setter receiver [value] body (some property) ∧
        receiver.isSome = owner.isSome ∧ q.StoresField receiver value body field := by
  obtain ⟨receiver, p₁, h₁, b₁, hisSome, hparameter⟩ := receiver_builds span howner
  let V := Decl.parameter "value" ty 0 span
  have e₁ : Extends p₁ (p₁.pushDecl V) := .pushDecl p₁ V
  have hV : (p₁.pushDecl V).decl? p₁.nextDecl = some V := by simp
  have b₂ : Builds p (p₁.pushDecl V) (.decl p₁.nextDecl :: receiver.toList.map .decl) := b₁.pushDecl nofun
  obtain ⟨q, body, hrun, hq, hf, hP⟩ := functionWith_builds (p := p) (q := p₁.pushDecl V) span
    ("<set-" ++ name ++ ">") .unit receiver (some property) [p₁.nextDecl]
    (fun _ => storeValue span receiver field p₁.nextDecl)
    (fun u body => u.StoresField receiver p₁.nextDecl body field) (by cases receiver <;> exact b₂)
    (fun x hx => e₁.keeps.isParameter (hparameter x hx))
    (fun x hx => ⟨V, _, List.mem_singleton.1 hx ▸ hV, rfl⟩)
    (fun x hx => Option.some.inj hx ▸ e₁.has (b₁.old.has hproperty)) fun r G e _ =>
      storeValue_assembles span (fun x hx => e.has (e₁.has (hparameter x hx).has))
        (e.has (e₁.has (b₁.old.has hfield))) (e.has (has_of_decl? hV))
  refine ⟨_, q, ?_, hq, receiver, p₁.nextDecl, body, hf, hisSome, hP⟩
  rw [← hrun, declareSetter]
  simp only [functionWith, storeValue, bind_assoc]
  simp only [bind, EStateM.bind, h₁, addDecl_run, V]

/-! ## Declarations -/

/-- **A declaration is attached** to its owner, and nothing but a class changes. -/
theorem attach_declares {member : DeclId} (h : Builds p q [.decl member]) (hmember : q.Has (.decl member))
    (howner : ∀ o, owner = some o → p.IsClass o) :
    ∃ r, attach owner member q = .ok () r ∧ Declares p r owner member ∧
      (∀ d D, q.decl? d = some D → (∀ c, D.form ≠ .cls c) → r.decl? d = some D) ∧ ∀ e, r.expr? e = q.expr? e := by
  cases owner with
  | none =>
    refine ⟨q.addTopLevel member, rfl, h.addTopLevel hmember, fun d D hd _ => hd, fun _ => rfl⟩
  | some o =>
    obtain ⟨C, c, hC, hc⟩ := howner o rfl
    have hC' := h.old.decl? hC
    refine ⟨_, ?_, h.addMember hmember hC hc, fun d D hd hD => ?_, fun _ => rfl⟩
    · simp only [attach, bind, EStateM.bind, decl_run hC', hc, DeclForm.cls?]
      exact modify_run _ q
    · have hne : d ≠ o := by
        rintro rfl
        rw [hC'] at hd
        obtain rfl := Option.some.inj hd
        exact hD c hc
      rw [decl?_setDecl q hC', if_neg hne]
      exact hd

/-- **A class is declared**; it has no members yet. -/
theorem declareClass_declares (span : Span) (name : String) (p : Program) :
    ∃ q, declareClass span name p = .ok p.nextDecl q ∧ Declares p q none p.nextDecl ∧
      q.decl? p.nextDecl = some
        { name := (QualifiedName.parse name).simple, span
          form := .cls { hash := (QualifiedName.parse name).hash } } := by
  let C : Decl :=
    { name := (QualifiedName.parse name).simple
      span := span
      form := .cls { hash := (QualifiedName.parse name).hash } }
  have b : Builds p (p.pushDecl C) [.decl p.nextDecl] := (Builds.refl p).pushDecl (T := []) nofun
  have hC : (p.pushDecl C).decl? p.nextDecl = some C := by simp
  exact ⟨_, rfl, b.addTopLevel (has_of_decl? hC), hC⟩

/-- A property and its field are added, which belongs to the property. -/
theorem propertyAndField_builds {P F : Decl} (hP : P.form = .property { ty, owner })
    (hF : F.form = .field { ty, owner, property := some p.nextDecl })
    (howner : ∀ o, owner = some o → p.Has (.decl o)) :
    Builds p ((p.pushDecl P).pushDecl F) [.decl (p.pushDecl P).nextDecl, .decl p.nextDecl] := by
  have b₁ : Builds p (p.pushDecl P) [.decl p.nextDecl] := by
    refine Builds.pushDecl (T := []) (by rw [hP]; exact .refl p) fun n hn => ?_
    rw [hP] at hn
    simp only [DeclForm.mentioned, Option.toList_none, List.append_nil, List.mem_map, Option.mem_toList] at hn
    obtain ⟨o, ho, rfl⟩ := hn
    exact howner o ho
  refine Builds.pushDecl (T := [.decl p.nextDecl]) ?_ fun n hn => ?_
  · rw [hF]
    exact b₁
  · rw [hF] at hn
    simp only [DeclForm.mentioned, List.map_append, List.mem_append, Option.toList_some, Option.toList_none,
      List.map_cons, List.map_nil, List.append_nil, List.mem_singleton, List.mem_map, Option.mem_toList] at hn
    rcases hn with ⟨o, ho, rfl⟩ | rfl
    · exact b₁.old.has (howner o ho)
    · exact has_pushDecl.2 (.inl rfl)

/-- A setter is declared if there is to be one. -/
theorem optionalSetter_builds (wanted : Bool) (howner : ∀ o, owner = some o → p.Has (.decl o))
    (hproperty : p.Has (.decl property)) (hfield : p.Has (.decl field)) :
    ∃ setter q, (if wanted then some <$> declareSetter span owner property field name ty
        else pure none : BuildM (Option DeclId)) p = .ok setter q ∧
      Builds p q (setter.toList.map .decl) ∧ setter.isSome = wanted ∧ ∀ s, setter = some s →
        ∃ receiver value body, q.IsFunction s receiver [value] body (some property) ∧
          receiver.isSome = owner.isSome ∧ q.StoresField receiver value body field := by
  cases wanted with
  | false => exact ⟨none, p, rfl, .refl p, rfl, fun _ h => by cases h⟩
  | true =>
    obtain ⟨setter, q, h, hq, hsetter⟩ := declareSetter_builds span name ty howner hproperty hfield
    refine ⟨some setter, q, ?_, hq, rfl, fun s hs => Option.some.inj hs ▸ hsetter⟩
    simp only [if_true, Functor.map, EStateM.map, h]

/-- A property takes its parts, which are all there. -/
theorem completeProperty_builds (parts : PropertyParts) {P new : Decl}
    (h : Builds p q (parts.setter.toList.map .decl ++ [.decl parts.getter, .decl parts.field, .decl parts.property]))
    (hnew : ¬p.Has (.decl parts.property)) (hP : q.decl? parts.property = some P)
    (hform : P.form = .property { ty, owner })
    (hform' : new.form = .property
      { ty, owner, backingField := some parts.field, getter := some parts.getter, setter := parts.setter })
    (howner : ∀ o, owner = some o → q.Has (.decl o)) (hfield : q.Has (.decl parts.field))
    (hgetter : q.Has (.decl parts.getter)) (hsetter : ∀ s, parts.setter = some s → q.Has (.decl s)) :
    Builds p (q.setDecl parts.property new) [.decl parts.property] := by
  refine Builds.setDecl (S := parts.setter.toList.map .decl ++ [.decl parts.getter, .decl parts.field])
    (by simpa using h) hP hnew (fun n hn => ?_) ?_
  · simp only [hform', DeclForm.mentioned, Option.toList_some, List.mem_map, List.mem_append, Option.mem_toList,
      List.mem_singleton] at hn
    obtain ⟨x, ((hx | rfl) | rfl) | hx, rfl⟩ := hn
    · exact howner x hx
    · exact hfield
    · exact hgetter
    · exact hsetter x hx
  · simp only [hform, hform', DeclForm.owned, DeclForm.ownedDecls, DeclForm.ownedExprs, Option.toList_some,
      Option.toList_none, List.map_append, List.map_cons, List.map_nil, List.append_nil]
    exact (List.perm_append_comm.trans ((List.Perm.swap _ _ []).append_left _)).subperm

/-- **A property is declared** with all its parts. -/
theorem declareProperty_declares (modifiers : Modifiers) (howner : ∀ o, owner = some o → p.IsClass o) :
    ∃ parts q, declareProperty span owner name ty modifiers p = .ok parts q ∧ Declares p q owner parts.property ∧
      q.DeclaredProperty parts span owner name ty modifiers ∧
      parts.setter.isSome = (if owner.isNone then modifiers ∪ .static else modifiers).isMutable := by
  have hhas : ∀ o, owner = some o → p.Has (.decl o) := fun o ho => by
    obtain ⟨C, c, hC, -⟩ := howner o ho
    exact has_of_decl? hC
  generalize hm : (if owner.isNone then modifiers ∪ .static else modifiers) = m
  let P : Decl := { name := name, span := span, modifiers := m, form := .property { ty, owner } }
  let F : Decl :=
    { name := name, span := span, modifiers := m ∩ (.static ∪ .mutable)
      form := .field { ty, owner, property := some p.nextDecl } }
  let p₁ := p.pushDecl P
  let p₂ := p₁.pushDecl F
  have e₂ : Extends p p₂ := (Extends.pushDecl p P).trans (.pushDecl p₁ F)
  have hP : p₂.decl? p.nextDecl = some P := (Extends.pushDecl p₁ F).decl? (by simp [p₁])
  have hF : p₂.decl? p₁.nextDecl = some F := by simp [p₂]
  have b₂ : Builds p p₂ [.decl p₁.nextDecl, .decl p.nextDecl] := propertyAndField_builds ty rfl rfl hhas
  obtain ⟨getter, p₃, h₃, b₃, hgetter⟩ := declareGetter_builds span name ty
    (fun o ho => e₂.has (hhas o ho)) (has_of_decl? hP) (has_of_decl? hF)
  obtain ⟨setter, p₄, h₄, b₄, hisSome, hset⟩ := optionalSetter_builds span name ty m.isMutable
    (fun o ho => b₃.old.has (e₂.has (hhas o ho))) (b₃.old.has (has_of_decl? hP)) (b₃.old.has (has_of_decl? hF))
  have hP₄ := b₄.old.decl? (b₃.old.decl? hP)
  have hF₄ := b₄.old.decl? (b₃.old.decl? hF)
  let parts : PropertyParts := { property := p.nextDecl, field := p₁.nextDecl, getter, setter }
  let new : Decl :=
    { P with
      form := .property
        { ty, owner, backingField := some parts.field, getter := some parts.getter, setter := parts.setter } }
  have b₅ : Builds p (p₄.setDecl p.nextDecl new) [.decl p.nextDecl] := by
    refine completeProperty_builds ty parts (by simpa using b₂.trans (b₃.trans b₄)) not_has_nextDecl hP₄ rfl rfl
      (fun o ho => b₄.old.has (b₃.old.has (e₂.has (hhas o ho)))) (has_of_decl? hF₄) ?_ fun s hs => ?_
    · obtain ⟨receiver, body, hf, -⟩ := hgetter
      exact b₄.old.has hf.has
    · obtain ⟨receiver, value, body, hf, -⟩ := hset s hs
      exact hf.has
  have hnew : (p₄.setDecl p.nextDecl new).decl? p.nextDecl = some new :=
    (decl?_setDecl p₄ hP₄ p.nextDecl new).trans (if_pos rfl)
  have k₅ : Keeps p₄ (p₄.setDecl p.nextDecl new) := keeps_setDecl hP₄ rfl new
  obtain ⟨q, hattach, hq, hdecl, hexpr⟩ := attach_declares b₅ (has_of_decl? hnew) howner
  have k : Keeps (p₄.setDecl p.nextDecl new) q := ⟨fun hd hc _ => hdecl _ _ hd hc, fun he => (hexpr _).trans he⟩
  refine ⟨parts, q, ?_, hq, ⟨?_, ?_, ?_, ?_⟩, hisSome⟩
  · have hmodify : modifyDecl p.nextDecl (fun d =>
        { d with form := .property { ty, owner, backingField := some p₁.nextDecl, getter := some getter, setter } }) p₄ =
          .ok () (p₄.setDecl p.nextDecl new) := modifyDecl_run hP₄ _
    simp only [declareProperty, hm, bind, EStateM.bind, addDecl_run]
    simp only [p₁, p₂, P, F] at h₃ h₄ hmodify
    simp only [h₃]
    -- the rest is there twice, once for each choice
    cases hmutable : m.isMutable with
    | false =>
      simp only [hmutable, Bool.false_eq_true, if_false] at h₄ ⊢
      cases h₄
      simp only [EStateM.bind, pure, EStateM.pure, hmodify, hattach]
      rfl
    | true =>
      simp only [hmutable, if_true] at h₄ ⊢
      simp only [EStateM.bind, h₄, hmodify, hattach]
      rfl
  · rw [hm]
    exact hdecl _ _ hnew fun _ h => by cases h
  · rw [hm]
    exact (k₅.trans k).decl? hF₄ (fun _ h => by cases h) fun _ h => by cases h
  · obtain ⟨receiver, body, hf, hr, hb⟩ := hgetter
    have k' := (b₄.old.keeps.trans k₅).trans k
    exact ⟨receiver, body, k'.isFunction hf, hr, k'.returnsField hb⟩
  · intro s hs
    obtain ⟨receiver, value, body, hf, hr, hb⟩ := hset s hs
    have k' := k₅.trans k
    exact ⟨receiver, value, body, k'.isFunction hf, hr, k'.storesField hb⟩

end BuildM

end DeferredInit
