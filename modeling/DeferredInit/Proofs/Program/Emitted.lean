import DeferredInit.Proofs.Program.Declared
import DeferredInit.Proofs.Program.Modifiers

/-!
# Programs that a front end emits

A front end declares classes, functions and properties, in any order and in any of the classes that it has declared
before (`declareAll`).  None of this can fail: every request is answered by one item, in the order of the requests
(`AllAnswered`).  What comes out is closed and a forest, has every item in its place, once, and nothing else
(`Emitted`).

What nodes there are follows from the outlines of the declarations: what they are when they are added, without the
parts, members and bodies that some are given later.  Declaring something adds a few outlines and keeps the others, so
a program that is `Plain` stays so.
-/

namespace DeferredInit

open Program

/-! ## What is asked for -/

/-- **What a front end asks for.**  Owners are numbered in the order in which classes have been declared; a number that
no class has stands for none. -/
inductive Request where
  | cls (span : Span) (name : String)
  | function (span : Span) (owner : Option Nat) (name : String) (returnType : Ty)
  | property (span : Span) (owner : Option Nat) (name : String) (ty : Ty) (modifiers : Modifiers)

/-- **What has been declared**, and for which owner. -/
inductive Item where
  | cls (d : DeclId)
  | function (d : DeclId) (owner : Option DeclId)
  | property (parts : PropertyParts) (span : Span) (owner : Option DeclId) (name : String) (ty : Ty)
      (modifiers : Modifiers)

namespace Item

/-- The declaration itself. -/
def member : Item → DeclId
  | cls d => d
  | function d _ => d
  | property parts .. => parts.property

/-- Whose member it is. -/
def owner : Item → Option DeclId
  | cls _ => none
  | function _ owner => owner
  | property _ _ owner .. => owner

/-- The class, if it is one. -/
def cls? : Item → Option DeclId
  | cls d => some d
  | _ => none

/-- The property, if it is one. -/
def property? : Item → Option DeclId
  | property parts .. => some parts.property
  | _ => none

end Item

/-- The classes among the items. -/
def classesOf (items : List Item) : List DeclId := items.filterMap Item.cls?

/-- The properties among the items. -/
def propertiesOf (items : List Item) : List DeclId := items.filterMap Item.property?

/-- The class of a number. -/
def ownerOf (items : List Item) (owner : Option Nat) : Option DeclId := owner.bind fun n => (classesOf items)[n]?

/-- Declares what is asked for. -/
def Request.declare (items : List Item) : Request → BuildM Item
  | cls span name => Item.cls <$> BuildM.declareClass span name
  | function span owner name returnType => do
    let function ← BuildM.declareFunction span (ownerOf items owner) name returnType
    return .function function (ownerOf items owner)
  | property span owner name ty modifiers => do
    let parts ← BuildM.declareProperty span (ownerOf items owner) name ty modifiers
    return .property parts span (ownerOf items owner) name ty modifiers

/-- Declares what is asked for next. -/
def declareNext (items : List Item) (request : Request) : BuildM (List Item) := do
  let item ← request.declare items
  return items ++ [item]

/-- **Declares all that is asked for**, one after the other. -/
def declareAll (requests : List Request) : BuildM (List Item) := requests.foldlM declareNext []

/-! ## Members -/

variable {p q r : Program} {owner : Option DeclId} {member d : DeclId} {classes properties : List DeclId}

namespace Program

/-- The members of a class, or the outermost declarations. -/
def membersOf (p : Program) : Option DeclId → List DeclId
  | none => p.topLevel
  | some d => ((p.decl? d).bind (·.form.cls?)).elim [] (·.members)

theorem membersOf_cls {C : Decl} {c : ClassDecl} (hC : p.decl? d = some C) (hc : C.form = .cls c) :
    p.membersOf (some d) = c.members := by
  simp [membersOf, hC, hc, DeclForm.cls?]

/-- What is no class has no members. -/
theorem membersOf_of_not_isClass (h : ¬p.IsClass d) : p.membersOf (some d) = [] := by
  cases hD : p.decl? d with
  | none => simp [membersOf, hD]
  | some D =>
    cases hform : D.form with
    | cls c => exact absurd ⟨D, c, hD, hform⟩ h
    | _ => simp [membersOf, hD, hform, DeclForm.cls?]

/-- Only what is there can be a member. -/
theorem Closed.has_of_mem_membersOf (hp : p.Closed) {o : Option DeclId} (h : d ∈ p.membersOf o) : p.Has (.decl d) := by
  cases o with
  | none => exact hp.1 d h
  | some o =>
    by_cases hcls : p.IsClass o
    · obtain ⟨C, c, hC, hc⟩ := hcls
      rw [membersOf_cls hC hc] at h
      exact hp.has_of_decl hC (by simpa [hc, DeclForm.mentioned] using h)
    · rw [membersOf_of_not_isClass hcls] at h
      cases h

/-- **A new declaration becomes a member of its owner**, and of nothing else, if new classes have no members. -/
theorem Declares.membersOf (h : Declares p q owner member) (howner : ∀ o, owner = some o → p.IsClass o)
    (hnew : ∀ d, q.IsClass d → p.IsClass d ∨ q.membersOf (some d) = []) (o : Option DeclId) :
    q.membersOf o = p.membersOf o ++ if o = owner then [member] else [] := by
  cases o with
  | none =>
    rw [show q.membersOf none = q.topLevel from rfl, h.topLevel_eq]
    simp only [eq_comm]
    rfl
  | some d =>
    by_cases hcls : p.IsClass d
    · obtain ⟨C, c, hC, hc⟩ := hcls
      rw [membersOf_cls (h.cls? hC hc) rfl, membersOf_cls hC hc]
      simp only [eq_comm]
    · have hne : some d ≠ owner := fun heq => hcls (howner d heq.symm)
      have hempty : q.membersOf (some d) = [] := by
        by_cases hcls' : q.IsClass d
        · exact (hnew d hcls').resolve_left hcls
        · exact membersOf_of_not_isClass hcls'
      rw [hempty, membersOf_of_not_isClass hcls, if_neg hne, List.append_nil]

end Program

/-! ## Outlines -/

/-- **What a declaration is when it is added**: without the parts of a property, the members of a class and the body of
a function. -/
def DeclForm.outline : DeclForm → DeclForm
  | property q => property { ty := q.ty, owner := q.owner }
  | cls c => cls { hash := c.hash }
  | function f => function { f with body := none }
  | form => form

namespace Program

/-- The outline of a declaration. -/
def outline? (p : Program) (d : DeclId) : Option DeclForm := (p.decl? d).map (·.form.outline)

theorem outline?_of_decl? {D : Decl} (h : p.decl? d = some D) : p.outline? d = some D.form.outline := by
  rw [outline?, h, Option.map_some]

theorem outline?_pushDecl (D : Decl) (d : DeclId) :
    (p.pushDecl D).outline? d = if d = p.nextDecl then some D.form.outline else p.outline? d := by
  rw [outline?, decl?_pushDecl]
  split <;> rfl

/-- To overwrite a declaration within its outline keeps all outlines. -/
theorem outline?_setDecl {D new : Decl} (hD : p.decl? d = some D) (hnew : new.form.outline = D.form.outline)
    (d' : DeclId) : (p.setDecl d new).outline? d' = p.outline? d' := by
  rw [outline?, decl?_setDecl p hD]
  split
  · next heq => rw [heq, outline?_of_decl? hD, Option.map_some, hnew]
  · rfl

/-- **The receiver of a member**: an instance of its class, and none for what is no member. -/
def ReceiverOf (p : Program) : Option DeclId → Option DeclId → Prop
  | none, receiver => receiver = none
  | some cls, receiver => ∃ this hash, receiver = some this ∧ p.outline? cls = some (.cls { hash }) ∧
      p.outline? this = some (.parameter { ty := .reference hash false, index := none })

/-- What a declaration may be, going by its outline: a class or property that has been declared, or a function, field or
parameter.  Accessors have the receiver that their property is to have. -/
def PlainForm (p : Program) (classes properties : List DeclId) (d : DeclId) : DeclForm → Prop
  | .var _ => False
  | .cls _ => d ∈ classes
  | .property _ => d ∈ properties
  | .function f => ∀ x, f.property = some x → ∃ ty owner, p.outline? x = some (.property { ty, owner }) ∧
      p.ReceiverOf owner f.dispatchReceiver
  | .field _ | .parameter _ => True

/-- Nothing is called. -/
def CallsNothing (p : Program) : Prop :=
  ∀ e E, p.expr? e = some E → ∀ callee dispatch extension args, E.form ≠ .call callee dispatch extension args

/-- **A program with nothing but classes and properties that have been declared**, functions, fields and parameters. -/
structure Plain (p : Program) (classes properties : List DeclId) : Prop where
  decl : ∀ d form, p.outline? d = some form → p.PlainForm classes properties d form
  calls : p.CallsNothing

/-- **More is outlined** than before, and nothing in another way. -/
def Outgrows (p q : Program) : Prop := ∀ d form, p.outline? d = some form → q.outline? d = some form

theorem Outgrows.pushDecl (p : Program) (D : Decl) : Outgrows p (p.pushDecl D) := by
  intro d form h
  have hne : d ≠ p.nextDecl := by
    rintro rfl
    obtain ⟨D', hD', -⟩ := Option.map_eq_some_iff.1 h
    exact not_has_nextDecl (has_of_decl? hD')
  rw [outline?_pushDecl, if_neg hne]
  exact h

theorem Outgrows.trans (h : Outgrows p q) (h' : Outgrows q r) : Outgrows p r := fun d form hd => h' d form (h d form hd)

/-- One more declaration gives a class one more member, which its outline does not show. -/
theorem Declares.outgrows (h : Declares p q owner member) : Outgrows p q := by
  intro d form hd
  obtain ⟨D, hD, rfl⟩ := Option.map_eq_some_iff.1 hd
  by_cases hcls : ∃ c, D.form = .cls c
  · obtain ⟨c, hc⟩ := hcls
    rw [outline?_of_decl? (h.cls? hD hc), hc]
    rfl
  · exact outline?_of_decl? (h.decl? hD fun c hc => hcls ⟨c, hc⟩)

theorem IsClass.mono (h : Outgrows p q) (hd : p.IsClass d) : q.IsClass d := by
  obtain ⟨C, c, hC, hc⟩ := hd
  have houtline : q.outline? d = some (.cls { hash := c.hash }) := h _ _ (by rw [outline?_of_decl? hC, hc]; rfl)
  obtain ⟨C', hC', hform⟩ := Option.map_eq_some_iff.1 houtline
  cases hc' : C'.form <;> simp [hc', DeclForm.outline] at hform
  exact ⟨C', _, hC', hc'⟩

theorem ReceiverOf.mono {receiver : Option DeclId} (h : Outgrows p q) (hr : p.ReceiverOf owner receiver) :
    q.ReceiverOf owner receiver := by
  cases owner with
  | none => exact hr
  | some cls =>
    obtain ⟨this, hash, rfl, hcls, hthis⟩ := hr
    exact ⟨this, hash, rfl, h _ _ hcls, h _ _ hthis⟩

theorem PlainForm.mono {classes' properties' : List DeclId} {form : DeclForm} (h : Outgrows p q)
    (hclasses : classes ⊆ classes') (hproperties : properties ⊆ properties')
    (hd : p.PlainForm classes properties d form) : q.PlainForm classes' properties' d form := by
  cases form with
  | cls c => exact hclasses hd
  | property x => exact hproperties hd
  | function f =>
    intro x hx
    obtain ⟨ty, owner, hproperty, hreceiver⟩ := hd x hx
    exact ⟨ty, owner, h _ _ hproperty, hreceiver.mono h⟩
  | _ => exact hd

/-- **One more declaration** leaves a plain program plain if it is plain itself. -/
theorem Plain.pushDecl {classes' properties' : List DeclId} {D : Decl} (hp : p.Plain classes properties)
    (hclasses : classes ⊆ classes') (hproperties : properties ⊆ properties')
    (hD : (p.pushDecl D).PlainForm classes' properties' p.nextDecl D.form.outline) :
    (p.pushDecl D).Plain classes' properties' where
  decl d form hd := by
    rw [outline?_pushDecl] at hd
    split at hd
    · next heq =>
      obtain rfl := Option.some.inj hd
      rwa [heq]
    · exact (hp.decl d form hd).mono (.pushDecl p D) hclasses hproperties
  calls := hp.calls

/-- **A program that is filled in**: declarations have changed within their outlines, and no call has been added. -/
structure FilledIn (p q : Program) : Prop where
  outline? : ∀ d, q.outline? d = p.outline? d
  calls : p.CallsNothing → q.CallsNothing

namespace FilledIn

theorem refl (p : Program) : FilledIn p p := ⟨fun _ => rfl, id⟩

theorem trans (h : FilledIn p q) (h' : FilledIn q r) : FilledIn p r :=
  ⟨fun d => (h'.outline? d).trans (h.outline? d), fun hp => h'.calls (h.calls hp)⟩

theorem outgrows (h : FilledIn p q) : Outgrows p q := fun d _ hd => (h.outline? d).trans hd

theorem plain (h : FilledIn p q) (hp : p.Plain classes properties) : q.Plain classes properties where
  decl d form hd :=
    (hp.decl d form ((h.outline? d).symm.trans hd)).mono h.outgrows (List.Subset.refl _) (List.Subset.refl _)
  calls := h.calls hp.calls

theorem setDecl {D new : Decl} (hD : p.decl? d = some D) (hnew : new.form.outline = D.form.outline) :
    FilledIn p (p.setDecl d new) := ⟨outline?_setDecl hD hnew, id⟩

theorem addTopLevel (p : Program) (d : DeclId) : FilledIn p (p.addTopLevel d) := ⟨fun _ => rfl, id⟩

end FilledIn

end Program

/-! ## Filling in -/

namespace BuildM

variable {α β : Type} {act : BuildM α} {next : α → BuildM β}

/-- What two builders come to, one after the other. -/
theorem bind_eq_ok {b : β} : (act >>= next) p = .ok b r ↔ ∃ a q, act p = .ok a q ∧ next a q = .ok b r := by
  simp only [bind, EStateM.bind]
  cases act p <;> simp

theorem map_eq_ok {f : α → β} {b : β} : (f <$> act) p = .ok b r ↔ ∃ a, act p = .ok a r ∧ b = f a := by
  simp only [Functor.map, EStateM.map]
  cases act p <;> simp [eq_comm, and_comm]

theorem decl_eq_ok {D : Decl} : decl d p = .ok D q ↔ p.decl? d = some D ∧ q = p := by
  cases hD : p.decl? d with
  | none =>
    have hrun : decl d p = .error .dangling p := by
      simp only [decl, bind, EStateM.bind, get_run, hD]
      rfl
    rw [hrun]
    constructor
    · rintro ⟨⟩
    · rintro ⟨⟨⟩, -⟩
  | some D' =>
    rw [decl_run hD]
    constructor
    · rintro ⟨⟩
      exact ⟨rfl, rfl⟩
    · rintro ⟨⟨⟩, rfl⟩
      rfl

/-- **A builder that fills in** the program it is given. -/
def FillsIn (act : BuildM α) : Prop := ∀ p a q, act p = .ok a q → FilledIn p q

namespace FillsIn

theorem pure (a : α) : FillsIn (Pure.pure a : BuildM α) := by
  rintro p _ _ ⟨⟩
  exact .refl p

theorem bind (h : FillsIn act) (hnext : ∀ a, FillsIn (next a)) : FillsIn (act >>= next) := by
  intro p b r hrun
  obtain ⟨a, q, hact, hrun⟩ := bind_eq_ok.1 hrun
  exact (h p a q hact).trans (hnext a q b r hrun)

theorem get : FillsIn (MonadState.get : BuildM Program) := by
  rintro p _ _ ⟨⟩
  exact .refl p

theorem halt (h : Halt) : FillsIn (throw h : BuildM α) := fun _ _ _ hrun => nomatch hrun

theorem decl (d : DeclId) : FillsIn (BuildM.decl d) := by
  refine get.bind fun p => ?_
  cases p.decl? d with
  | some D => exact pure D
  | none => exact halt _

theorem declType (d : DeclId) : FillsIn (BuildM.declType d) := (decl d).bind fun _ => pure _

theorem addExpr (span : Span) (form : ExprForm) (ty : Ty)
    (hform : ∀ callee dispatch extension args, form ≠ .call callee dispatch extension args) :
    FillsIn (BuildM.addExpr span form ty) := by
  rintro p _ _ ⟨⟩
  refine ⟨fun _ => rfl, fun hp e E hE => ?_⟩
  rw [expr?_pushExpr] at hE
  split at hE
  · cases hE
    exact hform
  · exact hp e E hE

theorem getValue (span : Span) (d : DeclId) : FillsIn (BuildM.getValue span d) :=
  (declType d).bind fun _ => addExpr span _ _ nofun

theorem this (span : Span) (receiver : Option DeclId) : FillsIn (BuildM.this span receiver) := by
  cases receiver with
  | none => exact pure none
  | some r => exact (getValue span r).bind fun _ => pure _

theorem getField (span : Span) (field : DeclId) (receiver : Option ExprId) :
    FillsIn (BuildM.getField span field receiver) :=
  (declType field).bind fun _ => addExpr span _ _ nofun

theorem setField (span : Span) (field : DeclId) (receiver : Option ExprId) (value : ExprId) :
    FillsIn (BuildM.setField span field receiver value) := addExpr span _ _ nofun

theorem ret (span : Span) (function : DeclId) (value : Option ExprId) : FillsIn (BuildM.ret span function value) :=
  addExpr span _ _ nofun

theorem block (span : Span) (ty : Ty) (stmts : List ExprId) : FillsIn (BuildM.block span ty stmts) :=
  addExpr span _ _ nofun

theorem modifyDecl (d : DeclId) (change : Decl → Decl) (h : ∀ D, (change D).form.outline = D.form.outline) :
    FillsIn (BuildM.modifyDecl d change) := by
  intro p a q hrun
  rw [BuildM.modifyDecl, bind_eq_ok] at hrun
  obtain ⟨D, p', hD, hrun⟩ := hrun
  obtain ⟨hD, rfl⟩ := decl_eq_ok.1 hD
  cases hrun
  exact .setDecl hD (h D)

theorem setBody (function : DeclId) (body : ExprId) : FillsIn (BuildM.setBody function body) := by
  refine modifyDecl function _ fun D => ?_
  cases hD : D.form <;> simp [hD, DeclForm.outline]

theorem attach (owner : Option DeclId) (member : DeclId) : FillsIn (BuildM.attach owner member) := by
  intro p a q hrun
  cases owner with
  | none =>
    cases hrun
    exact .addTopLevel p member
  | some o =>
    rw [BuildM.attach, bind_eq_ok] at hrun
    obtain ⟨D, p', hD, hrun⟩ := hrun
    obtain ⟨hD, rfl⟩ := decl_eq_ok.1 hD
    cases hform : D.form with
    | cls c =>
      simp only [hform, DeclForm.cls?] at hrun
      cases hrun
      exact .setDecl hD (by rw [hform]; rfl)
    | _ =>
      simp only [hform, DeclForm.cls?] at hrun
      cases hrun
      exact .addTopLevel p' member

end FillsIn

/-! ## Plain programs stay plain -/

section Plain

variable {span : Span} {name : String} {ty ty' : Ty} {property field : DeclId}

/-- A field or a parameter is plain. -/
theorem plain_pushDecl {D : Decl} (hp : p.Plain classes properties)
    (hD : (∃ x, D.form = .field x) ∨ ∃ x, D.form = .parameter x) : (p.pushDecl D).Plain classes properties := by
  refine hp.pushDecl (List.Subset.refl _) (List.Subset.refl _) ?_
  rcases hD with ⟨x, hx⟩ | ⟨x, hx⟩ <;> simp [hx, DeclForm.outline, PlainForm]

/-- An accessor is plain, with the receiver that its property is to have. -/
theorem plain_pushAccessor {G : Decl} {f : FunctionDecl} (hp : p.Plain classes properties) (hG : G.form = .function f)
    (hf : f.property = some property) (hproperty : p.outline? property = some (.property { ty := ty', owner }))
    (hreceiver : p.ReceiverOf owner f.dispatchReceiver) : (p.pushDecl G).Plain classes properties := by
  have hgrows : Outgrows p (p.pushDecl G) := .pushDecl p G
  refine hp.pushDecl (List.Subset.refl _) (List.Subset.refl _) ?_
  rw [hG]
  intro x hx
  obtain rfl : property = x := Option.some.inj (hf.symm.trans hx)
  exact ⟨ty', owner, hgrows _ _ hproperty, hreceiver.mono hgrows⟩

/-- **The receiver of a member** is an instance of its class. -/
theorem receiver_plain (hp : p.Plain classes properties) (howner : ∀ o, owner = some o → p.IsClass o)
    {receiver : Option DeclId} (hrun : BuildM.receiver span owner p = .ok receiver q) :
    q.Plain classes properties ∧ Outgrows p q ∧ q.ReceiverOf owner receiver := by
  cases owner with
  | none =>
    cases hrun
    exact ⟨hp, fun _ _ => id, rfl⟩
  | some o =>
    obtain ⟨C, c, hC, hc⟩ := howner o rfl
    have hty : instanceType o p = .ok (.reference c.hash false) p := by
      simp only [instanceType, bind, EStateM.bind, decl_run hC, hc, DeclForm.cls?]
      rfl
    let R := Decl.receiver (.reference c.hash false) span
    have hR : BuildM.receiver span (some o) p = .ok (some p.nextDecl) (p.pushDecl R) := by
      simp only [BuildM.receiver, bind, EStateM.bind, hty]
      rfl
    rw [hR] at hrun
    cases hrun
    have hgrows : Outgrows p (p.pushDecl R) := .pushDecl p R
    refine ⟨plain_pushDecl hp (.inr ⟨_, rfl⟩), hgrows, p.nextDecl, c.hash, rfl, hgrows _ _ ?_, ?_⟩
    · rw [outline?_of_decl? hC, hc]
      rfl
    · rw [outline?_pushDecl, if_pos rfl]
      rfl

theorem declareGetter_plain (hp : p.Plain classes properties) (howner : ∀ o, owner = some o → p.IsClass o)
    (hproperty : p.outline? property = some (.property { ty := ty', owner })) {getter : DeclId}
    (hrun : declareGetter span owner property field name ty p = .ok getter q) :
    q.Plain classes properties ∧ Outgrows p q := by
  rw [declareGetter, bind_eq_ok] at hrun
  obtain ⟨receiver, p₁, h₁, hrun⟩ := hrun
  obtain ⟨hp₁, hgrows, hreceiver⟩ := receiver_plain hp howner h₁
  obtain ⟨_, _, ⟨⟩, hrun⟩ := bind_eq_ok.1 hrun
  let f : FunctionDecl := { returnType := ty, dispatchReceiver := receiver, property := some property }
  let G : Decl := { name := "<get-" ++ name ++ ">", span := span, form := .function f }
  have hp₂ : (p₁.pushDecl G).Plain classes properties :=
    plain_pushAccessor hp₁ rfl rfl (hgrows _ _ hproperty) hreceiver
  have hfill := FillsIn.bind (.this span receiver) (fun this => .bind (.getField span field this) fun read =>
    .bind (.ret span _ read) fun result => .bind (.block span _ _) fun body => .bind (.setBody _ body) fun _ => .pure _)
    _ _ _ hrun
  exact ⟨hfill.plain hp₂, hgrows.trans ((Outgrows.pushDecl _ _).trans hfill.outgrows)⟩

theorem declareSetter_plain (hp : p.Plain classes properties) (howner : ∀ o, owner = some o → p.IsClass o)
    (hproperty : p.outline? property = some (.property { ty := ty', owner })) {setter : DeclId}
    (hrun : declareSetter span owner property field name ty p = .ok setter q) :
    q.Plain classes properties ∧ Outgrows p q := by
  rw [declareSetter, bind_eq_ok] at hrun
  obtain ⟨receiver, p₁, h₁, hrun⟩ := hrun
  obtain ⟨hp₁, hgrows, hreceiver⟩ := receiver_plain hp howner h₁
  obtain ⟨value, p₂, ⟨⟩, hrun⟩ := bind_eq_ok.1 hrun
  let V := Decl.parameter "value" ty 0 span
  have hgrows₂ : Outgrows p₁ (p₁.pushDecl V) := .pushDecl p₁ V
  have hp₂ : (p₁.pushDecl V).Plain classes properties := plain_pushDecl hp₁ (.inr ⟨_, rfl⟩)
  obtain ⟨_, _, ⟨⟩, hrun⟩ := bind_eq_ok.1 hrun
  let f : FunctionDecl :=
    { returnType := .unit, params := [p₁.nextDecl], dispatchReceiver := receiver, property := some property }
  let G : Decl := { name := "<set-" ++ name ++ ">", span := span, form := .function f }
  have hp₃ : ((p₁.pushDecl V).pushDecl G).Plain classes properties :=
    plain_pushAccessor hp₂ rfl rfl (hgrows₂ _ _ (hgrows _ _ hproperty)) (hreceiver.mono hgrows₂)
  have hfill := FillsIn.bind (.this span receiver) (fun this => .bind (.getValue span _) fun newValue =>
    .bind (.setField span field this newValue) fun store => .bind (.block span _ _) fun body =>
      .bind (.setBody _ body) fun _ => .pure _) _ _ _ hrun
  exact ⟨hfill.plain hp₃, (hgrows.trans hgrows₂).trans ((Outgrows.pushDecl _ _).trans hfill.outgrows)⟩

theorem declareClass_plain (span : Span) (name : String) (hp : p.Plain classes properties) :
    ∃ q, declareClass span name p = .ok p.nextDecl q ∧ q.Plain (classes ++ [p.nextDecl]) properties := by
  let C : Decl :=
    { name := (QualifiedName.parse name).simple
      span := span
      form := .cls { hash := (QualifiedName.parse name).hash } }
  have hC : (p.pushDecl C).Plain (classes ++ [p.nextDecl]) properties :=
    hp.pushDecl (List.subset_append_left _ _) (List.Subset.refl _) (List.mem_append_right classes List.mem_cons_self)
  exact ⟨_, rfl, (FilledIn.addTopLevel _ _).plain hC⟩

theorem declareFunction_plain (hp : p.Plain classes properties) (howner : ∀ o, owner = some o → p.IsClass o)
    {function : DeclId} (hrun : declareFunction span owner name ty p = .ok function q) :
    q.Plain classes properties ∧ ∃ receiver, q.ReceiverOf owner receiver ∧
      q.outline? function = some (.function { returnType := ty, dispatchReceiver := receiver }) := by
  rw [declareFunction, bind_eq_ok] at hrun
  obtain ⟨receiver, p₁, h₁, hrun⟩ := hrun
  obtain ⟨hp₁, hgrows, hreceiver⟩ := receiver_plain hp howner h₁
  obtain ⟨_, _, ⟨⟩, hrun⟩ := bind_eq_ok.1 hrun
  let F : Decl := { name := name, span := span, form := .function { returnType := ty, dispatchReceiver := receiver } }
  have hp₂ : (p₁.pushDecl F).Plain classes properties :=
    hp₁.pushDecl (List.Subset.refl _) (List.Subset.refl _) fun x hx => nomatch hx
  have hfunction : (p₁.pushDecl F).outline? p₁.nextDecl = some F.form.outline := by
    rw [outline?_pushDecl, if_pos rfl]
  obtain ⟨_, _, hattach, ⟨⟩⟩ := bind_eq_ok.1 hrun
  have hfill := FillsIn.attach owner _ _ _ _ hattach
  exact ⟨hfill.plain hp₂, receiver, hreceiver.mono ((Outgrows.pushDecl p₁ F).trans hfill.outgrows),
    hfill.outgrows _ _ hfunction⟩

/-- A property takes its parts, and is attached to its owner. -/
theorem completeProperty_filledIn {backingField getter setter : Option DeclId} {parts parts' : PropertyParts}
    (hproperty : p.outline? property = some (.property { ty, owner }))
    (hrun : (do
      modifyDecl property fun d => { d with form := .property { ty, owner, backingField, getter, setter } }
      attach owner property
      return parts : BuildM PropertyParts) p = .ok parts' q) : parts' = parts ∧ FilledIn p q := by
  obtain ⟨_, p₁, hmodify, hrun⟩ := bind_eq_ok.1 hrun
  obtain ⟨P, hP, hform⟩ := Option.map_eq_some_iff.1 hproperty
  rw [modifyDecl_run hP] at hmodify
  cases hmodify
  obtain ⟨_, p₂, hattach, ⟨⟩⟩ := bind_eq_ok.1 hrun
  have hset : FilledIn p (p.setDecl property
      { P with form := .property { ty, owner, backingField, getter, setter } }) := .setDecl hP hform.symm
  exact ⟨rfl, hset.trans (FillsIn.attach owner property _ _ _ hattach)⟩

/-- **A property is declared**, under the next handle, and there is no other. -/
theorem declareProperty_plain {modifiers : Modifiers} (hp : p.Plain classes properties)
    (howner : ∀ o, owner = some o → p.IsClass o) {parts : PropertyParts}
    (hrun : declareProperty span owner name ty modifiers p = .ok parts q) :
    parts.property = p.nextDecl ∧ q.Plain classes (properties ++ [p.nextDecl]) := by
  rw [declareProperty] at hrun
  generalize (if owner.isNone then modifiers ∪ .static else modifiers) = m at hrun
  dsimp only at hrun
  obtain ⟨_, _, ⟨⟩, hrun⟩ := bind_eq_ok.1 hrun
  obtain ⟨_, _, ⟨⟩, hrun⟩ := bind_eq_ok.1 hrun
  obtain ⟨getter, p₃, h₃, hrun⟩ := bind_eq_ok.1 hrun
  let P : Decl := { name := name, span := span, modifiers := m, form := .property { ty, owner } }
  let F : Decl :=
    { name := name, span := span, modifiers := m ∩ (.static ∪ .mutable)
      form := .field { ty, owner, property := some p.nextDecl } }
  have hp₁ : (p.pushDecl P).Plain classes (properties ++ [p.nextDecl]) :=
    hp.pushDecl (List.Subset.refl _) (List.subset_append_left _ _) (List.mem_append_right properties List.mem_cons_self)
  have hp₂ : ((p.pushDecl P).pushDecl F).Plain classes (properties ++ [p.nextDecl]) :=
    plain_pushDecl hp₁ (.inl ⟨_, rfl⟩)
  have hgrows₂ : Outgrows p ((p.pushDecl P).pushDecl F) := (Outgrows.pushDecl p P).trans (.pushDecl _ F)
  have hproperty : ((p.pushDecl P).pushDecl F).outline? p.nextDecl = some (.property { ty, owner }) :=
    Outgrows.pushDecl _ F _ _ (by rw [outline?_pushDecl, if_pos rfl]; rfl)
  obtain ⟨hp₃, hgrows₃⟩ := declareGetter_plain hp₂ (fun o ho => (howner o ho).mono hgrows₂) hproperty h₃
  split at hrun
  · obtain ⟨setter, p₄, h₄, hrun⟩ := bind_eq_ok.1 hrun
    obtain ⟨s, hs, rfl⟩ := map_eq_ok.1 h₄
    obtain ⟨hp₄, hgrows₄⟩ := declareSetter_plain hp₃ (fun o ho => (howner o ho).mono (hgrows₂.trans hgrows₃))
      (hgrows₃ _ _ hproperty) hs
    obtain ⟨rfl, hfill⟩ := completeProperty_filledIn (hgrows₄ _ _ (hgrows₃ _ _ hproperty)) hrun
    exact ⟨rfl, hfill.plain hp₄⟩
  · obtain ⟨rfl, hfill⟩ := completeProperty_filledIn (hgrows₃ _ _ hproperty) hrun
    exact ⟨rfl, hfill.plain hp₃⟩

end Plain

/-- **A function is declared**, which is new. -/
theorem declareFunction_declares (span : Span) (name : String) (returnType : Ty)
    (howner : ∀ o, owner = some o → p.IsClass o) :
    ∃ function q receiver, declareFunction span owner name returnType p = .ok function q ∧
      Declares p q owner function ∧ ¬p.Has (.decl function) ∧ q.decl? function = some
        { name, span, form := .function { returnType, dispatchReceiver := receiver } } := by
  obtain ⟨receiver, p₁, h₁, b₁, -, hreceiver⟩ := receiver_builds (p := p) span fun o ho => by
    obtain ⟨C, c, hC, -⟩ := howner o ho
    exact has_of_decl? hC
  let F : Decl := { name := name, span := span, form := .function { returnType, dispatchReceiver := receiver } }
  have b₂ : Builds p (p₁.pushDecl F) [.decl p₁.nextDecl] := by
    refine Builds.pushDecl (T := []) (by cases receiver <;> exact b₁) fun n hn => ?_
    simp only [F, DeclForm.mentioned, Option.toList_none, List.append_nil, List.map_nil, List.mem_map,
      Option.mem_toList] at hn
    obtain ⟨x, hx, rfl⟩ := hn
    exact (hreceiver x hx).has
  obtain ⟨q, hattach, hq, hdecl, -⟩ := attach_declares b₂ (has_pushDecl.2 (.inl rfl)) howner
  have hF : (p₁.pushDecl F).decl? p₁.nextDecl = some F := by simp
  refine ⟨p₁.nextDecl, q, receiver, ?_, hq, fun h => not_has_nextDecl (b₁.old.has h),
    hdecl _ _ hF fun _ h => by cases h⟩
  simp only [declareFunction, bind, EStateM.bind, h₁, addDecl_run]
  simp only [F] at hattach
  simp only [hattach]
  rfl

end BuildM

/-! ## Answers -/

/-- A property that has been declared stays as it is. -/
theorem Program.Declares.declaredProperty {parts : PropertyParts} {span : Span} {o : Option DeclId} {name : String}
    {ty : Ty} {modifiers : Modifiers} (h : Declares p q owner member)
    (hp : p.DeclaredProperty parts span o name ty modifiers) : q.DeclaredProperty parts span o name ty modifiers where
  property := h.decl? hp.property nofun
  field := h.decl? hp.field nofun
  getter := by
    obtain ⟨receiver, body, hf, hr, hb⟩ := hp.getter
    exact ⟨receiver, body, h.keeps.isFunction hf, hr, h.keeps.returnsField hb⟩
  setter s hs := by
    obtain ⟨receiver, value, body, hf, hr, hb⟩ := hp.setter s hs
    exact ⟨receiver, value, body, h.keeps.isFunction hf, hr, h.keeps.storesField hb⟩

/-- **What answers a request**: a declaration of the name, the type and the modifiers that were asked for, with a
receiver and parts as its owner wants them.  The owner is the class of that number among the items before. -/
inductive Request.Answered (p : Program) (items : List Item) : Request → Item → Prop
  | cls {span : Span} {name : String} {d : DeclId} {members : List DeclId} :
      p.decl? d = some
        { name := (QualifiedName.parse name).simple, span
          form := .cls { hash := (QualifiedName.parse name).hash, members } } →
      Answered p items (.cls span name) (.cls d)
  | function {span : Span} {owner : Option Nat} {name : String} {returnType : Ty} {f : DeclId}
      {receiver : Option DeclId} :
      p.decl? f = some { name, span, form := .function { returnType, dispatchReceiver := receiver } } →
      p.ReceiverOf (ownerOf items owner) receiver →
      Answered p items (.function span owner name returnType) (.function f (ownerOf items owner))
  | property {span : Span} {owner : Option Nat} {name : String} {ty : Ty} {modifiers : Modifiers}
      {parts : PropertyParts} :
      p.DeclaredProperty parts span (ownerOf items owner) name ty modifiers →
      Answered p items (.property span owner name ty modifiers)
        (.property parts span (ownerOf items owner) name ty modifiers)

/-- **All requests are answered**, each by one item, in the order in which they were made. -/
inductive AllAnswered (p : Program) : List Request → List Item → Prop
  | nil : AllAnswered p [] []
  | snoc {requests : List Request} {items : List Item} {request : Request} {item : Item} :
      AllAnswered p requests items → request.Answered p items item →
      AllAnswered p (requests ++ [request]) (items ++ [item])

/-- One more declaration leaves an answer as it is. -/
theorem Request.Answered.declares {items : List Item} {request : Request} {item : Item}
    (h : request.Answered p items item) (hq : Declares p q owner member) : request.Answered q items item := by
  cases h with
  | cls hD => exact .cls (hq.cls? hD rfl)
  | function hF hreceiver => exact .function (hq.decl? hF nofun) (hreceiver.mono hq.outgrows)
  | property hproperty => exact .property (hq.declaredProperty hproperty)

/-- One more declaration leaves all answers as they are. -/
theorem AllAnswered.declares {requests : List Request} {items : List Item} (h : AllAnswered p requests items)
    (hq : Declares p q owner member) : AllAnswered q requests items := by
  induction h with
  | nil => exact .nil
  | snoc _ hitem ih => exact .snoc ih (hitem.declares hq)

/-! ## What is emitted -/

/-- **A program that a front end has emitted**, and what it has declared there. -/
structure Emitted (p : Program) (items : List Item) : Prop where
  closed : p.Closed
  forest : p.IsForest
  /-- Owners are classes that have been declared. -/
  owner : ∀ item ∈ items, ∀ o, item.owner = some o → o ∈ classesOf items
  cls : ∀ d ∈ classesOf items, p.IsClass d
  /-- Everything is a member of its owner, once, and of nothing else. -/
  once : ∀ item ∈ items, ∀ o, (p.membersOf o).count item.member = if o = item.owner then 1 else 0
  property : ∀ parts span owner name ty modifiers, .property parts span owner name ty modifiers ∈ items →
    p.DeclaredProperty parts span owner name ty modifiers ∧ parts.setter.isSome = modifiers.isMutable
  plain : p.Plain (classesOf items) (propertiesOf items)

namespace Emitted

variable {items : List Item}

theorem classesOf_append (items : List Item) (item : Item) :
    classesOf (items ++ [item]) = classesOf items ++ item.cls?.toList := by
  cases h : item.cls? <;> simp [classesOf, h]

theorem propertiesOf_append (items : List Item) (item : Item) :
    propertiesOf (items ++ [item]) = propertiesOf items ++ item.property?.toList := by
  cases h : item.property? <;> simp [propertiesOf, h]

theorem mem_membersOf (hi : Emitted p items) {item : Item} (h : item ∈ items) :
    item.member ∈ p.membersOf item.owner := by
  refine List.count_pos_iff.1 ?_
  rw [hi.once item h, if_pos rfl]
  exact Nat.one_pos

theorem has_member (hi : Emitted p items) {item : Item} (h : item ∈ items) : p.Has (.decl item.member) :=
  hi.closed.has_of_mem_membersOf (hi.mem_membersOf h)

/-- Nothing is declared in the beginning. -/
theorem nil (name : String) : Emitted { name } [] where
  closed := by simp [Closed]
  forest := ⟨[], .nil, nofun, .refl []⟩
  owner := nofun
  cls := nofun
  once := nofun
  property := nofun
  plain := ⟨fun d form h => by simp [outline?, decl?] at h, fun e E h => by simp [expr?] at h⟩

/-- **What is declared next** changes nothing of what there is. -/
theorem declares (hi : Emitted p items) {item : Item} (h : Declares p q item.owner item.member)
    (hfresh : ¬p.Has (.decl item.member)) (howner : ∀ o, item.owner = some o → o ∈ classesOf items)
    (hplain : q.Plain (classesOf (items ++ [item])) (propertiesOf (items ++ [item])))
    (hcls : ∀ d, item = .cls d → q.IsClass d ∧ q.membersOf (some d) = [])
    (hproperty : ∀ parts span owner name ty modifiers, item = .property parts span owner name ty modifiers →
      q.DeclaredProperty parts span owner name ty modifiers ∧ parts.setter.isSome = modifiers.isMutable) :
    Emitted q (items ++ [item]) := by
  have hclasses : classesOf items ⊆ classesOf (items ++ [item]) := by
    rw [classesOf_append]
    exact List.subset_append_left _ _
  have hnewClass (d : DeclId) (hd : d ∈ classesOf (items ++ [item])) : d ∈ classesOf items ∨ item = .cls d := by
    rw [classesOf_append, List.mem_append, Option.mem_toList] at hd
    refine hd.imp_right fun hd => ?_
    cases item <;> simp_all [Item.cls?]
  have hmembers := h.membersOf (fun o ho => hi.cls o (howner o ho)) fun d hd => by
    obtain ⟨C, c, hC, hc⟩ := hd
    have hplainForm := hplain.decl d _ (outline?_of_decl? hC)
    rw [hc] at hplainForm
    rcases hnewClass d hplainForm with hold | hnew
    · exact .inl (hi.cls d hold)
    · exact .inr (hcls d hnew).2
  refine ⟨h.closed hi.closed, h.forest hi.forest, fun i hmem o ho => ?_, fun d hd => ?_, fun i hmem o => ?_,
    fun parts span owner name ty modifiers hmem => ?_, hplain⟩
  · rcases List.mem_append.1 hmem with hmem | hmem
    · exact hclasses (hi.owner i hmem o ho)
    · exact hclasses (howner o (List.mem_singleton.1 hmem ▸ ho))
  · rcases hnewClass d hd with hold | hnew
    · exact h.isClass (hi.cls d hold)
    · exact (hcls d hnew).1
  · rw [hmembers, List.count_append]
    rcases List.mem_append.1 hmem with hmem | hmem
    · have hne : item.member ≠ i.member := fun heq => hfresh (heq ▸ hi.has_member hmem)
      have hnone : (if o = item.owner then [item.member] else []).count i.member = 0 := by
        split <;> simp [hne]
      rw [hi.once i hmem, hnone, Nat.add_zero]
    · obtain rfl := List.mem_singleton.1 hmem
      have hzero : (p.membersOf o).count i.member = 0 :=
        List.count_eq_zero.2 fun hmem => hfresh (hi.closed.has_of_mem_membersOf hmem)
      rw [hzero]
      split <;> simp
  · rcases List.mem_append.1 hmem with hmem | hmem
    · obtain ⟨hp, hsetter⟩ := hi.property _ _ _ _ _ _ hmem
      exact ⟨h.declaredProperty hp, hsetter⟩
    · exact hproperty _ _ _ _ _ _ (List.mem_singleton.1 hmem).symm

theorem mem_classesOf {owner : Option Nat} {o : DeclId} (h : ownerOf items owner = some o) : o ∈ classesOf items := by
  obtain ⟨n, -, hn⟩ := Option.bind_eq_some_iff.1 h
  exact List.mem_of_getElem? hn

/-- **Whatever is asked for next is declared.** -/
theorem declare (hi : Emitted p items) (request : Request) :
    ∃ item q, request.declare items p = .ok item q ∧ Declares p q item.owner item.member ∧
      request.Answered q items item ∧ Emitted q (items ++ [item]) := by
  have howner (owner : Option Nat) : ∀ o, ownerOf items owner = some o → p.IsClass o :=
    fun o ho => hi.cls o (mem_classesOf ho)
  cases request with
  | cls span name =>
    obtain ⟨q, hrun, hq, hC⟩ := BuildM.declareClass_declares span name p
    obtain ⟨q', hrun', hplain⟩ := BuildM.declareClass_plain span name hi.plain
    rw [hrun] at hrun'
    cases hrun'
    refine ⟨.cls p.nextDecl, q, ?_, hq, .cls hC, hi.declares hq not_has_nextDecl nofun ?_ ?_ nofun⟩
    · exact BuildM.map_eq_ok.2 ⟨_, hrun, rfl⟩
    · rw [classesOf_append, propertiesOf_append]
      simpa [Item.cls?, Item.property?] using hplain
    · rintro d ⟨⟩
      exact ⟨⟨_, _, hC, rfl⟩, membersOf_cls hC rfl⟩
  | function span owner name returnType =>
    obtain ⟨f, q, receiver, hrun, hq, hfresh, hF⟩ := BuildM.declareFunction_declares span name returnType (howner owner)
    obtain ⟨hplain, receiver', hreceiver, houtline⟩ := BuildM.declareFunction_plain hi.plain (howner owner) hrun
    rw [outline?_of_decl? hF] at houtline
    cases houtline
    refine ⟨.function f (ownerOf items owner), q, ?_, hq, .function hF hreceiver,
      hi.declares hq hfresh (fun o => mem_classesOf) ?_ nofun nofun⟩
    · exact BuildM.bind_eq_ok.2 ⟨_, _, hrun, rfl⟩
    · rw [classesOf_append, propertiesOf_append]
      simpa [Item.cls?, Item.property?] using hplain
  | property span owner name ty modifiers =>
    obtain ⟨parts, q, hrun, hq, hdeclared, hsetter⟩ :=
      BuildM.declareProperty_declares span name ty modifiers (howner owner)
    obtain ⟨hnext, hplain⟩ := BuildM.declareProperty_plain hi.plain (howner owner) hrun
    have hfresh : ¬p.Has (.decl parts.property) := by
      rw [hnext]
      exact not_has_nextDecl
    refine ⟨.property parts span (ownerOf items owner) name ty modifiers, q, ?_, hq, .property hdeclared,
      hi.declares hq hfresh (fun o => mem_classesOf) ?_ nofun ?_⟩
    · exact BuildM.bind_eq_ok.2 ⟨_, _, hrun, rfl⟩
    · rw [classesOf_append, propertiesOf_append]
      simpa [Item.cls?, Item.property?, hnext] using hplain
    · rintro _ _ _ _ _ _ ⟨⟩
      exact ⟨hdeclared, hsetter.trans (Modifiers.contains_static _ (by decide))⟩

/-- What has been declared stays, whatever else is asked for. -/
theorem declareAll {done : List Request} (hi : Emitted p items) (hdone : AllAnswered p done items)
    (requests : List Request) :
    ∃ items' q, requests.foldlM declareNext items p = .ok items' q ∧ AllAnswered q (done ++ requests) items' ∧
      Emitted q items' := by
  induction requests generalizing p items done with
  | nil => exact ⟨items, p, rfl, by rwa [List.append_nil], hi⟩
  | cons request rest ih =>
    obtain ⟨item, q, hrun, hdeclares, hitem, hq⟩ := hi.declare request
    obtain ⟨items', q', hrest, hall, hq'⟩ := ih hq ((hdone.declares hdeclares).snoc hitem)
    refine ⟨items', q', ?_, by rwa [List.append_assoc] at hall, hq'⟩
    rw [List.foldlM_cons]
    exact BuildM.bind_eq_ok.2 ⟨_, q, BuildM.bind_eq_ok.2 ⟨item, q, hrun, rfl⟩, hrest⟩

end Emitted

/-! ## Links -/

namespace Program

/-- **A property and its parts belong together**: they refer to each other, and no other property refers to them.  The
accessors have the receiver that is wanted, and there is a setter if the property is mutable. -/
structure Linked (p : Program) (parts : PropertyParts) (owner : Option DeclId) (modifiers : Modifiers) : Prop where
  property : ∃ P q, p.decl? parts.property = some P ∧ P.form = .property q ∧ q.owner = owner ∧
    q.backingField = some parts.field ∧ q.getter = some parts.getter ∧ q.setter = parts.setter
  field : ∃ F x, p.decl? parts.field = some F ∧ F.form = .field x ∧ x.property = some parts.property
  accessor : ∀ f, f = parts.getter ∨ parts.setter = some f → ∃ F x, p.decl? f = some F ∧ F.form = .function x ∧
    x.property = some parts.property ∧ p.ReceiverOf owner x.dispatchReceiver
  isSome_setter : parts.setter.isSome = modifiers.isMutable
  unshared : ∀ x X q, p.decl? x = some X → X.form = .property q → x ≠ parts.property →
    q.backingField ≠ some parts.field ∧ ∀ f, f = parts.getter ∨ parts.setter = some f →
      q.getter ≠ some f ∧ q.setter ≠ some f

namespace DeclaredProperty

variable {parts : PropertyParts} {span : Span} {name : String} {ty : Ty} {modifiers : Modifiers}

/-- Accessors refer to their property. -/
theorem accessor (h : p.DeclaredProperty parts span owner name ty modifiers) {f : DeclId}
    (hf : f = parts.getter ∨ parts.setter = some f) :
    ∃ F x, p.decl? f = some F ∧ F.form = .function x ∧ x.property = some parts.property := by
  rcases hf with rfl | hf
  · obtain ⟨receiver, body, ⟨⟨F, returnType, hF, hform⟩, -, -⟩, -⟩ := h.getter
    exact ⟨F, _, hF, hform, rfl⟩
  · obtain ⟨receiver, value, body, ⟨⟨F, returnType, hF, hform⟩, -, -⟩, -⟩ := h.setter f hf
    exact ⟨F, _, hF, hform, rfl⟩

end DeclaredProperty

end Program

/-- **Every property that is emitted belongs together with its parts.** -/
theorem Emitted.linked {items : List Item} (hi : Emitted p items) {parts : PropertyParts} {span : Span} {name : String}
    {ty : Ty} {modifiers : Modifiers} (h : .property parts span owner name ty modifiers ∈ items) :
    p.Linked parts owner modifiers := by
  obtain ⟨hdeclared, hsetter⟩ := hi.property _ _ _ _ _ _ h
  refine ⟨⟨_, _, hdeclared.property, rfl, rfl, rfl, rfl, rfl⟩, ⟨_, _, hdeclared.field, rfl, rfl⟩, fun f hf => ?_,
    hsetter, fun x X q hX hq hne => ?_⟩
  · obtain ⟨F, fn, hF, hform, hproperty⟩ := hdeclared.accessor hf
    have hplain := hi.plain.decl f _ (outline?_of_decl? hF)
    rw [hform] at hplain
    obtain ⟨ty', owner', houtline, hreceiver⟩ := hplain _ hproperty
    rw [outline?_of_decl? hdeclared.property] at houtline
    cases houtline
    exact ⟨F, fn, hF, hform, hproperty, hreceiver⟩
  · -- the other property has been declared as well, and its parts refer to it
    have hplain := hi.plain.decl x _ (outline?_of_decl? hX)
    rw [hq] at hplain
    obtain ⟨item, hitem, hx⟩ := List.mem_filterMap.1 (show x ∈ propertiesOf items from hplain)
    cases item with
    | property parts' span' owner' name' ty' modifiers' =>
      obtain rfl := Option.some.inj hx
      obtain ⟨hdeclared', -⟩ := hi.property _ _ _ _ _ _ hitem
      rw [hdeclared'.property] at hX
      cases hX
      cases hq
      have hfield : parts'.field ≠ parts.field := by
        intro heq
        have hF := hdeclared'.field
        rw [heq, hdeclared.field] at hF
        have hproperty := congrArg (fun D : Option Decl => (D.bind (·.form.field?)).bind (·.property)) hF
        exact hne (Option.some.inj hproperty).symm
      have haccessor {f : DeclId} (hf : f = parts.getter ∨ parts.setter = some f) :
          ¬(f = parts'.getter ∨ parts'.setter = some f) := by
        intro hf'
        obtain ⟨F, fn, hF, hform, hproperty⟩ := hdeclared.accessor hf
        obtain ⟨F', fn', hF', hform', hproperty'⟩ := hdeclared'.accessor hf'
        rw [hF] at hF'
        cases hF'
        rw [hform] at hform'
        cases hform'
        exact hne (Option.some.inj (hproperty'.symm.trans hproperty))
      exact ⟨fun h => hfield (Option.some.inj h), fun f hf =>
        ⟨fun h => haccessor hf (.inl (Option.some.inj h).symm), fun h => haccessor hf (.inr h)⟩⟩
    | _ => cases hx

/-- **A front end can declare whatever it likes**, and knows what comes out. -/
theorem declareAll_emits (name : String) (requests : List Request) :
    ∃ items p, declareAll requests { name } = .ok items p ∧ AllAnswered p requests items ∧ Emitted p items :=
  (Emitted.nil name).declareAll .nil requests

/-- A mutable property for which there is no class yet, and a function. -/
example : (match declareAll [.property .unknown (some 0) "name" .string .mutable, .function .unknown none "main" .unit]
      { name := "sample" } with
    | .ok items _ => items
    | .error _ _ => []) =
    [.property ⟨⟨0⟩, ⟨1⟩, ⟨2⟩, some ⟨4⟩⟩ .unknown none "name" .string .mutable, .function ⟨5⟩ none] := rfl

end DeferredInit
