import DeferredInit.Proofs.Program.Declared
import DeferredInit.Proofs.Program.Modifiers

/-!
# Programs of deferred properties

A front end declares classes and mutable deferred properties, of classes or outermost, and functions that ask whether
such a property is initialized: `Built` says that a program was built in this way, and records what was declared.

`Inventory` is what is known of such a program.  It is closed and a forest, everything declared can be reached, and
whatever has been declared is there with all its parts (`HasCell`, `HasQuery`).  Each declaration adds to the inventory
and changes nothing in it (`Built.inventory`).
-/

namespace DeferredInit

open Program

/-! ## What is declared -/

/-- **A deferred property** as a cell: its parts, and where its value is kept. -/
structure Cell where
  /-- The property. -/
  property : DeclId
  /-- The field that stores the value. -/
  field : DeclId
  /-- The function that reads it. -/
  getter : DeclId
  /-- The function that writes it. -/
  setter : DeclId
  /-- The name. -/
  name : String
  /-- Whether it is a member of a class; its accessors are called on an instance then. -/
  isMember : Bool
  /-- Whether there is one value for the whole program. -/
  isStatic : Bool
deriving DecidableEq

/-- **What a query asks of**: nothing, the receiver of the function that it stands in, or one of the parameters. -/
inductive Asked where
  | nothing
  | this
  | parameter (i : Nat)
deriving DecidableEq

namespace Asked

/-- What is asked, out of a receiver and parameters. -/
def among {α : Type} (receiver : Option α) (params : List α) : Asked → Option α
  | nothing => none
  | this => receiver
  | parameter i => params[i]?

/-- Whether there is anything to ask, in a function with or without a receiver and with so many parameters. -/
def isThere (hasReceiver : Bool) (arity : Nat) : Asked → Bool
  | nothing => false
  | this => hasReceiver
  | parameter i => i < arity

theorem isSome_among {α : Type} (receiver : Option α) (params : List α) (asked : Asked) :
    (asked.among receiver params).isSome = asked.isThere receiver.isSome params.length := by
  cases asked with
  | nothing | this => rfl
  | parameter i =>
    rw [among, isThere, Bool.eq_iff_iff]
    simp

end Asked

/-- **A function that asks** whether a property is initialized. -/
structure Query where
  /-- The function. -/
  function : DeclId
  /-- How many parameters it has. -/
  arity : Nat
  /-- The property that it asks about. -/
  cell : Cell
  /-- Of what. -/
  asked : Asked
deriving DecidableEq

namespace BuildM

variable (span : Span)

/-- Declares parameters, from a place on. -/
def declareParams : Nat → List (String × Ty) → BuildM (List DeclId)
  | _, [] => return []
  | i, (name, ty) :: rest => do
    let x ← addDecl (Decl.parameter name ty i span)
    return x :: (← declareParams (i + 1) rest)

/-- **Declares a function that asks** a library function whether a property is initialized, and returns the answer.
The body has a position of its own. -/
def declareQuery (bodySpan : Span) (isInitialized : SymbolHash) (owner : Option DeclId) (name : String)
    (returnType : Ty) (params : List (String × Ty)) (property : DeclId) (ty : Ty) (asked : Asked) : BuildM DeclId := do
  let receiver ← receiver span owner
  let params ← declareParams span 0 params
  let function ← functionWith
    { name, span, form := .function { returnType, params, dispatchReceiver := receiver } } fun function => do
      let subject ← this bodySpan (asked.among receiver params)
      let reference ← propertyRef bodySpan property subject ty
      let query ← call bodySpan (.library isInitialized) .boolean none (some reference) []
      let result ← ret bodySpan function (some query)
      block bodySpan .unit [result]
  attach owner function
  return function

end BuildM

/-- **Programs of deferred properties**: what a front end builds that declares classes, mutable deferred properties and
functions that ask whether these are initialized, in any order, with what it has declared. -/
inductive Built (isInitialized : SymbolHash) : Program → List DeclId → List Cell → List Query → Prop
  /-- Nothing is declared yet. -/
  | empty (name : String) : Built isInitialized { name } [] [] []
  /-- A class. -/
  | cls {p q : Program} {classes : List DeclId} {cells : List Cell} {queries : List Query} {span : Span} {name : String}
      {d : DeclId} :
      Built isInitialized p classes cells queries → BuildM.declareClass span name p = .ok d q →
      Built isInitialized q (d :: classes) cells queries
  /-- A property, of a class or outermost.  It is deferred, mutable and not inherited. -/
  | property {p q : Program} {classes : List DeclId} {cells : List Cell} {queries : List Query} {span : Span}
      {owner : Option DeclId} {name : String} {ty : Ty} {modifiers : Modifiers}
      {property field getter setter : DeclId} :
      Built isInitialized p classes cells queries → (∀ o, owner = some o → o ∈ classes) →
      modifiers.isDeferredInit = true → modifiers.isMutable = true → modifiers.isFakeOverride = false →
      BuildM.declareProperty span owner name ty modifiers p = .ok ⟨property, field, getter, some setter⟩ q →
      Built isInitialized q classes
        ({ property, field, getter, setter, name, isMember := owner.isSome,
           isStatic := owner.isNone || modifiers.isStatic } :: cells) queries
  /-- A function that asks about a property, of its own receiver or of a parameter if the property is a member. -/
  | query {p q : Program} {classes : List DeclId} {cells : List Cell} {queries : List Query} {span bodySpan : Span}
      {owner : Option DeclId} {name : String} {returnType ty : Ty} {params : List (String × Ty)} {cell : Cell}
      {asked : Asked} {function : DeclId} :
      Built isInitialized p classes cells queries → (∀ o, owner = some o → o ∈ classes) → cell ∈ cells →
      asked.isThere owner.isSome params.length = cell.isMember →
      BuildM.declareQuery span bodySpan isInitialized owner name returnType params cell.property ty asked p =
        .ok function q →
      Built isInitialized q classes cells ({ function, arity := params.length, cell, asked } :: queries)

/-! ## What is known of it -/

namespace Program

variable {p q : Program} {owner : Option DeclId} {member k : DeclId}

/-- A declaration that a class owns, or none. -/
def Attached (p : Program) (k : DeclId) : Prop :=
  k ∈ p.topLevel ∨ ∃ d C c, p.Reachable (.decl d) ∧ p.decl? d = some C ∧ C.form = .cls c ∧ k ∈ c.members

theorem Attached.reachable (h : p.Attached k) : p.Reachable (.decl k) := by
  rcases h with h | ⟨d, C, c, hreach, hC, hc, hk⟩
  · exact .outermost (List.mem_map_of_mem h)
  · refine .owned hreach ?_
    simp [kids_decl hC, hc, DeclForm.owned, DeclForm.ownedDecls, hk]

theorem Declares.attached (h : Declares p q owner member) (hk : p.Attached k) : q.Attached k := by
  rcases hk with hk | ⟨d, C, c, hreach, hC, hc, hk⟩
  · left
    rw [h.topLevel_eq]
    exact List.mem_append_left _ hk
  · exact .inr ⟨d, _, _, h.reachable hreach, h.cls? hC hc, rfl, List.mem_append_left _ hk⟩

theorem Declares.attached_member (h : Declares p q owner member)
    (howner : ∀ o, owner = some o → p.IsClass o ∧ p.Reachable (.decl o)) : q.Attached member := by
  cases owner with
  | none =>
    left
    rw [h.topLevel_eq]
    exact List.mem_append_right _ (by simp)
  | some o =>
    obtain ⟨⟨C, c, hC, hc⟩, hreach⟩ := howner o rfl
    exact .inr ⟨o, _, _, h.reachable hreach, h.cls? hC hc, rfl, List.mem_append_right _ (by simp)⟩

/-- The members of a class are properties that are known, and functions. -/
def KnownMembers (p : Program) (cells : List Cell) (members : List DeclId) : Prop :=
  ∀ k ∈ members, (∃ x ∈ cells, x.property = k) ∨ ∃ F f, p.decl? k = some F ∧ F.form = .function f

/-- **A deferred property is there**, with all its parts. -/
structure HasCell (p : Program) (x : Cell) : Prop where
  property : ∃ D r, p.decl? x.property = some D ∧ D.isDeferredInit = true ∧ D.modifiers.isFakeOverride = false ∧
    D.form = .property r ∧ r.backingField = some x.field ∧ r.getter = some x.getter ∧ r.setter = some x.setter
  field : ∃ F content, p.decl? x.field = some F ∧ F.name = x.name ∧ F.modifiers.isStatic = x.isStatic ∧
    F.form = .field content ∧ content.initializer = none ∧ content.property = some x.property
  getter : ∃ receiver body, p.IsFunction x.getter receiver [] body (some x.property) ∧ receiver.isSome = x.isMember
  setter : ∃ receiver value body, p.IsFunction x.setter receiver [value] body (some x.property) ∧
    receiver.isSome = x.isMember ∧ p.StoresField receiver value body x.field
  static : x.isMember = false → x.isStatic = true
  attached : p.Attached x.property

/-- A body that returns whether a property is initialized. -/
def ReturnsAnswer (p : Program) (isInitialized : SymbolHash) (function : DeclId) (subject : Option DeclId)
    (body : ExprId) (property : DeclId) : Prop :=
  ∃ result query reference this, p.form? body = some (.block [result]) ∧
    p.form? result = some (.ret function (some query)) ∧
    p.form? query = some (.call (.library isInitialized) none (some reference) []) ∧
    p.form? reference = some (.propertyRef property this none) ∧ p.ReadsThis subject this

theorem Keeps.returnsAnswer (h : Keeps p q) {isInitialized : SymbolHash} {function property : DeclId}
    {subject : Option DeclId} {body : ExprId} (hb : p.ReturnsAnswer isInitialized function subject body property) :
    q.ReturnsAnswer isInitialized function subject body property := by
  obtain ⟨result, query, reference, this, hbody, hresult, hquery, href, hthis⟩ := hb
  exact ⟨result, query, reference, this, h.form? hbody, h.form? hresult, h.form? hquery, h.form? href,
    h.readsThis hthis⟩

/-- **A query is there.** -/
structure HasQuery (p : Program) (isInitialized : SymbolHash) (x : Query) : Prop where
  function : ∃ receiver params body, p.IsFunction x.function receiver params body none ∧ params.length = x.arity ∧
    (x.asked.among receiver params).isSome = x.cell.isMember ∧
    p.ReturnsAnswer isInitialized x.function (x.asked.among receiver params) body x.cell.property
  attached : p.Attached x.function

/-- **The inventory of a program**: the classes, the properties and the queries that have been declared. -/
structure Inventory (isInitialized : SymbolHash) (p : Program) (classes : List DeclId) (cells : List Cell)
    (queries : List Query) : Prop where
  closed : p.Closed
  forest : p.IsForest
  cls : ∀ d ∈ classes, p.Attached d ∧ ∃ C c, p.decl? d = some C ∧ C.form = .cls c ∧ p.KnownMembers cells c.members
  cell : ∀ x ∈ cells, p.HasCell x
  query : ∀ x ∈ queries, x.cell ∈ cells ∧ p.HasQuery isInitialized x

section

variable {isInitialized : SymbolHash} {classes : List DeclId} {cells cells' : List Cell} {queries : List Query}
variable (h : Declares p q owner member)
include h

theorem Declares.hasCell {x : Cell} (hx : p.HasCell x) : q.HasCell x where
  property := by
    obtain ⟨D, r, hD, hdef, hfake, hr, hparts⟩ := hx.property
    exact ⟨D, r, h.decl? hD (by simp [hr]), hdef, hfake, hr, hparts⟩
  field := by
    obtain ⟨F, content, hF, hname, hstatic, hcontent, hkept⟩ := hx.field
    exact ⟨F, content, h.decl? hF (by simp [hcontent]), hname, hstatic, hcontent, hkept⟩
  getter := by
    obtain ⟨receiver, body, hf, hr⟩ := hx.getter
    exact ⟨receiver, body, h.keeps.isFunction hf, hr⟩
  setter := by
    obtain ⟨receiver, value, body, hf, hr, hb⟩ := hx.setter
    exact ⟨receiver, value, body, h.keeps.isFunction hf, hr, h.keeps.storesField hb⟩
  static := hx.static
  attached := h.attached hx.attached

theorem Declares.hasQuery {x : Query} (hx : p.HasQuery isInitialized x) : q.HasQuery isInitialized x where
  function := by
    obtain ⟨receiver, params, body, hf, harity, hasked, hb⟩ := hx.function
    exact ⟨receiver, params, body, h.keeps.isFunction hf, harity, hasked, h.keeps.returnsAnswer hb⟩
  attached := h.attached hx.attached

theorem Declares.knownMembers {members : List DeclId} (hcells : cells ⊆ cells') (hk : p.KnownMembers cells members) :
    q.KnownMembers cells' members := by
  intro k hmem
  rcases hk k hmem with ⟨x, hx, hxk⟩ | ⟨F, f, hF, hf⟩
  · exact .inl ⟨x, hcells hx, hxk⟩
  · exact .inr ⟨F, f, h.decl? hF (by simp [hf]), hf⟩

/-- **The inventory after one more declaration**, if what becomes a member of a class is a property or a function. -/
theorem Inventory.declares (hi : Inventory isInitialized p classes cells queries) (hcells : cells ⊆ cells')
    (hnew : ∀ x ∈ cells', x ∈ cells ∨ q.HasCell x) (hmember : ∀ o, owner = some o → q.KnownMembers cells' [member]) :
    Inventory isInitialized q classes cells' queries where
  closed := h.closed hi.closed
  forest := h.forest hi.forest
  cls d hd := by
    obtain ⟨hattached, C, c, hC, hc, hmembers⟩ := hi.cls d hd
    refine ⟨h.attached hattached, _, _, h.cls? hC hc, rfl, fun k hk => ?_⟩
    rcases List.mem_append.1 hk with hk | hk
    · exact h.knownMembers hcells hmembers k hk
    · split at hk
      · next ho => exact hmember d ho k hk
      · cases hk
  cell x hx := (hnew x hx).elim (fun hx => h.hasCell (hi.cell x hx)) id
  query x hx := ⟨hcells (hi.query x hx).1, h.hasQuery (hi.query x hx).2⟩

end

theorem Inventory.isClass {isInitialized : SymbolHash} {classes : List DeclId} {cells : List Cell}
    {queries : List Query} (hi : Inventory isInitialized p classes cells queries)
    (howner : ∀ o, owner = some o → o ∈ classes) :
    ∀ o, owner = some o → p.IsClass o ∧ p.Reachable (.decl o) := by
  intro o ho
  obtain ⟨hattached, C, c, hC, hc, -⟩ := hi.cls o (howner o ho)
  exact ⟨⟨C, c, hC, hc⟩, hattached.reachable⟩

/-- A property that has been declared is a cell. -/
theorem DeclaredProperty.hasCell {property field getter setter : DeclId} {span : Span} {name : String} {ty : Ty}
    {modifiers : Modifiers} (h : q.DeclaredProperty ⟨property, field, getter, some setter⟩ span owner name ty modifiers)
    (hattached : q.Attached property) (hdef : modifiers.isDeferredInit = true)
    (hfake : modifiers.isFakeOverride = false) :
    q.HasCell
      { property, field, getter, setter, name, isMember := owner.isSome,
        isStatic := owner.isNone || modifiers.isStatic } where
  property := by
    refine ⟨_, _, h.property, ?_, ?_, rfl, rfl, rfl, rfl⟩
    · show Modifiers.isDeferredInit _ = true
      split
      · exact (Modifiers.contains_union (by decide)).trans hdef
      · exact hdef
    · show Modifiers.isFakeOverride _ = false
      split
      · exact (Modifiers.contains_union (by decide)).trans hfake
      · exact hfake
  field := by
    refine ⟨_, _, h.field, rfl, ?_, rfl, rfl, rfl⟩
    show Modifiers.isStatic _ = (owner.isNone || modifiers.isStatic)
    refine (Modifiers.contains_inter (by decide)).trans ?_
    cases owner with
    | none => exact Modifiers.contains_union_self _ _
    | some o => rfl
  getter := by
    obtain ⟨receiver, body, hf, hr, -⟩ := h.getter
    exact ⟨receiver, body, hf, hr⟩
  setter := h.setter setter rfl
  static hmember := by simp [Option.isSome_eq_false_iff.1 hmember]
  attached := hattached

end Program

/-! ## Building it -/

namespace BuildM

variable {p q : Program} (span bodySpan : Span) {owner : Option DeclId}

theorem declareParams_builds (params : List (String × Ty)) (i : Nat) (p : Program) :
    ∃ xs q, declareParams span i params p = .ok xs q ∧ Builds p q (xs.map NodeId.decl).reverse ∧
      xs.length = params.length ∧ ∀ x ∈ xs, q.IsParameter x := by
  induction params generalizing i p with
  | nil => exact ⟨[], p, rfl, .refl p, rfl, nofun⟩
  | cons param rest ih =>
    obtain ⟨name, ty⟩ := param
    let X := Decl.parameter name ty i span
    have b : Builds p (p.pushDecl X) [.decl p.nextDecl] := (Builds.refl p).pushDecl (T := []) nofun
    have hX : (p.pushDecl X).IsParameter p.nextDecl := ⟨X, _, by simp, rfl⟩
    obtain ⟨xs, q, hrun, hq, hlength, hparams⟩ := ih (i + 1) (p.pushDecl X)
    refine ⟨p.nextDecl :: xs, q, ?_, ?_, by rw [List.length_cons, hlength, List.length_cons], fun x hx => ?_⟩
    · simp only [declareParams, bind, EStateM.bind, addDecl_run]
      simp only [X] at hrun
      simp only [hrun, pure, EStateM.pure]
    · simpa using b.trans hq
    · rcases List.mem_cons.1 hx with rfl | hx
      · exact hq.old.keeps.isParameter hX
      · exact hparams x hx

/-- The body of a query. -/
def returnAnswer (isInitialized : SymbolHash) (subject : Option DeclId) (property : DeclId) (ty : Ty)
    (function : DeclId) : BuildM ExprId := do
  let this ← this span subject
  let reference ← propertyRef span property this ty
  let query ← call span (.library isInitialized) .boolean none (some reference) []
  let result ← ret span function (some query)
  block span .unit [result]

theorem returnAnswer_assembles (isInitialized : SymbolHash) (ty : Ty) {subject : Option DeclId}
    {property function : DeclId} (hsubject : ∀ x, subject = some x → p.Has (.decl x))
    (hproperty : p.Has (.decl property)) (hfunction : p.Has (.decl function)) :
    ∃ body q es, returnAnswer span isInitialized subject property ty function p = .ok body q ∧
      Assembles p [] q [.expr body] [] es ∧ ∀ r : Program, (∀ x ∈ es, r.expr? x.1 = some x.2) →
        r.ReturnsAnswer isInitialized function subject body property := by
  obtain ⟨this, reads, q₁, h₁, g₁, -, hthis⟩ := this_assembles span (.start (p := p) (S := [])) hsubject
  obtain ⟨reference, q₂, h₂, g₂⟩ := addExpr_assembles (T := []) span (.propertyRef property this none) ty
    (by cases this <;> exact g₁) (by simpa [ExprForm.subject?] using g₁.old.has hproperty)
  obtain ⟨query, q₃, h₃, g₃⟩ := addExpr_assembles span (.call (.library isInitialized) none (some reference) [])
    .boolean g₂ (by simp [ExprForm.subject?, Callee.function?])
  obtain ⟨result, q₄, h₄, g₄⟩ := addExpr_assembles span (.ret function (some query)) .nothing g₃
    (by simpa [ExprForm.subject?] using g₃.old.has hfunction)
  obtain ⟨body, q₅, h₅, g₅⟩ := addExpr_assembles span (.block [result]) .unit g₄ (by simp [ExprForm.subject?])
  refine ⟨body, q₅, _, ?_, g₅, fun r hr => ⟨result, query, reference, this, ?_, ?_, ?_, ?_, ?_⟩⟩
  · simp only [returnAnswer, bind, EStateM.bind, h₁, propertyRef, h₂, call, h₃, ret, h₄, block, h₅]
  · exact form?_of_expr? (hr _ List.mem_cons_self)
  · exact form?_of_expr? (hr _ (List.mem_cons_of_mem _ List.mem_cons_self))
  · exact form?_of_expr? (hr _ (List.mem_cons_of_mem _ (List.mem_cons_of_mem _ List.mem_cons_self)))
  · exact form?_of_expr?
      (hr _ (List.mem_cons_of_mem _ (List.mem_cons_of_mem _ (List.mem_cons_of_mem _ List.mem_cons_self))))
  · exact readsThis_of_readsReceiver (hthis r fun t ht => hr t (by simp [ht]))

/-- **A query is declared.** -/
theorem declareQuery_declares (isInitialized : SymbolHash) (name : String) (returnType ty : Ty)
    (params : List (String × Ty)) {cell : Cell} {asked : Asked}
    (howner : ∀ o, owner = some o → p.IsClass o ∧ p.Reachable (.decl o)) (hproperty : p.Has (.decl cell.property))
    (hasked : asked.isThere owner.isSome params.length = cell.isMember) :
    ∃ function q,
      declareQuery span bodySpan isInitialized owner name returnType params cell.property ty asked p = .ok function q ∧
      Declares p q owner function ∧ q.HasQuery isInitialized { function, arity := params.length, cell, asked } := by
  obtain ⟨receiver, p₁, h₁, b₁, hisSome, hreceiver⟩ := receiver_builds (p := p) span fun o ho => by
    obtain ⟨⟨C, c, hC, -⟩, -⟩ := howner o ho
    exact has_of_decl? hC
  obtain ⟨xs, p₂, h₂, b₂, hlength, hparams⟩ := declareParams_builds span params 0 p₁
  have b : Builds p p₂ ((receiver.toList ++ xs).map NodeId.decl).reverse := by
    rw [List.map_append, List.reverse_append]
    cases receiver <;> exact b₁.trans b₂
  have hreceiver₂ : ∀ r, receiver = some r → p₂.IsParameter r := fun r hr => b₂.old.keeps.isParameter (hreceiver r hr)
  have hsubject : ∀ x, asked.among receiver xs = some x → p₂.Has (.decl x) := by
    intro x hx
    cases asked with
    | nothing => cases hx
    | this => exact (hreceiver₂ x hx).has
    | parameter i => exact (hparams x (List.mem_of_getElem? hx)).has
  obtain ⟨p₃, body, h₃, b₃, hf, hP⟩ := functionWith_builds span name returnType receiver none xs
    (returnAnswer bodySpan isInitialized (asked.among receiver xs) cell.property ty)
    (fun u body => u.ReturnsAnswer isInitialized p₂.nextDecl (asked.among receiver xs) body cell.property)
    b hreceiver₂ hparams nofun fun r G e hG =>
      returnAnswer_assembles bodySpan isInitialized ty (fun x hx => e.has (hsubject x hx))
        (e.has (b.old.has hproperty)) (has_of_decl? hG)
  obtain ⟨q, hattach, hq, hdecl, hexpr⟩ := attach_declares b₃ hf.has fun o ho => (howner o ho).1
  have k : Keeps p₃ q := ⟨fun hd hc _ => hdecl _ _ hd hc, fun he => (hexpr _).trans he⟩
  refine ⟨p₂.nextDecl, q, ?_, hq, ⟨receiver, xs, body, k.isFunction hf, hlength, ?_, ?_⟩, hq.attached_member howner⟩
  · simp only [declareQuery, functionWith, returnAnswer, bind, EStateM.bind, h₁, h₂] at h₃ ⊢
    simp only [h₃, hattach]
    rfl
  · rw [Asked.isSome_among, hisSome, hlength, hasked]
  · exact k.returnsAnswer hP

end BuildM

/-- **Whatever has been declared is there.** -/
theorem Built.inventory {isInitialized : SymbolHash} {p : Program} {classes : List DeclId} {cells : List Cell}
    {queries : List Query} (h : Built isInitialized p classes cells queries) :
    Inventory isInitialized p classes cells queries := by
  induction h with
  | empty name => exact ⟨by simp [Closed], ⟨[], .nil, nofun, .refl []⟩, nofun, nofun, nofun⟩
  | @cls p q classes cells queries span name d _ hrun ih =>
    obtain ⟨q', hrun', hq, hC⟩ := BuildM.declareClass_declares span name p
    rw [hrun] at hrun'
    cases hrun'
    have hi := ih.declares hq (List.Subset.refl cells) (fun x hx => .inl hx) nofun
    refine ⟨hi.closed, hi.forest, fun d hd => ?_, hi.cell, hi.query⟩
    rcases List.mem_cons.1 hd with rfl | hd
    · exact ⟨hq.attached_member nofun, _, _, hC, rfl, by simp [KnownMembers]⟩
    · exact hi.cls d hd
  | @property p q classes cells queries span owner name ty modifiers property field getter setter _ howner hdef hmutable
      hfake hrun ih =>
    have hclass := ih.isClass howner
    obtain ⟨parts, q', hrun', hq, hdeclared, -⟩ := BuildM.declareProperty_declares span name ty modifiers
      fun o ho => (hclass o ho).1
    rw [hrun] at hrun'
    cases hrun'
    have hcell := hdeclared.hasCell (hq.attached_member hclass) hdef hfake
    refine ih.declares hq (List.subset_cons_self _ _) (fun x hx => ?_) fun o ho k hk => ?_
    · rcases List.mem_cons.1 hx with rfl | hx
      · exact .inr hcell
      · exact .inl hx
    · obtain rfl := List.mem_singleton.1 hk
      exact .inl ⟨_, List.mem_cons_self, rfl⟩
  | @query p q classes cells queries span bodySpan owner name returnType ty params cell asked function _ howner hcell
      hasked hrun ih =>
    have hclass := ih.isClass howner
    obtain ⟨D, r, hD, -⟩ := (ih.cell cell hcell).property
    obtain ⟨function', q', hrun', hq, hquery⟩ := BuildM.declareQuery_declares span bodySpan isInitialized
      name returnType ty params hclass (has_of_decl? hD) hasked
    rw [hrun] at hrun'
    cases hrun'
    have hi := ih.declares hq (List.Subset.refl cells) (fun x hx => .inl hx) fun o ho k hk => by
      obtain rfl := List.mem_singleton.1 hk
      obtain ⟨receiver, xs, body, ⟨⟨F, ty', hF, hf⟩, -, -⟩, -⟩ := hquery.function
      exact .inr ⟨F, _, hF, hf⟩
    refine ⟨hi.closed, hi.forest, hi.cls, hi.cell, fun x hx => ?_⟩
    rcases List.mem_cons.1 hx with rfl | hx
    · exact ⟨hcell, hquery⟩
    · exact hi.query x hx

end DeferredInit
