import Mathlib.Data.Fin.Rev
import DeferredInit.Program.Listing
import DeferredInit.Proofs.Program.Hierarchy
import DeferredInit.Proofs.Program.Relocated
import DeferredInit.Proofs.Program.Sample

/-!
# Listings and handles

The listing of a program tells nothing about handles, and nothing about nodes that the program does not refer to.  Here
the listings of a program `p` and of a program `q` that it is relocated to are made side by side.  Each computation on
`p` is repeated on `q` (`Repeated`): whatever comes out of the first comes out of the second.

What else can happen to the first depends on `p` alone.  If `p` is closed no handle dangles, and if it is a hierarchy
there is room for every descent (`Room`), so that the listing comes to an end (`listing_relocated`).
-/

namespace DeferredInit

/-! ## One computation repeated by another -/

/-- **A computation that is repeated by another**: what the first gives, the second gives too, and the first halts in no
way but one that it may. -/
def Repeated {α : Type} (may : Halt → Prop) (x y : Except Halt α) : Prop :=
  match x with
  | .ok a => y = .ok a
  | .error h => may h

namespace Repeated

variable {may : Halt → Prop} {α β γ : Type}

theorem pure (a : α) : Repeated may (.ok a) (.ok a) := rfl

theorem bind {x y : Except Halt α} {f g : α → Except Halt β} (hxy : Repeated may x y)
    (hfg : ∀ a, Repeated may (f a) (g a)) : Repeated may (x >>= f) (y >>= g) := by
  cases x with
  | ok a =>
    obtain rfl : y = .ok a := hxy
    exact hfg a
  | error h => exact hxy

theorem mapM {f : α → Except Halt γ} {g : β → Except Halt γ} {r : α → β} {as : List α}
    (hfg : ∀ a ∈ as, Repeated may (f a) (g (r a))) : Repeated may (as.mapM f) ((as.map r).mapM g) := by
  induction as with
  | nil => exact pure []
  | cons a as ih =>
    rw [List.map_cons, List.mapM_cons, List.mapM_cons]
    refine .bind (hfg a List.mem_cons_self) fun b => ?_
    exact .bind (ih fun a ha => hfg a (List.mem_cons_of_mem _ ha)) fun bs => pure (b :: bs)

/-- If the first may not halt at all, then both give the same. -/
theorem exists_ok {x y : Except Halt α} (h : Repeated (fun _ => False) x y) : ∃ a, x = .ok a ∧ y = .ok a := by
  cases x with
  | ok a => exact ⟨a, rfl, h⟩
  | error _ => exact absurd h id

end Repeated

namespace Listing

open Program

variable {p q : Program} {ρ : Renaming} {may : Halt → Prop} (names : LibraryNames)
variable {text text' : ExprId → Except Halt String}

/-! ## Declarations under other handles -/

theorem storage_rename (D : Decl) : storage (D.rename ρ) = storage D := by
  rw [storage, storage, Decl.rename, DeclForm.ty?_rename]
  rfl

theorem inner_rename (form : DeclForm) : inner (form.rename ρ) = (inner form).map ρ.decl := by
  cases form with
  | property q => simp [inner, DeclForm.rename, DeclForm.ownedDecls, Option.toList_map]
  | _ => rfl

theorem inner_subset (form : DeclForm) : inner form ⊆ form.ownedDecls := by
  cases form with
  | cls _ | property _ => exact List.Subset.refl _
  | _ => exact List.nil_subset _

/-! ## Parts of a line -/

/-- What is done with a declaration is repeated with the declaration that it has become. -/
theorem lookup_repeated {α : Type} (h : Relocated p ρ q) {d : DeclId} (hd : p.Has (.decl d))
    {f g : Decl → Except Halt α} (hfg : ∀ D, p.decl? d = some D → Repeated may (f D) (g (D.rename ρ))) :
    Repeated may (lookup p d >>= f) (lookup q (ρ.decl d) >>= g) := by
  obtain ⟨D, hD⟩ := has_decl_iff.1 hd
  rw [lookup, lookup, hD, h.decl? d D hD]
  exact hfg D hD

theorem receiver_repeated {r : Option ExprId} (hr : ∀ e ∈ r, Repeated may (text e) (text' (ρ.expr e))) :
    Repeated may (receiver text r) (receiver text' (r.map ρ.expr)) := by
  cases r with
  | none => exact .pure ""
  | some e => exact .bind (hr e rfl) fun _ => .pure _

theorem initializer_repeated {init : Option ExprId}
    (hinit : ∀ e ∈ init, Repeated may (text e) (text' (ρ.expr e))) :
    Repeated may (initializer text init) (initializer text' (init.map ρ.expr)) := by
  cases init with
  | none => exact .pure ""
  | some e => exact .bind (hinit e rfl) fun _ => .pure _

section Relocated

variable (h : Relocated p ρ q)
include h

theorem callee_repeated {target : Callee} (htarget : ∀ d, target.function? = some d → p.Has (.decl d)) :
    Repeated may (callee p names target) (callee q names (target.rename ρ)) := by
  cases target with
  | declared d => exact lookup_repeated h (htarget d rfl) fun _ _ => .pure _
  | library hash => exact .pure _

theorem parameter_repeated {d : DeclId} (hd : p.Has (.decl d)) :
    Repeated may (parameter p d) (parameter q (ρ.decl d)) := by
  refine lookup_repeated h hd fun D _ => ?_
  rw [Decl.rename, DeclForm.ty?_rename]
  exact .pure _

/-- **The text of a form** is repeated if those of its operands are, and that of what a variable starts out with. -/
theorem form_repeated {form : ExprForm} (hsubject : ∀ d, form.subject? = some d → p.Has (.decl d))
    (hchildren : ∀ c ∈ form.children, Repeated may (text c) (text' (ρ.expr c)))
    (hinit : ∀ d ∈ form.declared?, ∀ e ∈ p.variableInit? d, Repeated may (text e) (text' (ρ.expr e))) :
    Repeated may (Listing.form p names text form) (Listing.form q names text' (form.rename ρ)) := by
  cases form with
  | const c => exact .pure _
  | getValue d => exact lookup_repeated h (hsubject d rfl) fun _ _ => .pure _
  | setValue d value =>
    refine lookup_repeated h (hsubject d rfl) fun _ _ => ?_
    exact .bind (hchildren value (by simp [ExprForm.children])) fun _ => .pure _
  | getField field r =>
    refine .bind (receiver_repeated fun e he => hchildren e (by simp_all [ExprForm.children])) fun _ => ?_
    exact lookup_repeated h (hsubject field rfl) fun _ _ => .pure _
  | setField field r value =>
    refine .bind (receiver_repeated fun e he => hchildren e (by simp_all [ExprForm.children])) fun _ => ?_
    refine lookup_repeated h (hsubject field rfl) fun _ _ => ?_
    exact .bind (hchildren value (by simp [ExprForm.children])) fun _ => .pure _
  | call target dispatch extension args =>
    refine .bind (callee_repeated names h fun d hd => hsubject d hd) fun _ => ?_
    refine .bind (receiver_repeated fun e he => hchildren e (by simp_all [ExprForm.children])) fun _ => ?_
    refine .bind (receiver_repeated fun e he => hchildren e (by simp_all [ExprForm.children])) fun _ => ?_
    exact .bind (.mapM fun e he => hchildren e (by simp [ExprForm.children, he])) fun _ => .pure _
  | propertyRef property dispatch extension =>
    have hname (bound : String) : Repeated may (do let q ← lookup p property; .ok (bound ++ "::" ++ q.name))
        (do let D ← lookup q (ρ.decl property); .ok (bound ++ "::" ++ D.name)) :=
      lookup_repeated h (hsubject property rfl) fun _ _ => .pure _
    cases dispatch with
    | some e => exact .bind (hchildren e (by simp [ExprForm.children])) fun bound => hname bound
    | none =>
      cases extension with
      | some e => exact .bind (hchildren e (by simp [ExprForm.children])) fun bound => hname bound
      | none => exact hname ""
  | block stmts =>
    cases stmts with
    | nil => exact .pure _
    | cons e rest => exact .bind (.mapM (r := ρ.expr) hchildren) fun _ => .pure _
  | cond condition thenBranch elseBranch =>
    refine .bind (hchildren condition (by simp [ExprForm.children])) fun _ => ?_
    refine .bind (hchildren thenBranch (by simp [ExprForm.children])) fun _ => ?_
    cases elseBranch with
    | none => exact .pure _
    | some e => exact .bind (hchildren e (by simp [ExprForm.children])) fun _ => .pure _
  | binary op lhs rhs =>
    refine .bind (hchildren lhs (by simp [ExprForm.children])) fun _ => ?_
    exact .bind (hchildren rhs (by simp [ExprForm.children])) fun _ => .pure _
  | declare d =>
    refine lookup_repeated h (hsubject d rfl) fun D hD => ?_
    rw [storage_rename, Decl.rename, DeclForm.var?_rename]
    refine .bind (initializer_repeated fun e he => hinit d rfl e ?_) fun _ => .pure _
    rw [variableInit?, hD]
    exact he
  | ret function value =>
    cases value with
    | none => exact .pure _
    | some value => exact .bind (hchildren value (by simp [ExprForm.children])) fun _ => .pure _
  | construct cls => exact lookup_repeated h (hsubject cls rfl) fun _ _ => .pure _

/-- **The first line of a declaration** is repeated if the texts of its expressions are. -/
theorem headline_repeated (hp : p.Closed) {d : DeclId} {D : Decl} (hD : p.decl? d = some D)
    (htext : ∀ e ∈ D.form.ownedExprs, Repeated may (text e) (text' (ρ.expr e))) :
    Repeated may (headline p text D) (headline q text' (D.rename ρ)) := by
  unfold headline
  rw [storage_rename, Decl.rename]
  cases hform : D.form with
  | cls c => exact .pure _
  | property q => exact .pure _
  | parameter q => exact .pure _
  | var v =>
    exact .bind (initializer_repeated fun e he => htext e (by simp_all [DeclForm.ownedExprs])) fun _ => .pure _
  | field f =>
    exact .bind (initializer_repeated fun e he => htext e (by simp_all [DeclForm.ownedExprs])) fun _ => .pure _
  | function f =>
    refine .bind (.mapM fun x hx => ?_) fun _ => ?_
    · exact parameter_repeated h (hp.has_of_decl hD (by simp [hform, DeclForm.mentioned, hx]))
    · dsimp only
      cases hbody : f.body with
      | none => exact .pure _
      | some body => exact .bind (htext body (by simp [hform, DeclForm.ownedExprs, hbody])) fun _ => .pure _

end Relocated

/-! ## Descents -/

/-- **There is room for a descent** from a node down to a depth, or else it may run out of depth. -/
def Room (may : Halt → Prop) (p : Program) (depth : Nat) (n : NodeId) : Prop :=
  may .exhausted ∨ p.Hierarchical ∧ p.height n < depth

namespace Room

variable {depth : Nat} {n k : NodeId}

theorem full (h : may .exhausted ∨ p.Hierarchical) (n : NodeId) : Room may p (p.size + 1) n :=
  h.imp_right fun ha => ⟨ha, Nat.lt_succ_of_le (height_le_size n)⟩

theorem exhausted (h : Room may p 0 n) : may .exhausted := by
  rcases h with h | ⟨-, hlt⟩
  · exact h
  · exact absurd hlt (Nat.not_lt_zero _)

theorem succ (h : Room may p depth n) : Room may p (depth + 1) n :=
  h.imp_right fun ⟨ha, hlt⟩ => ⟨ha, Nat.lt_succ_of_lt hlt⟩

/-- A step down takes one level. -/
theorem kid (hp : p.Closed) (h : Room may p (depth + 1) n) (hk : k ∈ p.kids n) : Room may p depth k := by
  refine h.imp_right fun ⟨ha, hlt⟩ => ⟨ha, ?_⟩
  calc p.height k < p.height n := height_lt hp ha hk
    _ ≤ depth := Nat.le_of_lt_succ hlt

end Room

section Descent

variable (hp : p.Closed) (h : Relocated p ρ q)
include hp h

/-- **The text of an expression**, followed down to some depth here and no less deep there. -/
theorem expr_repeated {depth depth' : Nat} {e : ExprId} (he : p.Has (.expr e)) (hroom : Room may p depth (.expr e))
    (hdepth : depth ≤ depth') :
    Repeated may (Listing.expr p names depth e) (Listing.expr q names depth' (ρ.expr e)) := by
  -- on the depth here; the other may be greater, since there may be more nodes there
  induction depth generalizing depth' e with
  | zero => exact hroom.exhausted
  | succ depth ih =>
    cases depth' with
    | zero => omega
    | succ depth' =>
      have hdepth : depth ≤ depth' := Nat.le_of_succ_le_succ hdepth
      obtain ⟨E, hE⟩ := has_expr_iff.1 he
      have howned {k : NodeId} (hk : k ∈ E.form.owned) : Room may p depth k := hroom.kid hp (by rwa [kids_expr hE])
      rw [Listing.expr, Listing.expr, hE, h.expr? e E hE]
      refine form_repeated names h (fun d hd => ?_) (fun c hc => ?_) fun d hd init hinit => ?_
      · exact hp.has_of_expr hE (by simp [ExprForm.mentioned, hd])
      · have hc' : NodeId.expr c ∈ E.form.owned := by simp [ExprForm.owned_eq, hc]
        exact ih (hp.has_of_children hE hc) (howned hc') hdepth
      · -- the variable takes a level of its own, which the descent does not spend on it
        have hd' : NodeId.decl d ∈ E.form.owned := by simp [ExprForm.owned_eq, Option.mem_def.1 hd]
        have hinit' : NodeId.expr init ∈ p.kids (.decl d) := mem_kids_of_variableInit? hinit
        exact ih (hp.has_of_variableInit? hinit) ((howned hd').succ.kid hp hinit') hdepth

/-- **The lines of a declaration**, followed down to some depth here and no less deep there. -/
theorem decl_repeated {depth depth' : Nat} (indent : Nat) {d : DeclId} (hd : p.Has (.decl d))
    (hroom : Room may p depth (.decl d)) (hdepth : depth ≤ depth') :
    Repeated may (Listing.decl p names depth indent d) (Listing.decl q names depth' indent (ρ.decl d)) := by
  induction depth generalizing depth' indent d with
  | zero => exact hroom.exhausted
  | succ depth ih =>
    cases depth' with
    | zero => omega
    | succ depth' =>
      have hdepth : depth ≤ depth' := Nat.le_of_succ_le_succ hdepth
      refine lookup_repeated h hd fun D hD => ?_
      have hhead : Repeated may (headline p (Listing.expr p names (p.size + 1)) D)
          (headline q (Listing.expr q names (q.size + 1)) (D.rename ρ)) := by
        refine headline_repeated h hp hD fun e he => ?_
        have hfull := Room.full (hroom.imp_right (·.1)) (.expr e)
        exact expr_repeated names hp h (hp.has_of_ownedExprs hD he) hfull (Nat.succ_le_succ h.size_le)
      refine .bind hhead fun _ => ?_
      have hinside : Repeated may ((inner D.form).mapM (Listing.decl p names depth (indent + 1)))
          ((inner (D.rename ρ).form).mapM (Listing.decl q names depth' (indent + 1))) := by
        rw [Decl.rename, inner_rename]
        refine .mapM fun k hk => ?_
        have howned := inner_subset D.form hk
        have hk' : NodeId.decl k ∈ p.kids (.decl d) := by simp [kids_decl hD, DeclForm.owned, howned]
        exact ih (indent + 1) (hp.has_of_ownedDecls hD howned) (hroom.kid hp hk') hdepth
      refine .bind hinside fun _ => ?_
      rw [Decl.rename, DeclForm.isSome_cls?_rename]
      exact .pure _

end Descent

end Listing

namespace Program

variable {p q : Program} {ρ : Renaming}

/-- **The listing of a relocated program** repeats that of the program, as far as the latter gets. -/
theorem listing_repeated {may : Halt → Prop} (hp : p.Closed) (h : Relocated p ρ q)
    (hroom : may .exhausted ∨ p.Hierarchical) (names : LibraryNames) :
    Repeated may (p.listing names) (q.listing names) := by
  rw [listing, listing, h.topLevel_eq]
  refine .bind (.mapM fun d hd => ?_) fun _ => .pure _
  exact Listing.decl_repeated names hp h 0 (hp.has_of_topLevel hd) (.full hroom _) (Nat.succ_le_succ h.size_le)

/-- **A listing depends on the program alone.**  The listing of a closed hierarchy comes to an end, and it is the same
wherever the nodes are put and whatever other nodes there are besides, for any names of functions from outside. -/
theorem listing_relocated (hp : p.Closed) (ha : p.Hierarchical) (h : Relocated p ρ q) (names : LibraryNames) :
    ∃ text, p.listing names = .ok text ∧ q.listing names = .ok text :=
  (listing_repeated hp h (.inr ha) names).exists_ok

/-- The sample program with its nodes in the opposite order, and a block besides that contains itself. -/
def sampleElsewhere : Program :=
  (sample.permute Fin.revPerm Fin.revPerm).pushExpr ⟨.unknown, .unit, .block [⟨18⟩]⟩

/-- The sample program is listed, and is listed the same elsewhere. -/
theorem listing_relocated_sample : sample.Closed ∧ sample.Hierarchical ∧ sampleElsewhere.topLevel = [⟨7⟩, ⟨2⟩, ⟨1⟩] ∧
    ∃ text, sample.listing (fun _ => none) = .ok text ∧ sampleElsewhere.listing (fun _ => none) = .ok text := by
  have hp : sample.Closed := by decide
  have ha : sample.Hierarchical := .of_ranks (sample.nodes.idxOf ·) (by decide +kernel)
  have hmoved := Relocated.permute sample Fin.revPerm Fin.revPerm
  exact ⟨hp, ha, by decide, listing_relocated hp ha (hmoved.extend (.pushExpr _ _)) _⟩

end Program

end DeferredInit
