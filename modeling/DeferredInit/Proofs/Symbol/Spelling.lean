import DeferredInit.Program.Declare
import DeferredInit.Symbol.Entry

/-!
# The canonical spelling of a name

Many texts read as one name, and `QualifiedName.text` spells it in one way.  To read that text gives the name again
(`canonical_spelling`), so names are equal exactly if they are spelt alike, and a class has one hash however its name is
written.

What makes it work is that separators are found as far left as possible.  A segment has no separator in it, and no
colon at its end if another segment follows (`Cut`); it may begin with one.  Empty segments can be left out of such a
list, and when what remains is written with separators again, they are found where they were put (`Cut.split_join`).
-/

namespace DeferredInit.QualifiedName

/-- A text without a separator in it. -/
def Unbroken (cs : List Char) : Prop := ¬[':', ':'] <:+: cs

/-- Segments with separators between them. -/
def join (segments : List (List Char)) : List Char := [':', ':'].intercalate segments

@[simp] theorem join_nil : join [] = [] := rfl

@[simp] theorem join_singleton (segment : List Char) : join [segment] = segment := List.intercalate_singleton

theorem join_cons (segment : List Char) {rest : List (List Char)} (h : rest ≠ []) :
    join (segment :: rest) = segment ++ ':' :: ':' :: join rest := by
  cases rest with
  | nil => exact absurd rfl h
  | cons next rest => simp [join, List.intercalate_cons_cons]

/-- **A text that is cut at its separators**: no segment has a separator in it, not even with the first colon of the
separator that follows. -/
inductive Cut : List (List Char) → Prop
  | last {segment : List Char} : Unbroken segment → Cut [segment]
  | cons {segment : List Char} {rest : List (List Char)} :
      Unbroken (segment ++ [':']) → Cut rest → Cut (segment :: rest)

theorem Unbroken.nil : Unbroken [] := by
  simp [Unbroken]

theorem Unbroken.left {cs ds : List Char} (h : Unbroken (cs ++ ds)) : Unbroken cs := fun hin =>
  h (hin.trans (List.prefix_append cs ds).isInfix)

/-- A character may come before a text, unless the two make a separator. -/
theorem Unbroken.cons_iff {c : Char} {cs : List Char} :
    Unbroken (c :: cs) ↔ ¬(c = ':' ∧ [':'] <+: cs) ∧ Unbroken cs := by
  simp [Unbroken, List.infix_cons_iff, List.cons_prefix_cons, not_or, eq_comm]

/-- Where no separator begins, a character belongs to the first segment. -/
theorem split_cons {c : Char} {cs : List Char} (h : ¬(c = ':' ∧ [':'] <+: cs)) {segment : List Char}
    {rest : List (List Char)} (hcs : split cs = segment :: rest) : split (c :: cs) = (c :: segment) :: rest := by
  rw [split, hcs]
  rintro more rfl rfl
  exact h ⟨rfl, by simp⟩

/-- A text without a separator is its only segment. -/
theorem split_of_unbroken {cs : List Char} (h : Unbroken cs) : split cs = [cs] := by
  induction cs with
  | nil => rfl
  | cons c cs ih =>
    obtain ⟨hstart, hcs⟩ := Unbroken.cons_iff.1 h
    exact split_cons hstart (ih hcs)

/-- A segment ends at the first separator. -/
theorem split_append {segment : List Char} (h : Unbroken (segment ++ [':'])) (rest : List Char) :
    split (segment ++ ':' :: ':' :: rest) = segment :: split rest := by
  induction segment with
  | nil => rfl
  | cons c segment ih =>
    obtain ⟨hstart, hsegment⟩ := Unbroken.cons_iff.1 h
    refine split_cons (fun ⟨hc, hcolon⟩ => hstart ⟨hc, ?_⟩) (ih hsegment)
    cases segment with
    | nil => simp
    | cons d segment => simpa using hcolon

namespace Cut

variable {segments : List (List Char)}

theorem ne_nil (h : Cut segments) : segments ≠ [] := by
  cases h <;> simp

/-- **Separators are found where they were put.** -/
theorem split_join (h : Cut segments) : split (join segments) = segments := by
  induction h with
  | last hsegment => simpa using split_of_unbroken hsegment
  | cons hsegment hrest ih => rw [join_cons _ hrest.ne_nil, split_append hsegment, ih]

/-- Empty segments can be left out, if there are others. -/
theorem filter (h : Cut segments) : segments.filter (· ≠ []) = [] ∨ Cut (segments.filter (· ≠ [])) := by
  induction h with
  | @last segment hsegment =>
    by_cases hempty : segment = []
    · exact .inl (by simp [hempty])
    · exact .inr (by simpa [hempty] using .last hsegment)
  | @cons segment rest hsegment _ ih =>
    by_cases hempty : segment = []
    · simpa [hempty] using ih
    · rw [List.filter_cons_of_pos (by simpa using hempty)]
      rcases ih with hnone | hrest
      · exact .inr (hnone ▸ .last hsegment.left)
      · exact .inr (.cons hsegment hrest)

end Cut

theorem split_ne_nil (cs : List Char) : split cs ≠ [] := by
  fun_cases split cs <;> simp

/-- The segments of a text make it up. -/
theorem join_split (cs : List Char) : join (split cs) = cs := by
  fun_induction split cs with
  | case1 => rfl
  | case2 cs ih => rw [join_cons _ (split_ne_nil cs), ih, List.nil_append]
  | case3 c cs _ hcs => exact absurd hcs (split_ne_nil cs)
  | case4 c cs _ segment rest hcs ih =>
    rw [hcs] at ih
    cases rest with
    | nil => simpa using ih
    | cons next rest => simpa [join_cons] using ih

/-- **A text is cut at its separators.** -/
theorem cut_split (cs : List Char) : Cut (split cs) := by
  fun_induction split cs with
  | case1 => exact .last .nil
  | case2 cs ih => exact .cons (by simp [Unbroken, List.infix_cons_iff]) ih
  | case3 c cs _ hcs => exact absurd hcs (split_ne_nil cs)
  | case4 c cs hstart segment rest hcs ih =>
    -- a colon before the first segment would make a separator of a colon that the text goes on with
    have hcolon {ds : List Char} (hds : ds <+: cs) : ¬(c = ':' ∧ [':'] <+: ds) := by
      rintro ⟨rfl, hprefix⟩
      obtain ⟨more, rfl⟩ := hprefix.trans hds
      exact hstart more rfl rfl
    have hjoin := join_split cs
    rw [hcs] at ih hjoin
    cases ih with
    | last hsegment =>
      rw [join_singleton] at hjoin
      exact .last (Unbroken.cons_iff.2 ⟨hcolon (hjoin ▸ List.prefix_rfl), hsegment⟩)
    | cons hsegment hrest =>
      rw [join_cons _ hrest.ne_nil] at hjoin
      have hprefix : segment ++ [':'] <+: cs := ⟨':' :: join rest, by simpa using hjoin⟩
      exact .cons (Unbroken.cons_iff.2 ⟨hcolon hprefix, hsegment⟩) hrest

/-! ## Names -/

/-- The segments of a text that name something, as characters. -/
def named (s : String) : List (List Char) := (split s.toList).filter (· ≠ [])

theorem segments_eq (s : String) : segments s = (named s).map String.ofList := rfl

/-- **The segments of a name are read back** from the text that spells it. -/
theorem named_join (s : String) : (split (join (named s))).filter (· ≠ []) = named s := by
  rcases (cut_split s.toList).filter with hnone | hcut
  · rw [named, hnone]
    rfl
  · rw [named, hcut.split_join, List.filter_filter]
    simp

/-- A name is spelt with separators between its segments. -/
theorem toList_text (segments : List String) :
    (QualifiedName.text ⟨segments.dropLast, segments.getLast?.getD ""⟩).toList = join (segments.map String.toList) := by
  induction segments with
  | nil => rfl
  | cons first rest ih =>
    cases rest with
    | nil => simp [text]
    | cons next rest =>
      rw [List.map_cons, join_cons _ (by simp), ← ih]
      simp [text]

theorem toList_text_parse (s : String) : (parse s).text.toList = join (named s) := by
  rw [parse, toList_text, segments_eq, List.map_map]
  simp [Function.comp_def]

/-- The text that spells a name has the same segments. -/
theorem segments_text (s : String) : segments (parse s).text = segments s := by
  rw [segments_eq, segments_eq, named, toList_text_parse, named_join]

/-- **The text that spells a name reads as the name.** -/
theorem parse_text_parse (s : String) : parse (parse s).text = parse s := by
  rw [parse, segments_text, ← parse]

/-- Names are spelt without separators that stand for nothing, and a text without such separators is the spelling. -/
theorem text_parse_eq_iff (s : String) : (parse s).text = s ↔ s = "" ∨ [] ∉ split s.toList := by
  rw [← String.toList_inj, toList_text_parse]
  constructor
  · intro h
    rcases (cut_split s.toList).filter with hnone | hcut
    · rw [named, hnone, join_nil] at h
      exact .inl (String.toList_inj.1 h.symm)
    · rw [← h, named, hcut.split_join]
      exact .inr fun hempty => of_decide_eq_true (List.mem_filter.1 hempty).2 rfl
  · rintro (rfl | hempty)
    · rfl
    · have hnamed : named s = split s.toList :=
        List.filter_eq_self.2 fun segment hsegment => decide_eq_true fun heq => hempty (heq ▸ hsegment)
      rw [hnamed, join_split]

/-- **A name has one canonical spelling**: the one without separators that stand for nothing.  To read it gives the name
again, so names are equal exactly if they are spelt alike.  A class has one hash, whether the library is given its
name, or the program, or a type is given the spelling, and whether or not the name was spelt canonically in the first
place. -/
theorem canonical_spelling (s : String) :
    parse (parse s).text = parse s ∧
    ((parse s).text = s ↔ s = "" ∨ [] ∉ split s.toList) ∧
    (∀ s', parse s = parse s' ↔ (parse s).text = (parse s').text) ∧
    Ty.ofClass (parse s).text = .reference (TypeEntry.ofName s).hash false ∧
    (∀ span p, ∃ q C, BuildM.declareClass span s p = .ok p.nextDecl q ∧ q.decl? p.nextDecl = some C ∧
      C.form = .cls { hash := (TypeEntry.ofName s).hash }) ∧
    (TypeEntry.ofName (parse s).text).hash = (TypeEntry.ofName s).hash := by
  refine ⟨parse_text_parse s, text_parse_eq_iff s, fun s' => ⟨fun h => by rw [h], fun h => ?_⟩, rfl, fun span p => ?_,
    ?_⟩
  · rw [← parse_text_parse s, h, parse_text_parse s']
  · let C : Decl := { name := (parse s).simple, span, form := .cls { hash := (parse s).hash } }
    exact ⟨(p.pushDecl C).addTopLevel p.nextDecl, C, rfl, by simp, rfl⟩
  · rw [TypeEntry.ofName, TypeEntry.ofName, parse_text_parse]

/-- Of five colons two make a separator, two more another one, and the fifth begins the segment after them. -/
example : parse "::a:::::b::" = ⟨["a"], ":b"⟩ ∧ (parse "::a:::::b::").text = "a:::b" := by decide

end DeferredInit.QualifiedName
