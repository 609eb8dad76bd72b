import DeferredInit.Symbol.Hash

/-!
# Qualified names

A symbol outside a program is named by the names of the scopes around it and its own, written with `::`
between them: `lang::reflect::PropertyRef0`.  Separators that stand for nothing (at the start, at the end, or
repeated) are ignored when a name is read, so many texts denote one name; `text` is its one canonical
spelling.
-/

namespace DeferredInit

/-- **A qualified name**: the enclosing scopes, outermost first, and the simple name. -/
structure QualifiedName where
  /-- The enclosing scopes, outermost first. -/
  scopes : List String
  /-- The name inside the innermost scope; empty if the text named nothing. -/
  simple : String
deriving DecidableEq, Repr, Inhabited

namespace QualifiedName

/-- What a text reads as between its separators; a separator is found as far left as possible. -/
def split : List Char → List (List Char)
  | [] => [[]]
  | ':' :: ':' :: rest => [] :: split rest
  | c :: rest =>
    match split rest with
    | [] => [[c]]
    | segment :: more => (c :: segment) :: more

/-- The segments of a text that name something. -/
def segments (s : String) : List String :=
  ((split s.toList).filter (· ≠ [])).map String.ofList

/-- Reads a name: the last segment is the simple name, the ones before it the scopes. -/
def parse (s : String) : QualifiedName :=
  let parts := segments s
  ⟨parts.dropLast, parts.getLast?.getD ""⟩

/-- A text stands for the name that it reads as. -/
instance : Coe String QualifiedName := ⟨parse⟩

/-- The canonical spelling. -/
def text (n : QualifiedName) : String :=
  n.scopes.foldr (fun scope rest => scope ++ "::" ++ rest) n.simple

/-- Another name in the same scopes. -/
def sibling (n : QualifiedName) (simple : String) : QualifiedName := { n with simple }

/-- The hash of the type with this name. -/
def hash (n : QualifiedName) (digest : String → UInt64 := Digest.ofString) : SymbolHash :=
  SymbolHash.ofName n.text digest

end QualifiedName

end DeferredInit
