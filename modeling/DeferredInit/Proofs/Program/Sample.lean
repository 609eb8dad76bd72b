import DeferredInit.Lowering.Guard
import DeferredInit.Proofs.Program.Closed

/-!
# A sample program

One small program with everything that lowering changes: a class with a deferred property, a query whether that
property is initialized, and a deferred variable that is read.  It runs in the standard library.  General theorems
are tried on it.
-/

namespace DeferredInit

namespace Sample

/-- The type of the property. -/
def text : Ty := .reference ⟨1⟩ false

/-- The type of the class. -/
def service : Ty := .reference ⟨2⟩ false

/-- The declarations: a class with one deferred property, and two functions, the second with a deferred
variable. -/
def decls : Array Decl :=
  #[{ name := "Service", span := ⟨1, 1, 7⟩, form := .cls { hash := ⟨2⟩, members := [⟨1⟩] } },
    { name := "name", span := ⟨2, 3, 4⟩, modifiers := .deferredInit,
      form := .property { ty := text, owner := some ⟨0⟩, backingField := some ⟨2⟩, getter := some ⟨3⟩ } },
    { name := "name", span := ⟨2, 3, 4⟩, form := .field { ty := text, owner := some ⟨0⟩, property := some ⟨1⟩ } },
    { name := "<get-name>", span := ⟨2, 3, 4⟩,
      form := .function { returnType := text, dispatchReceiver := some ⟨4⟩, body := some ⟨3⟩, property := some ⟨1⟩ } },
    .receiver service ⟨2, 3, 4⟩,
    { name := "probe", span := ⟨4, 1, 5⟩, form := .function { returnType := .boolean, body := some ⟨7⟩ } },
    { name := "greet", span := ⟨5, 1, 5⟩, form := .function { returnType := text, body := some ⟨17⟩ } },
    { name := "x", span := ⟨6, 3, 1⟩, modifiers := .deferredInit, form := .var { ty := service } }]

/-- How the standard library is hosted. -/
def lowering : Lowering where
  intrinsics := { isInitializedGetter := ⟨5403989963589104852⟩, throwUninitialized := ⟨11287937704905913405⟩ }

/-- The expressions: the body of the getter, then `return Service()::name.isInitialized`, then
`x = Service(); x.name = "ready"; return x.name`. -/
def exprs : Array Expr :=
  #[⟨⟨2, 3, 4⟩, service, .getValue ⟨4⟩⟩,
    ⟨⟨2, 3, 4⟩, text, .getField ⟨2⟩ (some ⟨0⟩)⟩,
    ⟨⟨2, 3, 4⟩, .nothing, .ret ⟨3⟩ (some ⟨1⟩)⟩,
    ⟨⟨2, 3, 4⟩, .unit, .block [⟨2⟩]⟩,
    ⟨⟨4, 10, 7⟩, service, .construct ⟨0⟩⟩,
    ⟨⟨4, 19, 4⟩, text, .propertyRef ⟨1⟩ (some ⟨4⟩) none⟩,
    ⟨⟨4, 24, 5⟩, .boolean, .call (.library lowering.intrinsics.isInitializedGetter) none (some ⟨5⟩) []⟩,
    ⟨⟨4, 3, 6⟩, .nothing, .ret ⟨5⟩ (some ⟨6⟩)⟩,
    ⟨⟨6, 3, 1⟩, .unit, .declare ⟨7⟩⟩,
    ⟨⟨7, 7, 7⟩, service, .construct ⟨0⟩⟩,
    ⟨⟨7, 3, 1⟩, .unit, .setValue ⟨7⟩ ⟨9⟩⟩,
    ⟨⟨8, 3, 1⟩, service, .getValue ⟨7⟩⟩,
    ⟨⟨8, 12, 7⟩, text, .const (.str "ready")⟩,
    ⟨⟨8, 5, 4⟩, .unit, .setField ⟨2⟩ (some ⟨11⟩) ⟨12⟩⟩,
    ⟨⟨9, 10, 1⟩, service, .getValue ⟨7⟩⟩,
    ⟨⟨9, 12, 4⟩, text, .call (.declared ⟨3⟩) (some ⟨14⟩) none []⟩,
    ⟨⟨9, 3, 6⟩, .nothing, .ret ⟨6⟩ (some ⟨15⟩)⟩,
    ⟨⟨6, 1, 30⟩, .unit, .block [⟨8⟩, ⟨10⟩, ⟨13⟩, ⟨16⟩]⟩]

end Sample

/-- **A sample program.** -/
def sample : Program where
  name := "sample"
  decls := Sample.decls
  exprs := Sample.exprs
  topLevel := [⟨0⟩, ⟨5⟩, ⟨6⟩]

end DeferredInit
