import ServiceLang.Span

set_option autoImplicit false

/-! Names in a source, and the marks left for closing tokens. -/

namespace ServiceLang

structure Identifier where
  name : String
  span : Span
deriving DecidableEq, Repr

/-- `name`, or `package:name`. -/
structure NameReference where
  package : Option Identifier
  name : Identifier
deriving DecidableEq, Repr

namespace NameReference

def isQualified (reference : NameReference) : Bool :=
  reference.package.isSome

def span (reference : NameReference) : Span :=
  match reference.package with
  | some package => package.span.merge reference.name.span
  | none => reference.name.span

def text (reference : NameReference) : String :=
  match reference.package with
  | some package => package.name ++ ":" ++ reference.name.name
  | none => reference.name.name

end NameReference

/-- A dotted path such as `shop.orders.http`. -/
structure PackageName where
  segments : List Identifier
  span : Span
deriving DecidableEq, Repr

namespace PackageName

def last? (package : PackageName) : Option Identifier :=
  package.segments.getLast?

def text (package : PackageName) : String :=
  ".".intercalate (package.segments.map Identifier.name)

end PackageName

/-- Where a closing token stands. One that was only assumed is synthetic, and
its span is empty. -/
structure TokenMarker where
  span : Span
  synthetic : Bool
deriving DecidableEq, Repr

def TokenMarker.isPresent (marker : TokenMarker) : Bool :=
  !marker.synthetic

end ServiceLang
