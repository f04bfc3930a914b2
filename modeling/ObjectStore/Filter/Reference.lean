import ObjectStore.Schema.Classes

/-
  Property references.

  A path names properties one after the other: every one but the last is a link
  to one object, and the last is what the path reaches. The empty path is the
  element itself. A reference is a path together with the kind it reaches, and
  every condition on a property is checked against that kind.

    1. `Reference.resolve` follows a path through the classes of a schema. What
       lies behind a link that may be null may be null itself.
    2. `requireScalar`, `requireContainer`, `requireOrderable` and `checkBound`
       are the checks that conditions share.
-/

namespace ObjectStore

/-- Property names from an object to what it reaches. -/
structure Path where
  segments : List String
  deriving DecidableEq, Repr, Inhabited

/-- The names joined by points; the element itself is `self`. -/
def Path.text (p : Path) : String :=
  if p.segments.isEmpty then "self" else ".".intercalate p.segments

/-- A path and the kind of what it reaches. -/
structure Reference where
  path : Path
  kind : PropertyKind
  deriving DecidableEq, Repr, Inhabited

namespace Reference

/-- The class to which a link to one object leads. -/
def linkTarget (segment : String) (k : PropertyKind) : Except Error String :=
  match k.target, k.container with
  | some target, none => .ok target
  | _, _ => .error (.typeMismatch "to-one link" s!"{segment}: {k.text}")

/-- The kind at the end of a path from a class, `optional` telling whether a link
that may be null was passed. A container stays what it is behind such a link. -/
def follow (s : Schema) (className : String) (optional : Bool) :
    List String → Except Error PropertyKind
  | [] => .error (.invalidOperation .emptyPath)
  | [name] =>
    match s.property className name with
    | .error e => .error e
    | .ok p =>
      if optional && !p.kind.isContainer then .ok p.kind.nullable else .ok p.kind
  | name :: rest =>
    match s.property className name with
    | .error e => .error e
    | .ok p =>
      match linkTarget name p.kind with
      | .error e => .error e
      | .ok target => follow s target (optional || p.kind.optional) rest

/-- The reference for a path from a class. -/
def resolve (s : Schema) (className : String) (segments : List String) :
    Except Error Reference :=
  match follow s className false segments with
  | .ok kind => .ok ⟨⟨segments⟩, kind⟩
  | .error e => .error e

def element (k : PropertyKind) : Reference := ⟨⟨[]⟩, k.element⟩

def onOwner (property : String) (k : PropertyKind) : Reference := ⟨⟨[property]⟩, k⟩

def description (r : Reference) : String := s!"{r.path.text}: {r.kind.text}"

/-- The reference reaches one value. -/
def requireScalar (r : Reference) : Except Error Unit :=
  if r.kind.isContainer then .error (.typeMismatch "scalar property" r.description) else .ok ()

/-- The reference reaches a list or set. -/
def requireContainer (r : Reference) : Except Error Unit :=
  if r.kind.isContainer then .ok ()
  else .error (.typeMismatch "list or set property" r.description)

/-- The values that the reference reaches can be asked for less and greater. -/
def requireOrderable (r : Reference) : Except Error Unit :=
  if r.kind.family.isOrderable then .ok ()
  else .error (.typeMismatch "orderable property" r.description)

/-- A literal that can be asked for less and greater; null cannot. -/
def isOrderableLiteral (v : Value) : Bool :=
  match v.family? with
  | some f => f.isOrderable
  | none => false

/-- A literal to compare with in an order: not null, accepted by the kind, and
orderable itself where the kind accepts every family. -/
def checkBound (r : Reference) (v : Value) : Except Error Unit :=
  if v.isNull then
    .error (.typeMismatch r.kind.element.text "null in ordering comparison")
  else
    match r.kind.element.check v with
    | .error e => .error e
    | .ok () =>
      if r.kind.family == .any && !isOrderableLiteral v then
        .error (.typeMismatch "orderable literal" v.typeName)
      else .ok ()

end Reference

/-- The ends of a range; the upper end belongs to it or not. -/
structure Bounds where
  lo : Value
  hi : Value
  inclusive : Bool
  deriving DecidableEq, Inhabited

end ObjectStore
