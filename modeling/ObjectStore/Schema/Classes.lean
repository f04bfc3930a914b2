import ObjectStore.Schema.Kind

/-
  Which classes exist and what their properties hold.

  A schema is a list of classes in ascending order of name, one for each name.
  Properties keep the order of their declaration.

    1. `Schema.withClass` adds a class or replaces the one of its name.
    2. `Schema.validate` is the condition under which a store opens: names are
       identifiers, no property is declared twice, and links lead to classes.
-/

namespace ObjectStore

structure Property where
  name : String
  kind : PropertyKind
  deriving DecidableEq, Repr, Inhabited

/-- The properties of a class. -/
structure ClassSchema where
  name : String
  properties : List Property
  deriving DecidableEq, Repr, Inhabited

def ClassSchema.property (c : ClassSchema) (name : String) : Except Error Property :=
  match c.properties.find? (·.name == name) with
  | some p => .ok p
  | none => .error (.unknownProperty c.name name)

/-- All classes, in ascending order of name. -/
structure Schema where
  classes : List ClassSchema
  deriving DecidableEq, Repr, Inhabited

/-- The name consists of ASCII letters, digits and underscores and does not start
with a digit. -/
def isIdentifier (name : String) : Bool :=
  match name.toList with
  | [] => false
  | c :: cs => (c.isAlpha || c == '_') && cs.all fun c => c.isAlphanum || c == '_'

namespace Schema

def empty : Schema := ⟨[]⟩

/-- A class put at its place among the classes, over the one of its name. -/
def place (c : ClassSchema) : List ClassSchema → List ClassSchema
  | [] => [c]
  | d :: ds =>
    match compare c.name d.name with
    | .lt => c :: d :: ds
    | .eq => c :: ds
    | .gt => d :: place c ds

/-- The schema with a class added or replaced. -/
def withClass (s : Schema) (c : ClassSchema) : Schema := ⟨place c s.classes⟩

def find (s : Schema) (name : String) : Except Error ClassSchema :=
  match s.classes.find? (·.name == name) with
  | some c => .ok c
  | none => .error (.unknownClass name)

def property (s : Schema) (className name : String) : Except Error Property :=
  match s.find className with
  | .ok c => c.property name
  | .error e => .error e

/-- A link has a target class that exists, and nothing else has a target. -/
def checkTarget (s : Schema) (className : String) (p : Property) : Except Error Unit :=
  match p.kind.target, p.kind.family with
  | some target, .object => (s.find target).map fun _ => ()
  | none, .object => .error (.invalidOperation (.inconsistentTarget className p.name))
  | some _, _ => .error (.invalidOperation (.inconsistentTarget className p.name))
  | none, _ => .ok ()

/-- The properties of a class, those before them being given by name. The name of
the element itself, `self`, is not free. -/
def checkProperties (s : Schema) (className : String) (seen : List String) :
    List Property → Except Error Unit
  | [] => .ok ()
  | p :: ps =>
    if !isIdentifier p.name || p.name == "self" then
      .error (.invalidOperation (.invalidPropertyName className p.name))
    else if seen.contains p.name then
      .error (.invalidOperation (.duplicateProperty className p.name))
    else
      match s.checkTarget className p with
      | .error e => .error e
      | .ok () => s.checkProperties className (p.name :: seen) ps

def checkClasses (s : Schema) : List ClassSchema → Except Error Unit
  | [] => .ok ()
  | c :: cs =>
    if !isIdentifier c.name then .error (.invalidOperation (.invalidClassName c.name))
    else
      match s.checkProperties c.name [] c.properties with
      | .error e => .error e
      | .ok () => s.checkClasses cs

/-- Names, repetitions and link targets; the first fault in order is the answer. -/
def validate (s : Schema) : Except Error Unit := s.checkClasses s.classes

end Schema

end ObjectStore
