import ObjectStore.Schema.Kind
import ObjectStore.Store.Snapshot

/-
  Links in a snapshot.

  A link written to a property with a target class has to lead to an object of
  that class. What leads nowhere is no link and passes, as does a link written to
  a property without a target.
-/

namespace ObjectStore

/-- A link leads to an object of the target class. -/
def Snapshot.checkLink (s : Snapshot) (k : PropertyKind) (v : Value) : Except Error Unit :=
  match v.asObject, k.target with
  | some key, some target =>
    match s.entity? key with
    | none => .error (.notFound key)
    | some e =>
      if e.className = target then .ok () else .error (.typeMismatch target e.className)
  | _, _ => .ok ()

end ObjectStore
