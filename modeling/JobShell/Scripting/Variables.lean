import JobShell.Scripting.Command
import JobShell.Table

/-!
# Variables

A variable has a value or none, may be exported to programs and may be read-only. The environment of
a program lists the exported variables in the order of their slots, which depend on their names.
-/

namespace JobShell.Scripting

structure Variable where
  value : Option Bytes := none
  exported : Bool := false
  readOnly : Bool := false
  deriving Repr

abbrev Variables : Type := Table Bytes Variable

namespace Variables

def value? (vs : Variables) (name : Bytes) : Option Bytes := (vs.get? name).bind (·.value)

def valueOf (vs : Variables) (name : String) : Option Bytes := vs.value? (Bytes.ofString name)

def isReadOnly (vs : Variables) (name : Bytes) : Bool := (vs.get? name).any (·.readOnly)

/-- Gives a variable a value; it stays exported if it was. -/
def assign (vs : Variables) (name value : Bytes) : Variables :=
  Table.set vs name { (vs.get? name).getD {} with value := some value }

/-- Takes a value away. What remains of an exported variable is nothing. -/
def unset (vs : Variables) (name : Bytes) : Variables := vs.erase name

def mark (vs : Variables) (name : Bytes) (exported readOnly : Bool) : Variables :=
  let v := (vs.get? name).getD {}
  Table.set vs name
    { v with exported := v.exported || exported, readOnly := v.readOnly || readOnly }

def slotCount : Nat := 39

def slot (name : Bytes) : Nat :=
  (16 * ((name.head?).elim 0 (·.toNat)) + name.foldl (fun n b => n + b.toNat) 0) % slotCount

def inOrder (vs : Variables) : Variables := vs.mergeSort fun a b => slot a.1 ≤ slot b.1

/-- `name=value`. -/
def binding (name value : Bytes) : Bytes := name ++ 0x3d :: value

def environment (vs : Variables) : List Bytes :=
  (inOrder vs).filterMap fun (name, v) =>
    if v.exported then v.value.map (binding name) else none

def import_ (vs : Variables) (env : List Bytes) : Variables :=
  env.foldl (fun vs s =>
    match Name.assignment? s with
    | some (name, value) => Table.set vs name { value := some value, exported := true }
    | none => vs) vs

end Variables

end JobShell.Scripting
