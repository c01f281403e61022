import JobShell.Table

/-!
# Descriptor tables

A process names its open files by small numbers. A new descriptor is the least number that is free;
`dup2` binds a number the process chooses.
-/

namespace JobShell

abbrev Descriptors := Table Nat Nat

namespace Descriptors

/-- The least free descriptor from `least` on, looked for among `n` numbers. -/
def freeFrom (d : Descriptors) : Nat → Nat → Nat
  | 0, least => least
  | n + 1, least => if (d.get? least).isSome then freeFrom d n (least + 1) else least

/-- The least free descriptor from `least` on. -/
def free (d : Descriptors) (least : Nat := 0) : Nat := d.freeFrom d.length least

def insert (d : Descriptors) (file : Nat) : Nat × Descriptors := (d.free, d.set d.free file)

/-- Makes `target` refer to what `fd` refers to. -/
def dup2? (d : Descriptors) (fd target : Nat) : Option Descriptors :=
  (d.get? fd).map fun file => d.set target file

end Descriptors

end JobShell
