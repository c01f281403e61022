import JobShell.Text.Bytes
import JobShell.System.Errno

/-!
# Paths

A path is cut at its slashes into names. `Path.ofBytes` refuses the empty path and one that is too
long; a single name that is too long is refused when it is looked up.
-/

namespace JobShell

structure Path where
  /-- It starts at the root directory. -/
  absolute : Bool
  names : List Bytes
  /-- Something has been asked to be a directory by a slash at the end. -/
  trailing : Bool
  deriving DecidableEq, Repr

namespace Path

/-- Bytes of the longest path, with its final NUL. -/
def maxLength : Nat := 4096

/-- Bytes of the longest name. -/
def maxName : Nat := 255

/-- Number of symbolic links followed in one lookup. -/
def maxLinks : Nat := 40

def parse (s : Bytes) : Path :=
  { absolute := s.head? = some Bytes.slash
    names := (Bytes.split (· == Bytes.slash) s).filter (!·.isEmpty)
    trailing := s.getLast? = some Bytes.slash }

/-- The path of a byte string a process hands to the system. -/
def ofBytes (s : Bytes) : Except Errno Path :=
  if s.isEmpty then .error .ENOENT
  else if s.length ≥ maxLength then .error .ENAMETOOLONG
  else .ok (parse s)

/-- `.`, the directory itself. -/
def dot : Bytes := [0x2e]

/-- `..`, the directory above. -/
def dotdot : Bytes := [0x2e, 0x2e]

/-- The last name of a path text and what stands before it, slashes at the end left out. -/
def baseName (s : Bytes) : Bytes :=
  match (Bytes.split (· == Bytes.slash) s).filter (!·.isEmpty) with
  | [] => if s.isEmpty then [] else [Bytes.slash]
  | names => names.getLast?.getD []

/-- `a/b`; no slash is added after one at the end of `a`. -/
def append (a b : Bytes) : Bytes :=
  if a.isEmpty then b
  else if a.getLast? = some Bytes.slash then a ++ b
  else a ++ [Bytes.slash] ++ b

end Path

end JobShell
