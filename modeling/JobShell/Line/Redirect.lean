/-!
# Redirections

A redirection binds standard input or standard output of a pipeline to a file. `Redirect.Kind` is
which stream and how the file is opened; its operator is the word that asks for it on a line.
-/

namespace JobShell

namespace Redirect

inductive Kind where
  | input
  | truncate
  | append
  deriving DecidableEq, Repr

/-- The word that asks for a redirection of this kind. -/
def Kind.operator : Kind → String
  | input => "<"
  | truncate => ">"
  | append => ">>"

def Kind.ofOperator? : String → Option Kind
  | "<" => some input
  | ">" => some truncate
  | ">>" => some append
  | _ => none

/-- The standard stream that is bound. -/
def Kind.descriptor : Kind → Nat
  | input => 0
  | truncate => 1
  | append => 1

theorem Kind.ofOperator?_operator (k : Kind) : ofOperator? k.operator = some k := by
  cases k <;> rfl

theorem Kind.eq_operator_of_ofOperator? {s : String} {k : Kind} (h : ofOperator? s = some k) :
    s = k.operator := by
  unfold ofOperator? at h
  split at h <;> simp_all [operator] <;> subst h <;> rfl

end Redirect

/-- A file bound to a standard stream. -/
structure Redirect where
  kind : Redirect.Kind
  target : String
  deriving DecidableEq, Repr

end JobShell
