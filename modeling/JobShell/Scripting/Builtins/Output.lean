import JobShell.Scripting.Options
import JobShell.Text.Printf

/-!
# Builtins that write words

`echo`, in which escapes always count, and `printf`.
-/

namespace JobShell.Scripting.Builtins

open Sh

/-- Writes the words; whether an escape has ended the output. -/
def echoWords : List Bytes → Sh Bool
  | [] => return false
  | w :: rest => do
    let (text, stopped) := Printf.resolve false false (w.length + 1) w
    put text
    if stopped.isSome then return true
    unless rest.isEmpty do put [0x20]
    echoWords rest

def echo (args : List Bytes) : Sh Nat := do
  let quiet := args.head? = some (Bytes.ofString "-n")
  let stopped ← echoWords (if quiet then args.tail else args)
  unless quiet || stopped do put [Bytes.newline]
  return 0

def printfDialect : Printf.Dialect :=
  { hex := false, doubleQuote := true, format := .double, emptyIsZero := true, sizes := []
    flags := Bytes.ofString "-+ 0#", strict := false }

def printf (args : List Bytes) : Sh Nat := do
  let (_, args) ← Options.ofBuiltin "" args
  match args with
  | [] => failString "usage: printf format [arg ...]"
  | format :: words =>
    let (events, _) := Printf.run printfDialect format words
    let mut code := 0
    for event in events do
      match event with
      | .out text => put text
      | .complain c =>
        let told : Option Bytes ← match c with
          | .notNumber w => pure (some (about w "expected numeric value"))
          | .partly w => pure (some (about w "not completely converted"))
          | .tooLarge w => pure (some (about w "Numerical result out of range"))
          | .beyond _ => pure none
          | .badFormat t => fail (about t "invalid directive")
          | .unfinished _ => failString "missing format character"
          | .badEscape t => fail t
        if let some text := told then
          code := 1
          warn text
    return code

end JobShell.Scripting.Builtins
