import JobShell.System.Search
import JobShell.Text.Quoted

/-!
# What the utilities share

A utility collects its output and writes it in blocks; what is left is written when it complains and
when it ends. A failed write is remembered and told at the end. `Util` is a piece of a utility, with
this state.
-/

namespace JobShell

structure Desk where
  /-- The name it was called by. -/
  name : Bytes
  env : List Bytes
  /-- Output that has not been written. -/
  unwritten : Bytes := []
  /-- A failed write to standard output. -/
  lost : Option Errno := none
  /-- The exit code so far. -/
  status : UInt8 := 0

abbrev Util (α : Type) : Type := StateT Desk Prog α

namespace Util

def call (c : Call) : Util c.Reply := StateT.lift (Prog.call c)

/-- The end of the process, without writing what is left. -/
def exit {α : Type} (code : UInt8) : Util α := StateT.lift (Prog.exit code)

/-- Repeats `body` from state to state until it gives a result. -/
def iterate {σ α : Type} (s : σ) (body : σ → Util (σ ⊕ α)) : Util α := fun d =>
  Prog.iterate (s, d) fun (s, d) => do
    match ← body s d with
    | (.inl s, d) => return .inl (s, d)
    | (.inr a, d) => return .inr (a, d)

/-- Writes all of a text, going on when it is taken in parts. -/
def writeAll (fd : Nat) (text : Bytes) : Util (Except Errno Unit) :=
  iterate text fun text => do
    if text.isEmpty then return .inr (.ok ())
    match ← call (.write fd text) with
    | .ok n => return .inl (text.drop n)
    | .error .EINTR => return .inl text
    | .error e => return .inr (.error e)

/-- Bytes written at once. -/
def blockSize : Nat := 4096

/-- Writes a text to standard output at once and remembers a failure. -/
def emit (text : Bytes) : Util Unit := do
  if let .error e ← writeAll 1 text then modify ({ · with lost := some e })

def flush : Util Unit := do
  let text := (← get).unwritten
  modify ({ · with unwritten := [] })
  unless text.isEmpty do emit text

def put (text : Bytes) : Util Unit := do
  let all := (← get).unwritten ++ text
  if all.length > blockSize then
    let n := all.length / blockSize * blockSize
    modify ({ · with unwritten := all.drop n })
    emit (all.take n)
  else modify ({ · with unwritten := all })

def putString (s : String) : Util Unit := put (Bytes.ofString s)

def putLine (text : Bytes) : Util Unit := put (text ++ [Bytes.newline])

def report (text : Bytes) : Util Unit := do
  flush
  let _ ← writeAll 2 text

/-- A complaint: the name of the utility and a text. -/
def complain (text : Bytes) : Util Unit := do
  report ((← get).name ++ Bytes.ofString ": " ++ text ++ [Bytes.newline])

def setStatus (code : UInt8) : Util Unit := modify ({ · with status := code })

/-- A complaint after which the utility goes on, to end with exit code 1. -/
def warn (text : Bytes) (code : UInt8 := 1) : Util Unit := do
  complain text
  setStatus code

/-- `text: reason`. -/
def because (text : Bytes) (e : Errno) : Bytes := text ++ Bytes.ofString s!": {e.reason}"

def warnFile (file : Bytes) (e : Errno) (code : UInt8 := 1) : Util Unit :=
  warn (because (Quoted.needed file) e) code

/-- Writes what is left and ends; a failed write is told and gives exit code `onLoss`. -/
def close {α : Type} (code : UInt8) (onLoss : UInt8 := 1) : Util α := do
  flush
  match (← get).lost with
  | some e =>
    complain (because (Bytes.ofString "write error") e)
    exit onLoss
  | none => exit code

def fail {α : Type} (text : Bytes) (code : UInt8 := 1) : Util α := do
  complain text
  close code

def failString {α : Type} (text : String) (code : UInt8 := 1) : Util α := fail (Bytes.ofString text) code

def hint {α : Type} (code : UInt8 := 1) : Util α := do
  report (Bytes.ofString "Try '" ++ (← get).name ++ Bytes.ofString " --help' for more information.\n")
  close code

def misuse {α : Type} (text : Bytes) (code : UInt8 := 1) : Util α := do
  complain text
  hint code

def misuseString {α : Type} (text : String) (code : UInt8 := 1) : Util α :=
  misuse (Bytes.ofString text) code

def extraOperand {α : Type} (operand : Bytes) (code : UInt8 := 1) : Util α :=
  misuse (Bytes.ofString "extra operand " ++ Quoted.plain operand) code

/-- A read that is made again when a signal interrupts it. -/
def read (fd count : Nat) : Util (Except Errno Bytes) :=
  iterate () fun _ => do
    match ← call (.read fd count) with
    | .error .EINTR => return .inl ()
    | r => return .inr r

/-- `-`, which stands for a standard stream. -/
def dash : Bytes := [0x2d]

/-- Opens an operand for reading; `-` is standard input. -/
def openOperand (operand : Bytes) : Util (Except Errno Nat) :=
  if operand = dash then return .ok 0 else call (.open operand .reading 0)

/-- Closes what `openOperand` has opened. -/
def closeOperand (fd : Nat) : Util Unit := do
  unless fd = 0 do
    let _ ← call (.close fd)

/-- Everything up to the end of a file, in the order it is read, and the error that ended it. -/
def readAll (fd : Nat) (size : Nat := 65536) : Util (Bytes × Option Errno) :=
  iterate ([] : List Bytes) fun pieces => do
    match ← read fd size with
    | .ok [] => return .inr (pieces.reverse.flatten, none)
    | .ok piece => return .inl (piece :: pieces)
    | .error e => return .inr (pieces.reverse.flatten, some e)

/-- The complete lines of a text, without the mark that ends each, and what follows the last mark. -/
def splitLines (text : Bytes) (mark : UInt8 := Bytes.newline) : List Bytes × Bytes :=
  match (Bytes.split (· == mark) text).reverse with
  | last :: lines => (lines.reverse, last)
  | [] => ([], [])

/-- The lines of a text; whether the last one lacks its mark does not show. -/
def linesOf (text : Bytes) (mark : UInt8 := Bytes.newline) : List Bytes :=
  let (lines, last) := splitLines text mark
  if last.isEmpty then lines else lines ++ [last]

/-- The lines of a text, each with its mark; the last one may lack it. -/
def records (text : Bytes) (mark : UInt8 := Bytes.newline) : List Bytes :=
  let (lines, last) := splitLines text mark
  lines.map (· ++ [mark]) ++ if last.isEmpty then [] else [last]

def joinLines (lines : List Bytes) (mark : UInt8 := Bytes.newline) : Bytes := lines.flatMap (· ++ [mark])

inductive Flow (σ : Type) where
  | next (s : σ)
  | stop (s : σ)

/-- Gives lines to `body` in turn; the state, the lines left when it has stopped. -/
def overLines {σ : Type} (body : σ → Bytes → Bool → Util (Flow σ)) (s : σ) :
    List Bytes → Util (σ × Option (List Bytes))
  | [] => return (s, none)
  | line :: rest => do
    match ← body s line true with
    | .next s => overLines body s rest
    | .stop s => return (s, some rest)

inductive LineEnd where
  | finished
  /-- The body has stopped; the bytes read and not used. -/
  | stopped (ahead : Bytes)
  | failed (e : Errno)

/-- Reads a file piece by piece and gives its lines to `body`, each with a flag that says whether it
ended with the mark. -/
def eachLine {σ : Type} (fd : Nat) (s : σ) (body : σ → Bytes → Bool → Util (Flow σ))
    (size : Nat := 4096) (mark : UInt8 := Bytes.newline) : Util (σ × LineEnd) :=
  iterate (([] : Bytes), s) fun (partialLine, s) => do
    match ← read fd size with
    | .error e => return .inr (s, .failed e)
    | .ok [] =>
      if partialLine.isEmpty then return .inr (s, .finished)
      else match ← body s partialLine false with
        | .next s => return .inr (s, .finished)
        | .stop s => return .inr (s, .stopped [])
    | .ok piece =>
      let (lines, last) := splitLines piece mark
      match lines with
      | [] => return .inl (partialLine ++ last, s)
      | line :: rest =>
        match ← overLines body s ((partialLine ++ line) :: rest) with
        | (s, none) => return .inl (last, s)
        | (s, some left) =>
          return .inr (s, .stopped (joinLines left mark ++ last))

/-- Gives what was read and not used back to a file that can be positioned. -/
def giveBack (fd : Nat) (ahead : Bytes) : Util Unit := do
  unless ahead.isEmpty do
    let _ ← call (.seek fd (-Int.ofNat ahead.length) .current)

def lookUp (name : String) : Util (Option Bytes) := do
  return Environment.get? (← get).env name

/-- A program made of a utility: its arguments without its name, its result the exit code. -/
def image (onLoss : UInt8 := 1) (main : List Bytes → Util UInt8) : Image := fun args env =>
  let whole : Util UInt8 := do
    let code ← main (args.drop 1)
    close code onLoss
  (whole { name := args.head?.getD [], env }) fun r => .exit r.1

end Util

end JobShell
