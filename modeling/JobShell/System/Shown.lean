import JobShell.System.World
import JobShell.Text.Utf8

/-!
# What is shown of processes

Below the directory `/proc` each process has a directory with its state, its descriptors and its
children. `World.shown` gives what stands at a place there, `World.view` what a process sees when it
looks up paths.
-/

namespace JobShell

/-- Sixteen hexadecimal digits for a set of signals. -/
def signalMask (ns : List Nat) : Bytes :=
  let bits := ns.foldl (fun m n => m ||| (1 <<< (n - 1))) 0
  let digits := (Nat.toDigits 16 bits).map (·.toNat.toUInt8)
  Bytes.fill 0x30 (16 - digits.length) ++ digits

namespace World

variable (w : World)

/-- A child that has ended and not been collected, found in its parent's table. -/
def ended? (pid : Pid) : Option (Process × Child) :=
  w.processes.foldl (fun found _ q =>
    found.or ((q.children.find? fun c => c.pid = pid ∧ c.ending.isSome).map (q, ·))) none

def stateOf (pid : Pid) : String × String :=
  match w.process? pid with
  | some p => if p.stopped then ("T", "stopped") else ("S", "sleeping")
  | none => ("Z", "zombie")

def statText (pid : Pid) (name : Bytes) (parent group : Pid) : Bytes :=
  Bytes.ofInt pid ++ Bytes.ofString " (" ++ name ++
    Bytes.ofString s!") {(w.stateOf pid).1} {parent} {group} {group} 0 -1 4194560" ++
    (List.replicate 43 (Bytes.ofString " 0")).flatten ++ [Bytes.newline]

def statusText (pid : Pid) (name : Bytes) (parent : Pid) (umask : Nat) (s : Signals) : Bytes :=
  let of (d : Disposition) := (s.dispositions.filter (·.2 = d)).map (·.1)
  let state := w.stateOf pid
  Bytes.join [Bytes.newline]
    [Bytes.ofString "Name:\t" ++ name,
     Bytes.ofString ("Umask:\t0" ++ String.ofList (Nat.toDigits 8 umask)),
     Bytes.ofString s!"State:\t{state.1} ({state.2})",
     Bytes.ofString s!"Tgid:\t{pid}", Bytes.ofString s!"Pid:\t{pid}",
     Bytes.ofString s!"PPid:\t{parent}",
     Bytes.ofString "SigPnd:\t" ++ signalMask [],
     Bytes.ofString "ShdPnd:\t" ++ signalMask s.pending,
     Bytes.ofString "SigBlk:\t" ++ signalMask s.blocked,
     Bytes.ofString "SigIgn:\t" ++ signalMask (of .ignored),
     Bytes.ofString "SigCgt:\t" ++ signalMask (of .handled), []]

/-- The numbers of the children of a process, as a text. -/
def childrenText (p : Process) : Bytes :=
  p.children.flatMap fun c => Bytes.ofInt c.pid ++ [0x20]

/-- What stands at the names below the directory of one process. -/
def shownOf (pid : Pid) (names : List String) : Option Shown :=
  let live := w.process? pid
  let zombie := if live.isSome then none else w.ended? pid
  let name := ((live.map (·.name)).or (zombie.map (·.1.name))).getD []
  let parent := ((live.map (·.parent)).or (zombie.map (·.1.pid))).getD 0
  let group := ((live.map (·.group)).or (zombie.map (·.1.group))).getD 0
  if live.isNone && zombie.isNone then none
  else match names with
  | [] => some (.directory (["comm", "fd", "stat", "status", "task"].map Bytes.ofString))
  | ["comm"] => some (.text (name ++ [Bytes.newline]))
  | ["stat"] => some (.text (w.statText pid name parent group))
  | ["status"] =>
    some (.text (w.statusText pid name parent ((live.map (·.umask)).getD 0)
      ((live.map (·.signals)).getD {})))
  | ["cwd"] => live.bind fun p => match p.directory with
    | .inode i => (w.tree.pathOf i).map .link
    | _ => none
  | ["fd"] => live.map fun p => .directory (p.descriptors.keys.map Bytes.ofNat)
  | ["fd", n] =>
    live.bind fun p => do
      let file ← p.descriptors.get? (← Bytes.toNat? (Bytes.ofString n))
      return .opened file
  | ["task"] => some (.directory [Bytes.ofInt pid])
  | ["task", t] => if Bytes.ofString t = Bytes.ofInt pid
    then some (.directory [Bytes.ofString "children"]) else none
  | ["task", t, "children"] =>
    if Bytes.ofString t = Bytes.ofInt pid then live.map fun p => .text (childrenText p) else none
  | _ => none

/-- What stands at a place below the directory of processes, as process `self` sees it. -/
def shown (self : Pid) : List Bytes → Option Shown
  | [] => some (.directory (w.processes.keys.map Bytes.ofInt))
  | who :: names =>
    let names := names.map fun n => (Utf8.decodeString n).getD ""
    if who = Bytes.ofString "self" then
      if names.isEmpty then some (.link (Bytes.ofInt self)) else none
    else (Bytes.toNat? who).bind fun pid => w.shownOf pid names

/-- What a process sees when it looks up paths. -/
def view (p : Process) : View :=
  { tree := w.tree, user := w.user, here := p.directory, shown := w.shown p.pid
    inodeOf := w.inodeOf }

end World

end JobShell
