import JobShell.Tools.Arguments

/-!
# What the utilities on files share

Looking at files, questions to the user, backups of files that are about to be replaced, and the
sources and targets that operands name.
-/

namespace JobShell.Operands

open Util

def stat (path : Bytes) (follow : Bool := true) : Util (Except Errno FileInfo) := call (.stat path follow)

def isDirectory (path : Bytes) (follow : Bool := true) : Util Bool := do
  match ← stat path follow with
  | .ok i => return i.kind == .directory
  | .error _ => return false

/-- A name without slashes at its end, but for the root. -/
def withoutSlashes (s : Bytes) : Bytes :=
  let t := (s.reverse.dropWhile (· = Bytes.slash)).reverse
  if t.isEmpty && !s.isEmpty then [Bytes.slash] else t

def inside (directory file : Bytes) : Bytes := Path.append directory (Path.baseName file)

def permissions (mode : Nat) : Bytes :=
  let three (shift extra : Nat) (low high : Char) : Bytes :=
    let bits := mode >>> shift
    let runs := bits &&& 1 ≠ 0
    let run := if mode &&& extra ≠ 0 then (if runs then low else high) else if runs then 'x' else '-'
    Bytes.ofChars [if bits &&& 4 ≠ 0 then 'r' else '-', if bits &&& 2 ≠ 0 then 'w' else '-', run]
  three 6 0o4000 's' 'S' ++ three 3 0o2000 's' 'S' ++ three 0 0o1000 't' 'T'

def modeText (mode : Nat) : Bytes :=
  let digits := [mode / 512 % 8, mode / 64 % 8, mode / 8 % 8, mode % 8]
  digits.map (fun d => (0x30 + d).toUInt8) ++ Bytes.ofString " (" ++ permissions mode ++ Bytes.ofString ")"

/-! ## Questions -/

/-- Asks a question and reads a line of answer; only one that starts with `y` agrees. -/
def agreed (question : Bytes) : Util Bool := do
  report ((← get).name ++ Bytes.ofString ": " ++ question ++ Bytes.ofString "? ")
  iterate (none : Option Bool) fun answer => do
    match ← read 0 1 with
    | .ok [b] =>
      if b = Bytes.newline then return .inr (answer.getD false)
      else return .inl (some (answer.getD (b = 0x79 || b = 0x59)))
    | _ => return .inr (answer.getD false)

/-! ## Backups -/

inductive Backup where
  | none
  | simple
  /-- Numbered where there are numbered ones, simple elsewhere. -/
  | existing
  | numbered
  deriving DecidableEq

structure BackupStyle where
  kind : Backup := .none
  suffix : Bytes := [0x7e]

def backupOptions : List (String × Arity × String) :=
  [("backup", .optional, "backup"), ("suffix", .required, "S")]

def backupStyle (a : Arguments) : Util BackupStyle := do
  let kinds := [(["none", "off"], Backup.none), (["simple", "never"], .simple),
    (["existing", "nil"], .existing), (["numbered", "t"], .numbered)]
  let kind ← match a.value? "backup" with
    | some word =>
      let i ← keyword "backup type" (kinds.map (·.1)) word
      pure ((kinds[i]?.map (·.2)).getD .existing)
    | none => pure (if a.has "backup" || a.has "b" || a.has "S" then .existing else .none)
  return { kind, suffix := (a.value? "S").getD [0x7e] }

/-- The number in the name of a numbered backup of `base`. -/
def backupNumber? (base name : Bytes) : Option Nat := do
  let rest ← Bytes.after? (base ++ Bytes.ofString ".~") name
  if rest.getLast? = some 0x7e then Bytes.toNat? rest.dropLast else none

def backupNumbers (path : Bytes) : Util (List Nat) := do
  let directory := path.take (path.length - (Path.baseName path).length)
  match ← call (.list (if directory.isEmpty then Path.dot else directory)) with
  | .ok names => return names.filterMap (backupNumber? (Path.baseName path))
  | .error _ => return []

/-- The name a file is kept under, if it is kept. -/
def BackupStyle.nameOf (s : BackupStyle) (path : Bytes) : Util (Option Bytes) := do
  let simple := path ++ s.suffix
  let numbered (numbers : List Nat) : Bytes :=
    path ++ Bytes.ofString s!".~{numbers.foldl max 0 + 1}~"
  match s.kind with
  | .none => return none
  | .simple => return some simple
  | .numbered => return some (numbered (← backupNumbers path))
  | .existing =>
    let numbers ← backupNumbers path
    return some (if numbers.isEmpty then simple else numbered numbers)

/-- Gives a file its backup name; the name, if it is kept. -/
def BackupStyle.keep (s : BackupStyle) (path : Bytes) : Util (Option Bytes) := do
  match ← s.nameOf path with
  | none => return none
  | some name =>
    let _ ← call (.rename path name)
    return some name

/-! ## Sources and targets -/

inductive Targets where
  | into (directory : Bytes) (sources : List Bytes)
  | single (source target : Bytes)

def targetDirectory (path : Bytes) : Util Bytes := do
  let refuse (e : Errno) : Util Bytes :=
    fail (because (Bytes.ofString "target directory " ++ Quoted.always path) e)
  match ← stat path with
  | .ok i => if i.kind = .directory then return path else refuse .ENOTDIR
  | .error e => refuse e

/-- What operands name. A last operand that is a directory takes all others, unless `T` is given;
`n` says that a link to a directory does not count. -/
def targetsOf (a : Arguments) (follow : Bool := true) : Util Targets := do
  match a.value? "t", a.operands with
  | _, [] => misuseString "missing file operand"
  | some d, sources => return .into (← targetDirectory d) sources
  | none, [one] =>
    misuse (Bytes.ofString "missing destination file operand after " ++ Quoted.always one)
  | none, [source, target] =>
    if !a.has "T" && (← isDirectory target follow) then return .into target [source]
    else return .single source target
  | none, operands =>
    let target := operands.getLast?.getD []
    if a.has "T" then extraOperand ((operands[2]?).getD [])
    match ← stat target with
    | .ok i =>
      if i.kind = .directory then return .into target operands.dropLast
      else fail (because (Bytes.ofString "target " ++ Quoted.always target) .ENOTDIR)
    | .error e => fail (because (Bytes.ofString "target " ++ Quoted.always target) e)

def pairsOf : Targets → List (Bytes × Bytes)
  | .into d sources => sources.map fun s => (s, inside d s)
  | .single s t => [(s, t)]

end JobShell.Operands
