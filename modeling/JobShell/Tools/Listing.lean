import JobShell.Text.Class
import JobShell.Text.Pattern
import JobShell.Text.Version
import JobShell.Tools.Operands

/-!
# Listing directories

`ls`: which names are listed, in which order, how each is written and how they are laid out.
-/

namespace JobShell.Listing

open Util Operands

inductive Hidden where
  | none
  /-- All but the directory and the one above. -/
  | almost
  | all
  deriving DecidableEq

inductive Marks where
  | none
  | directories
  | kinds
  /-- Kinds, and what can be run. -/
  | all
  deriving DecidableEq

inductive Key where
  | name
  | size
  | time
  | ending
  | version
  | width
  | none
  deriving DecidableEq

inductive Layout where
  | lines
  | commas
  | across
  | down
  deriving DecidableEq

inductive Quoting where
  | literal
  | word
  | wordAlways
  /-- Between double quotes. -/
  | string
  | escapes
  deriving DecidableEq

structure Style where
  hidden : Hidden := .none
  /-- Names that match are not listed. -/
  ignored : List (List Letter) := []
  directories : Bool := false
  recursive : Bool := false
  dereference : Bool := false
  marks : Marks := .none
  key : Key := .name
  reverse : Bool := false
  directoriesFirst : Bool := false
  layout : Layout := .lines
  quoting : Quoting := .literal
  /-- Columns of a line; `none` is no limit. -/
  width : Option Nat := some 80
  tab : Nat := 8
  /-- The byte that ends lines. -/
  mark : UInt8 := Bytes.newline

structure Entry where
  name : Bytes
  info : FileInfo
  /-- A link to a directory leads to one. -/
  leadsToDirectory : Bool := info.kind == .directory

namespace Style

/-! ## One name -/

def markOf (s : Style) (e : Entry) : Bytes :=
  let kinds := s.marks = .kinds || s.marks = .all
  match e.info.kind with
  | .directory => if s.marks ≠ .none then [0x2f] else []
  | .link => if kinds then [0x40] else []
  | .pipe => if kinds then [0x7c] else []
  | .file => if s.marks = .all && e.info.mode &&& 0o111 ≠ 0 then [0x2a] else []
  | .device => []

/-- A name with backslashes before what is not printed as itself, before blanks unless it stands in
double quotes, and before the quotes that it stands in. -/
def escaped (inQuotes : Bool) (name : Bytes) : Bytes := name.flatMap fun b =>
  if b = 0x5c || (inQuotes && b = 0x22) || (!inQuotes && b = 0x20) then [0x5c, b]
  else match Quoted.escape? b with
    | some e => 0x5c :: e
    | none => [b]

def quoted (s : Style) (name : Bytes) : Bytes :=
  match s.quoting with
  | .literal => name
  | .word => Quoted.asWord name
  | .wordAlways => Quoted.always name
  | .string => 0x22 :: escaped true name ++ [0x22]
  | .escapes => escaped false name

def written (s : Style) (e : Entry) : Bytes := s.quoted e.name ++ s.markOf e

/-! ## Order -/

/-- The last dot of a name and what follows. -/
def endingOf (name : Bytes) : Bytes :=
  if 0x2e ∈ name then 0x2e :: (name.reverse.takeWhile (· ≠ 0x2e)).reverse else []

def compareBy (s : Style) (a b : Entry) : Ordering :=
  let byName := Bytes.compare a.name b.name
  match s.key with
  | .name | .none => byName
  | .size => (compare b.info.size a.info.size).then byName
  | .time => (compare b.info.modified a.info.modified).then byName
  | .ending => (Bytes.compare (endingOf a.name) (endingOf b.name)).then byName
  | .version => (Version.compare a.name b.name).then byName
  | .width => (compare (s.written a).length (s.written b).length).then byName

def before (s : Style) (a b : Entry) : Bool :=
  let rank (e : Entry) : Nat := if s.directoriesFirst && !e.leadsToDirectory then 1 else 0
  let o := s.compareBy a b
  ((compare (rank a) (rank b)).then (if s.reverse then o.swap else o)) != .gt

def sort (s : Style) (es : List Entry) : List Entry := if s.key = .none then es else es.mergeSort s.before

/-! ## Layout -/

def indent (tab : Nat) (column target : Nat) : Bytes :=
  if h : column < target then
    if tab ≠ 0 && target / tab > (column + 1) / tab then
      0x09 :: indent tab (column + max 1 (tab - column % tab)) target
    else 0x20 :: indent tab (column + 1) target
  else []
termination_by target - column
decreasing_by all_goals omega

/-- The widths of the columns when names of these lengths stand in `columns` columns; all but the
last have two blanks at their ends, and none is narrower than three. -/
def columnWidths (layout : Layout) (lengths : List Nat) (columns : Nat) : List Nat :=
  let rows := (lengths.length + columns - 1) / columns
  (List.range columns).map fun c =>
    let inColumn := lengths.zipIdx.filter fun (_, i) =>
      (if layout = .down then i / rows else i % columns) = c
    inColumn.foldl (fun w (n, _) => max w (n + if c + 1 = columns then 0 else 2)) 3

def fittingWidths (s : Style) (lengths : List Nat) : List Nat :=
  let most := match s.width with
    | none => lengths.length
    | some w => min lengths.length (max 1 ((w + 2) / 3))
  let fits (widths : List Nat) : Bool := s.width.all (widths.foldl (· + ·) 0 < ·)
  (((List.range most).reverse.map fun i => columnWidths s.layout lengths (i + 1)).find? fits).getD
    (columnWidths s.layout lengths 1)

def row (tab : Nat) (column : Nat) : List (Bytes × Nat) → Bytes
  | [] => []
  | [(name, _)] => name
  | (name, width) :: rest =>
    name ++ indent tab (column + name.length) (column + width) ++ row tab (column + width) rest

def inColumns (s : Style) (names : List Bytes) : Bytes :=
  let widths := s.fittingWidths (names.map (·.length))
  let columns := max 1 widths.length
  let rows := (names.length + columns - 1) / columns
  (List.range rows).flatMap fun r =>
    let picked := names.zipIdx.filterMap fun (name, i) =>
      if (if s.layout = .down then i % rows else i / columns) = r then some name else none
    row s.tab 0 (picked.zip widths) ++ [s.mark]

/-- Names with commas between them, with a new line where the next would not fit. -/
def withCommas (s : Style) (column : Nat) : List Bytes → Bytes
  | [] => [s.mark]
  | name :: rest =>
    if s.width.all (column + name.length + 2 < ·) then
      Bytes.ofString ", " ++ name ++ s.withCommas (column + 2 + name.length) rest
    else 0x2c :: s.mark :: name ++ s.withCommas name.length rest

def lines (s : Style) (es : List Entry) : Bytes :=
  let names := es.map s.written
  match s.layout, names with
  | _, [] => []
  | .lines, names => joinLines names s.mark
  | .commas, name :: rest => name ++ s.withCommas name.length rest
  | .across, names | .down, names => s.inColumns names

/-! ## Directories -/

/-- Whether a name in a directory is listed. -/
def lists (s : Style) (name : Bytes) : Bool :=
  (s.hidden ≠ .none || name.head? ≠ some 0x2e) && !s.ignored.any fun p =>
    Pattern.isMatch p name && (name.head? ≠ some 0x2e || p.head?.any (·.byte = 0x2e))

def entriesOf (s : Style) (path : Bytes) : Util (Except Errno (List Entry)) := do
  match ← call (.list path) with
  | .error e => return .error e
  | .ok names =>
    let names := (if s.hidden = .all then [Path.dot, Path.dotdot] else []) ++ names.filter s.lists
    let mut es : List Entry := []
    for name in names do
      let whole := Path.append path name
      let info ← match ← stat whole s.dereference with
        | .ok info => pure (.ok info)
        | .error _ => stat whole false
      if let .ok info := info then
        let leadsToDirectory ← if s.directoriesFirst then isDirectory whole else pure false
        es := { name, info, leadsToDirectory } :: es
    return .ok (s.sort es.reverse)

/-- Lists directories, one after another, and those below them, at most `n`. `titled` puts the
name in front of each. -/
def listAll (s : Style) (titled : Bool) : Nat → Bool → List (Bytes × Bool) → Util Unit
  | 0, _, _ => return ()
  | _, _, [] => return ()
  | n + 1, first, (path, given) :: rest => do
    match ← s.entriesOf path with
    | .error e =>
      warn (because (Bytes.ofString "cannot open directory " ++ Quoted.always path) e) (if given then 2 else 1)
      listAll s titled n first rest
    | .ok es =>
      if titled then put ((if first then [] else [s.mark]) ++ s.quoted path ++ [0x3a, s.mark])
      put (s.lines es)
      let below := if s.recursive then
          (es.filter fun e => e.info.kind == .directory && e.name ≠ Path.dot && e.name ≠ Path.dotdot).map
            fun e => (Path.append path e.name, false)
        else []
      listAll s titled n false (below ++ rest)

end Style

/-! ## Options -/

def table : OptionTable :=
  .of "aAbBcCdDfFghHiI:klLmnNoOpqQrRsStT:uUvw:xXZ1"
    [("all", .none, "a"), ("almost-all", .none, "A"), ("escape", .none, "b"),
     ("ignore-backups", .none, "B"), ("classify", .optional, "F"), ("color", .optional, "color"),
     ("dereference", .none, "L"), ("directory", .none, "d"), ("file-type", .none, "file-type"),
     ("format", .required, "format"), ("group-directories-first", .none, "group"),
     ("hide", .required, "hide"), ("human-readable", .none, "h"), ("ignore", .required, "I"),
     ("indicator-style", .required, "indicator"), ("inode", .none, "i"), ("literal", .none, "N"),
     ("quote-name", .none, "Q"), ("quoting-style", .required, "quoting"), ("recursive", .none, "R"),
     ("reverse", .none, "r"), ("size", .none, "s"), ("sort", .required, "sort"),
     ("tabsize", .required, "T"), ("time", .required, "time"), ("width", .required, "w"),
     ("zero", .none, "zero")]

def wordOf {α : Type} (option : String) (words : List (List String × α)) (word : Bytes) (other : α) :
    Util α := do
  let i ← keyword option (words.map (·.1)) word
  return (words[i]?.map (·.2)).getD other

def sortWords : List (List String × Key) :=
  [(["none"], .none), (["time"], .time), (["size"], .size), (["extension"], .ending),
   (["version"], .version), (["width"], .width)]

def formatWords : List (List String × Layout) :=
  [(["verbose", "long"], .lines), (["commas"], .commas), (["horizontal", "across"], .across),
   (["vertical"], .down), (["single-column"], .lines)]

def indicatorWords : List (List String × Marks) :=
  [(["none"], .none), (["slash"], .directories), (["file-type"], .kinds), (["classify"], .all)]

def quotingWords : List (List String × Quoting) :=
  [(["literal"], .literal), (["shell"], .word), (["shell-always"], .wordAlways),
   (["shell-escape"], .word), (["shell-escape-always"], .wordAlways), (["c"], .string),
   (["c-maybe"], .string), (["escape"], .escapes), (["locale"], .string), (["clocale"], .string)]

/-- The words that say when something is done, which is not for a terminal here. -/
def whenWords : List (List String × Bool) :=
  [(["always", "yes", "force"], true), (["never", "no", "none"], false),
   (["auto", "tty", "if-tty"], false)]

def timeWords : List (List String × Unit) :=
  [(["atime", "access", "use"], ()), (["ctime", "status"], ()), (["mtime", "modification"], ()),
   (["birth", "creation"], ())]

def applyOption (s : Style) (key : String) (value : Option Bytes) : Util Style := do
  let word := value.getD []
  match key with
  | "a" => return { s with hidden := .all }
  | "f" => return { s with hidden := .all, key := .none }
  | "A" => return { s with hidden := .almost }
  | "b" => return { s with quoting := .escapes }
  | "C" => return { s with layout := .down }
  | "d" => return { s with directories := true }
  | "F" =>
    let marked ← match value with
      | none => pure true
      | some w => wordOf "--classify" whenWords w false
    return if marked then { s with marks := .all } else s
  | "file-type" => return { s with marks := .kinds }
  | "group" => return { s with directoriesFirst := true }
  | "L" => return { s with dereference := true }
  | "m" => return { s with layout := .commas }
  | "N" => return { s with quoting := .literal }
  | "p" => return { s with marks := .directories }
  | "Q" => return { s with quoting := .string }
  | "r" => return { s with reverse := true }
  | "R" => return { s with recursive := true }
  | "S" => return { s with key := .size }
  | "t" => return { s with key := .time }
  | "U" => return { s with key := .none }
  | "v" => return { s with key := .version }
  | "X" => return { s with key := .ending }
  | "x" => return { s with layout := .across }
  | "1" => return { s with layout := .lines }
  | "I" => return { s with ignored := Letter.ofBytes word false :: s.ignored }
  | "B" =>
    let backups := ["*~", ".*~"].map fun p => Letter.ofBytes (Bytes.ofString p) false
    return { s with ignored := backups ++ s.ignored }
  | "color" =>
    if let some w := value then let _ ← wordOf "--color" whenWords w false
    return s
  | "sort" => return { s with key := ← wordOf "--sort" sortWords word s.key }
  | "format" => return { s with layout := ← wordOf "--format" formatWords word s.layout }
  | "indicator" => return { s with marks := ← wordOf "--indicator-style" indicatorWords word s.marks }
  | "quoting" => return { s with quoting := ← wordOf "--quoting-style" quotingWords word s.quoting }
  | "time" =>
    let _ ← wordOf "--time" timeWords word ()
    return s
  | "w" =>
    match Bytes.toNat? word with
    | some n => return { s with width := if n = 0 then none else some n }
    | none => fail (Bytes.ofString "invalid line width: " ++ Quoted.plain word) 2
  | "T" =>
    match Bytes.toNat? word with
    | some n => return { s with tab := n }
    | none => fail (Bytes.ofString "invalid tab size: " ++ Quoted.plain word) 2
  | "zero" => return { s with mark := 0, layout := .lines, quoting := .literal }
  | _ => return s

/-- The style that options ask for. Names to hide are listed when all names are. -/
def styleOf (a : Arguments) : Util Style := do
  let s ← a.options.foldlM (fun s (key, value) => applyOption s key value) ({} : Style)
  let hide := (a.values "hide").map (Letter.ofBytes · false)
  return if s.hidden = .none then { s with ignored := s.ignored ++ hide } else s

def ls (args : List Bytes) : Util UInt8 := do
  let a ← arguments table args 2
  let s ← styleOf a
  let operands := if a.operands.isEmpty then [Path.dot] else a.operands
  let mut plain : List Entry := []
  let mut opened : List Entry := []
  for operand in operands do
    let info ← if !s.dereference && (s.directories || s.marks = .all) then stat operand false else
      match ← stat operand with
      | .ok i => pure (.ok i)
      | .error e => if s.dereference then pure (.error e) else stat operand false
    match info with
    | .error e => warn (because (Bytes.ofString "cannot access " ++ Quoted.always operand) e) 2
    | .ok info =>
      if info.kind = .directory && !s.directories then opened := opened ++ [{ name := operand, info }]
      else plain := plain ++ [{ name := operand, info }]
  let files := s.sort plain
  let directories := s.sort opened
  put (s.lines files)
  let titled := operands.length > 1 || s.recursive
  s.listAll titled 1000000 files.isEmpty (directories.map fun d => (d.name, true))
  return (← get).status

end JobShell.Listing
