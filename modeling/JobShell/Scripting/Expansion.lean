import JobShell.Scripting.Arithmetic
import JobShell.Scripting.Options
import JobShell.Text.Pattern
import JobShell.Scripting.State

/-!
# Expanding words

A word is expanded to atoms: letters, of which each is known to be quoted or not and to be open to
splitting or not, and marks. `Fields.ofAtoms` splits atoms into fields. Fields with unquoted pattern
letters become the names of the files they match, in the order of their bytes.
-/

namespace JobShell.Scripting

inductive Atom where
  | letter (l : Letter) (splits : Bool)
  /-- Something quoted stood here: there is a field even if it is empty. -/
  | mark
  /-- The field ends here; when `kept`, even an empty one counts. -/
  | cut (kept : Bool)

namespace Fields

structure Work where
  /-- Letters of the field, backwards. -/
  field : List Letter := []
  /-- There is a field even if it has no letters. -/
  present : Bool := false
  /-- Fields, backwards. -/
  done : List (List Letter) := []
  /-- Passing over separators; `some true` if one that is no blank may still follow. -/
  passing : Option Bool := none

namespace Work

def close (w : Work) : Work :=
  { w with field := [], present := false, done := w.field.reverse :: w.done }

def separate (w : Work) (blank : Bool) : Work :=
  if blank && !w.present then w else { w.close with passing := some blank }

def step (separators : Bytes) (w : Work) : Atom → Work
  | .mark => { w with present := true, passing := none }
  | .cut kept =>
    let w := { w with passing := none }
    if kept || w.present then w.close else w
  | .letter l splits =>
    if splits && l.byte ∈ separators then
      let blank := l.byte ∈ [0x20, 0x09, 0x0a]
      match w.passing with
      | none => w.separate blank
      | some open_ =>
        if blank then w
        else if open_ then { w with passing := some false }
        else { w with passing := none }.separate false
    else { w with field := l :: w.field, present := true, passing := none }

end Work

def ofAtoms (separators : Bytes) (atoms : List Atom) : List (List Letter) :=
  let w := atoms.foldl (Work.step separators) {}
  (if w.present then w.close else w).done.reverse

def letters (atoms : List Atom) : List Letter :=
  atoms.filterMap fun
    | .letter l _ => some l
    | _ => none

end Fields

namespace Expansion

open Sh

structure Manner where
  /-- Into fields; otherwise into one text. -/
  fields : Bool := false
  /-- `~` counts behind `:`, too, as in the value of an assignment. -/
  value : Bool := false
  /-- Inside braces, where plain text may be split. -/
  inBraces : Bool := false
  /-- A `~` at the start counts. -/
  home : Bool := true

/-! ## Parameters -/

def defaultSeparators : Bytes := Bytes.ofString " \t\n"

def separators : Sh Bytes := return ((← get).vars.valueOf "IFS").getD defaultSeparators

def optionLetters (s : State) : Bytes :=
  ((Options.all.filterMap (·.1)).reverse.filter s.options.contains).map (·.toNat.toUInt8)

/-- The value of a parameter that is not all of the parameters. -/
def valueOf (s : State) (name : Bytes) : Option Bytes :=
  match name with
  | [0x23] => some (Bytes.ofNat s.params.length)
  | [0x3f] => some (Bytes.ofNat s.status)
  | [0x24] => some (Bytes.ofInt s.self)
  | [0x21] => s.lastBackground.map Bytes.ofInt
  | [0x2d] => some (optionLetters s)
  | _ =>
    match Bytes.toNat? name with
    | some 0 => some s.name
    | some n => s.params[n - 1]?
    | none => s.vars.value? name

/-- All parameters: `@` or `*`. -/
def isAll (name : Bytes) : Bool := name = [0x40] || name = [0x2a]

def joint (s : State) : Bytes :=
  match s.vars.valueOf "IFS" with
  | none => [0x20]
  | some ifs => ifs.take 1

def atomsOf (s : Bytes) (quoted splits : Bool) : List Atom :=
  s.map fun b => .letter { byte := b, quoted } splits

def present (m : Manner) (quoted : Bool) (s : Bytes) : List Atom := atomsOf s quoted (m.fields && !quoted)

def presentAll (s : State) (m : Manner) (name : Bytes) (quoted : Bool) : List Atom :=
  let ps := s.params
  if m.fields && quoted && name = [0x40] then
    List.intercalate [.cut true] (ps.map fun p => .mark :: present m true p)
  else
    let sep := joint s
    let between := if m.fields && !quoted && sep.isEmpty then [Atom.cut false] else present m quoted sep
    List.intercalate between (ps.map (present m quoted))

def textOfAll (s : State) : Bytes := Bytes.join (joint s) s.params

/-- A parameter that is asked for and not there. -/
def missing {α : Type} (name : Bytes) (text : Bytes) : Sh α := fail (name ++ Bytes.ofString ": " ++ text)

def tidy (s : Bytes) : Bytes :=
  ((s.filter (· ≠ 0)).reverse.dropWhile (· = Bytes.newline)).reverse

def evaluate (text : Bytes) : Sh Bytes := do
  match Arithmetic.evaluate (← get).vars text with
  | .ok (v, vars) =>
    modify ({ · with vars })
    return Bytes.ofInt v.toInt
  | .error (.expression what) =>
    fail (Bytes.ofString s!"arithmetic expression: {what}: \"" ++ text ++ [0x22])
  | .error (.number s) => badNumber s
  | .error (.readOnly name) => fail (about name "is read only")

/-- `~` at the start of a text, and behind colons in values; what does not name the home directory
stays. `closed` says that the text ends the word. -/
def homes (home : Option Bytes) (value closed : Bool) (start : Bool) (s : Bytes) : List Atom :=
  go (s.length + 1) start s
where
  go : Nat → Bool → Bytes → List Atom
    | 0, _, _ => []
    | _, _, [] => []
    | n + 1, start, b :: rest =>
      let ends (rest : Bytes) : Bool :=
        match rest with
        | [] => closed
        | c :: _ => c = 0x2f || (value && c = 0x3a)
      if start && b = 0x7e && ends rest then
        match home with
        | some h => .mark :: atomsOf h true false ++ go n false rest
        | none => .letter { byte := b } false :: go n false rest
      else .letter { byte := b } false :: go n (value && b = 0x3a) rest

section

-- `run` runs a command for its output.
variable (run : Cmd → Sh Bytes)

/-- The atoms of the parts of a word; at most `n` deep. `start` says that none came before. -/
def atoms : Nat → Manner → Bool → Word → Sh (List Atom)
  | 0, _, _, _ => return []
  | _, _, _, [] => return []
  | n + 1, m, start, part :: rest => do
    let home := (← get).vars.valueOf "HOME"
    let plain (s : Bytes) : List Atom :=
      if m.home then homes home m.value rest.isEmpty start s else atomsOf s false false
    let first : List Atom ← match part with
      | .text s quoted =>
        if quoted then pure (if s.isEmpty then [.mark] else atomsOf s true false)
        else if m.inBraces && m.fields then
          pure ((plain s).map fun
            | .letter l _ => .letter l (!l.quoted)
            | a => a)
        else pure (plain s)
      | .arithmetic w quoted =>
        let text ← atoms n { home := false } false w
        pure (present m quoted (← evaluate (Letter.bytes (Fields.letters text))))
      | .output c quoted => pure (present m quoted (tidy (← run c)))
      | .param name op word quoted => param n m name op word quoted
    return first ++ (← atoms n m false rest)
where
  /-- The value of a parameter with what is done with it. -/
  param (n : Nat) (m : Manner) (name : Bytes) (op : ParamOp) (word : Word) (quoted : Bool) :
      Sh (List Atom) := do
    let s ← get
    let all := isAll name
    let value := if all then (if s.params.isEmpty then none else some (textOfAll s)) else valueOf s name
    let shown : List Atom := if all then presentAll s m name quoted
      else (value.map (present m quoted)).getD []
    let strict : Sh Unit := do
      if value.isNone && !all && s.options.contains 'u' then
        missing name (Bytes.ofString "parameter not set")
    let lacks (colon : Bool) : Bool := if colon then value.all (·.isEmpty) else value.isNone
    let inner : Manner := { m with inBraces := true, home := !quoted }
    let text (w : Word) : Sh Bytes := do
      return Letter.bytes (Fields.letters (← atoms n { home := !quoted } true w))
    match op with
    | .plain => do
      strict
      return shown
    | .length => do
      strict
      let size := if all then (Bytes.join [0x20] s.params).length else (value.getD []).length
      return present m quoted (Bytes.ofNat size)
    | .default colon => if lacks colon then atoms n inner true word else return shown
    | .assign colon => do
      if lacks colon then
        let v ← text word
        assignNamed name v
        return present m quoted v
      else return shown
    | .require colon => do
      if lacks colon then
        let w ← text word
        if word.isEmpty then
          missing name (Bytes.ofString
            (if colon then "parameter not set or null" else "parameter not set"))
        else missing name w
      else return shown
    | .alternative colon => if lacks colon then return [] else atoms n inner true word
    | .trim suffix longest => do
      strict
      let p := Fields.letters (← atoms n { home := true } true word)
      return present m quoted (Pattern.trim p suffix longest (value.getD []))
    | .bad => failString "Bad substitution"

/-- Parts of words are at most this deep in one another. -/
def depth : Nat := Nat.pow 2 60

def pattern (w : Word) : Sh (List Letter) := return Fields.letters (← atoms run depth {} true w)

def text (w : Word) : Sh Bytes := return Letter.bytes (← pattern run w)

def value (w : Word) : Sh Bytes :=
  return Letter.bytes (Fields.letters (← atoms run depth { value := true } true w))

/-- The text after a command: nothing names a home directory there. -/
def hereText (w : Word) : Sh Bytes :=
  return Letter.bytes (Fields.letters (← atoms run depth { home := false } false w))

/-! ## Names of files -/

def segments (field : List Letter) : List (List Letter) :=
  field.foldr (fun l acc =>
    match acc with
    | [] => [[l]]
    | piece :: rest => if l.byte = Bytes.slash then [] :: acc else (l :: piece) :: rest) [[]]

/-- The names in a directory that a pattern matches; hidden ones only if it starts with a dot. -/
def matching (directory : Bytes) (piece : List Letter) : Sh (List Bytes) := do
  let dots := (piece.head?).any (·.byte = 0x2e)
  let p := Pattern.items piece
  match ← call (.list (if directory.isEmpty then [0x2e] else directory)) with
  | .error _ => return []
  | .ok names =>
    let names := if dots then [0x2e] :: [0x2e, 0x2e] :: names else names
    return names.filter fun n => (dots || n.head? ≠ some 0x2e) && Pattern.covers p n

/-- The text a piece without open steps stands for. -/
def literal (piece : List Letter) : Bytes :=
  (Pattern.items piece).filterMap fun
    | .byte b => some b
    | _ => none

def isOpen (piece : List Letter) : Bool := (Pattern.items piece).any (·.isOpen)

/-- The files that the pieces match below `before`. -/
def filesBelow (before : Bytes) (found : Bool) : List (List Letter) → Sh (List Bytes)
  | [] => return []
  | [piece] => do
    if isOpen piece then return (← matching before piece).map (before ++ ·)
    else
      let path := before ++ literal piece
      if !found || (← call (.stat path false)).toBool then return [path] else return []
  | piece :: next :: rest => do
    if isOpen piece then
      let names ← matching before piece
      let below ← names.mapM fun n => filesBelow (before ++ n ++ [Bytes.slash]) true (next :: rest)
      return below.flatten
    else filesBelow (before ++ literal piece ++ [Bytes.slash]) found (next :: rest)

/-- The texts a field stands for: the files it matches, or itself. -/
def files (field : List Letter) : Sh (List Bytes) := do
  let pieces := segments field
  if (← hasOption 'f') || !pieces.any isOpen then return [Letter.bytes field]
  match ← filesBelow [] true pieces with
  | [] => return [Letter.bytes field]
  | names => return names.mergeSort fun a b => Bytes.compare a b ≠ .gt

def fields (w : Word) : Sh (List Bytes) := do
  let made ← atoms run depth { fields := true } true w
  let fs := Fields.ofAtoms (← separators) made
  return (← fs.mapM files).flatten

end

end Expansion

end JobShell.Scripting
