import JobShell.Text.Class

/-!
# Patterns

A pattern is made of bytes, `?`, `*` and sets in brackets. It is read from bytes of which each is
known to be quoted or not; a quoted byte stands for itself, and so does one behind an unquoted
backslash. `Pattern.covers` says which texts a pattern matches.
-/

namespace JobShell

/-- A byte, and whether it was quoted. -/
structure Letter where
  byte : UInt8
  quoted : Bool := false
  deriving DecidableEq, Repr

namespace Letter

/-- Unquoted and equal to a byte. -/
def isBare (l : Letter) (b : UInt8) : Bool := !l.quoted && l.byte = b

def bytes (ls : List Letter) : Bytes := ls.map (·.byte)

def ofBytes (s : Bytes) (quoted : Bool) : List Letter := s.map ({ byte := ·, quoted })

end Letter

namespace Pattern

inductive Member where
  | range (first last : UInt8)
  | named (p : UInt8 → Bool)
  | nothing

def Member.has (b : UInt8) : Member → Bool
  | range first last => first ≤ b && b ≤ last
  | named p => p b
  | nothing => false

inductive Item where
  | byte (b : UInt8)
  | any
  | many
  | set (negated : Bool) (members : List Member)

/-- The class `[:name:]` behind its first bracket, and what follows. -/
def className? (s : List Letter) : Option (Member × List Letter) :=
  match s with
  | colon :: rest =>
    if !colon.isBare 0x3a then none
    else
      let name := rest.takeWhile fun l => !l.isBare 0x3a
      match rest.drop name.length with
      | _ :: close :: more =>
        if close.isBare 0x5d then
          let m := (Class.ofName? (Letter.bytes name)).elim .nothing .named
          some (m, more)
        else none
      | _ => none
  | [] => none

/-- A byte in brackets: what follows, when an escape has been passed over. -/
def plainByte : List Letter → Option (UInt8 × List Letter)
  | [] => none
  | l :: rest =>
    if l.isBare 0x5c then rest.head?.map fun m => (m.byte, rest.tail)
    else some (l.byte, rest)

/-- The members up to the closing bracket, of which at least one has to be read first; `none` if
the bracket is missing. -/
def members : Nat → List Member → List Letter → Option (List Member × List Letter)
  | 0, _, _ => none
  | n + 1, done, s =>
    match s with
    | [] => none
    | l :: rest =>
      if l.isBare 0x5d && !done.isEmpty then some (done.reverse, rest)
      else
        match if l.isBare 0x5b then className? rest else none with
        | some (m, rest) => members n (m :: done) rest
        | none =>
          match plainByte s with
          | none => none
          | some (first, rest) =>
            match rest with
            | dash :: next :: more =>
              if dash.isBare 0x2d && !next.isBare 0x5d then
                match plainByte (next :: more) with
                | some (last, rest) => members n (.range first last :: done) rest
                | none => none
              else members n (.range first first :: done) rest
            | _ => members n (.range first first :: done) rest

def bracket (s : List Letter) : Option (Item × List Letter) :=
  let negated := (s.head?).any (·.isBare 0x21)
  let body := if negated then s.tail else s
  (members (s.length + 1) [] body).map fun (ms, rest) => (.set negated ms, rest)

/-- The steps of a pattern of at most `n` letters. -/
def itemsFrom : Nat → List Letter → List Item
  | 0, _ => []
  | _, [] => []
  | n + 1, l :: rest =>
    if l.quoted then .byte l.byte :: itemsFrom n rest
    else if l.byte = 0x3f then .any :: itemsFrom n rest
    else if l.byte = 0x2a then .many :: itemsFrom n rest
    else if l.byte = 0x5c then
      match rest with
      | [] => [.byte 0x5c]
      | m :: rest => .byte m.byte :: itemsFrom n rest
    else if l.byte = 0x5b then
      match bracket rest with
      | some (item, rest) => item :: itemsFrom n rest
      | none => .byte 0x5b :: itemsFrom n rest
    else .byte l.byte :: itemsFrom n rest

def items (s : List Letter) : List Item := itemsFrom s.length s

/-- Whether the steps match all of a text. -/
def covers : List Item → Bytes → Bool
  | [], s => s.isEmpty
  | .byte b :: p, s =>
    match s with
    | [] => false
    | c :: s => c = b && covers p s
  | .any :: p, s =>
    match s with
    | [] => false
    | _ :: s => covers p s
  | .set negated ms :: p, s =>
    match s with
    | [] => false
    | c :: s => (ms.any (·.has c) != negated) && covers p s
  | .many :: p, s => (List.range (s.length + 1)).any fun k => covers p (s.drop k)

/-- Whether a pattern matches all of a text. -/
def isMatch (pattern : List Letter) (s : Bytes) : Bool := covers (items pattern) s

/-- Whether a step stands for more than one text. -/
def Item.isOpen : Item → Bool
  | .byte _ => false
  | _ => true

/-- A text without the shortest or the longest beginning or end that a pattern matches. -/
def trim (pattern : List Letter) (suffix longest : Bool) (s : Bytes) : Bytes :=
  let p := items pattern
  let sizes := List.range (s.length + 1)
  let places := if suffix != longest then sizes.reverse else sizes
  if suffix then ((places.find? fun k => covers p (s.drop k)).map s.take).getD s
  else ((places.find? fun k => covers p (s.take k)).map s.drop).getD s

end Pattern

end JobShell
