import JobShell.Scripting.Source

/-!
# Reading words

A word ends at a blank or an operator. Between single quotes every byte stands for itself; between
double quotes parameters, commands and arithmetic are expanded and a backslash quotes only what is
special there. The texts after a command are read as between double quotes, but `"` is plain there.
-/

namespace JobShell.Scripting.WordReader

structure Inner where
  /-- The command after `$(`, through `)`. -/
  enclosed : Read Cmd
  /-- The command that is all of the text. -/
  whole : Read Cmd

structure Place where
  /-- Between double quotes. -/
  quoted : Bool := false
  /-- In braces, which end it. -/
  inBraces : Bool := false
  /-- In braces between double quotes: after a double quote of its own. -/
  innerQuote : Bool := false
  /-- In a text after a command. -/
  here : Bool := false

def isMeta (b : UInt8) : Bool := b ∈ Bytes.ofString "\n;&|<>() \t"

def isSpecial (b : UInt8) : Bool := b ∈ Bytes.ofString "*@#?$!-" || Class.isDigit b

def isOrdinary (b : UInt8) : Bool := !isMeta b && b ∉ Bytes.ofString "\\'\"$\x60\x7d"

def escape (p : Place) (acc : Word) : Read Word := do
  let _ ← Read.raw
  match ← Read.raw with
  | none => return Word.addText [0x5c] true acc
  | some c =>
    let special := !p.quoted || c = 0x5c || c = 0x60 || c = 0x24 ||
      (c = 0x22 && !(p.here && !p.inBraces)) || (c = 0x7d && p.inBraces)
    return Word.addText (if special then [c] else [0x5c, c]) true acc

/-- The text between back quotes: a backslash before `$`, a back quote or another backslash is
taken off, between double quotes also one before `"`. -/
def backText (quoted : Bool) : Nat → Bytes → Read Bytes
  | 0, _ => Read.fail "EOF in backquote substitution"
  | n + 1, done => do
    let _ ← Read.peek
    match ← Read.raw with
    | none => Read.fail "EOF in backquote substitution"
    | some 0x60 => return done.reverse
    | some 0x5c =>
      match ← Read.raw with
      | none => Read.fail "EOF in backquote substitution"
      | some c =>
        if c = 0x5c || c = 0x60 || c = 0x24 || (quoted && c = 0x22) then backText quoted n (c :: done)
        else backText quoted n (c :: 0x5c :: done)
    | some c => backText quoted n (c :: done)

/-- The command between back quotes, whose text is read on its own. -/
def backquoted (inner : Inner) (quoted : Bool) (acc : Word) : Read Word := do
  let _ ← Read.raw
  let text ← backText quoted Read.horizon []
  let outer ← get
  set { outer with rest := text, line := 1, closed := true, back := none, announced := []
                   active := [], literal := false }
  let c ← inner.whole
  modify fun s => { outer with texts := s.texts, nextText := s.nextText }
  return .output c quoted :: acc

/-- The name in braces, and whether its length is asked for; no name if it is none. -/
def bracedName : Read (Option Bytes × Bool) := do
  let name (b : UInt8) : Read Bytes :=
    Read.takeWhile (if Class.isDigit b then Class.isDigit else Name.isByte) Read.horizon
  match ← Read.peek with
  | none => return (none, false)
  | some b =>
    if Name.isStart b || Class.isDigit b then return (some (← name b), false)
    else if b = 0x7d then return (none, false)
    else if b = 0x23 then
      let _ ← Read.raw
      match ← Read.peek with
      | none => return (some [b], false)
      | some c =>
        if Name.isByte c then return (some (← name c), true)
        else
          let s ← get
          let _ ← Read.raw
          let next ← Read.peek
          if c = 0x7d || next ≠ some 0x7d then
            set s
            return (some [b], false)
          else return (if isSpecial c then some [c] else none, true)
    else
      let _ ← Read.raw
      return (if isSpecial b then some [b] else none, false)

def operator : Read ParamOp := do
  let colon ← Read.accept 0x3a
  match ← Read.peek with
  | none => return .bad
  | some b =>
    let taken (op : ParamOp) : Read ParamOp := do
      let _ ← Read.raw
      return op
    -- What is no operator is passed over; it does not count as a line end.
    let unknown : Read ParamOp := do
      modify fun s => { s with rest := s.rest.drop 1 }
      return .bad
    if b = 0x2d then taken (.default colon)
    else if b = 0x3d then taken (.assign colon)
    else if b = 0x3f then taken (.require colon)
    else if b = 0x2b then taken (.alternative colon)
    else if colon then unknown
    else if b = 0x25 || b = 0x23 then
      let _ ← Read.raw
      return .trim (b = 0x25) (← Read.accept b)
    else unknown

/-- A double-quoted piece. That it is there counts even if it is empty, except for `"$@"`, which
stands for no word if there are no parameters. -/
def closeQuoted (piece acc : Word) : Word :=
  match piece with
  | [.param [0x40] .plain _ _] => piece ++ acc
  | _ => piece ++ Word.addText [] true acc

mutual

/-- The parts of a word, backwards, in front of those read before. -/
def parts (inner : Inner) : Nat → Place → Word → Read Word
  | 0, _, _ => Read.fail "Unterminated quoted string"
  | n + 1, p, acc => do
    match ← Read.peek with
    | none =>
      if p.quoted && !p.here then Read.fail "Unterminated quoted string"
      else if p.inBraces then Read.fail "Missing '\x7d'"
      else return acc
    | some c =>
      if isOrdinary c then
        let run ← Read.takeWhile isOrdinary Read.horizon
        parts inner n p (Word.addText run p.quoted acc)
      else if c = 0x5c then parts inner n p (← escape p acc)
      else if c = 0x24 then parts inner n p (← dollar inner n p acc)
      else if c = 0x60 && !(← get).literal then parts inner n p (← backquoted inner p.quoted acc)
      else if c = 0x7d && p.inBraces && !p.innerQuote then
        let _ ← Read.raw
        return acc
      else if c = 0x22 then
        let _ ← Read.raw
        if !p.quoted then
          let piece ← parts inner n { quoted := true } []
          parts inner n p (closeQuoted piece acc)
        else if p.inBraces then
          parts inner n { p with innerQuote := !p.innerQuote } (Word.addText [] true acc)
        else if p.here then parts inner n p (Word.addText [c] true acc)
        else return acc
      else if c = 0x27 && !p.quoted then
        let _ ← Read.raw
        let s ← Read.untilByte 0x27 "Unterminated quoted string" Read.horizon []
        parts inner n p (Word.addText s true acc)
      else if isMeta c && !p.quoted && !p.inBraces then return acc
      else
        let _ ← Read.raw
        let acc := Word.addText [c] p.quoted acc
        if c = Bytes.newline && p.here && !p.inBraces then return acc else parts inner n p acc

def dollar (inner : Inner) : Nat → Place → Word → Read Word
  | 0, _, _ => Read.fail "Missing '\x7d'"
  | n + 1, p, acc => do
    let _ ← Read.raw
    if (← get).literal then return Word.addText [0x24] p.quoted acc
    match ← Read.peek with
    | none => return Word.addText [0x24] p.quoted acc
    | some c =>
      if c = 0x28 then
        let _ ← Read.raw
        if ← Read.accept 0x28 then
          return .arithmetic (← arithmetic inner n 0 []).reverse p.quoted :: acc
        else return .output (← inner.enclosed) p.quoted :: acc
      else if c = 0x7b then
        let _ ← Read.raw
        return (← braced inner n p) :: acc
      else if Name.isStart c then
        return .param (← Read.takeWhile Name.isByte Read.horizon) .plain [] p.quoted :: acc
      else if isSpecial c then
        let _ ← Read.raw
        return .param [c] .plain [] p.quoted :: acc
      else return Word.addText [0x24] p.quoted acc

def braced (inner : Inner) : Nat → Place → Read Part
  | 0, _ => Read.fail "Missing '\x7d'"
  | n + 1, p => do
    let (name, length) ← bracedName
    match name with
    | some name =>
      if ← Read.accept 0x7d then return .param name (if length then .length else .plain) [] p.quoted
      else
        let op ← if length then pure .bad else operator
        let place : Place := match op with
          | .trim .. => { inBraces := true }
          | _ => { p with inBraces := true, innerQuote := false }
        return .param name op (← parts inner n place []).reverse p.quoted
    | none =>
      let _ ← parts inner n { p with inBraces := true, innerQuote := false } []
      return .param [] .bad [] p.quoted

/-- The text of an arithmetic expression up to `))`, `depth` parentheses being open. -/
def arithmetic (inner : Inner) : Nat → Nat → Word → Read Word
  | 0, _, _ => Read.fail "Missing '))'"
  | n + 1, depth, acc => do
    match ← Read.peek with
    | none => Read.fail "Missing '))'"
    | some c =>
      if c = 0x5c then arithmetic inner n depth (← escape { quoted := true } acc)
      else if c = 0x24 then arithmetic inner n depth (← dollar inner n { quoted := true } acc)
      else if c = 0x60 then arithmetic inner n depth (← backquoted inner true acc)
      else
        let _ ← Read.raw
        let more := Word.addText [c] true acc
        if c = 0x28 then arithmetic inner n (depth + 1) more
        else if c = 0x29 then
          match depth with
          | depth + 1 => arithmetic inner n depth more
          | 0 => if ← Read.accept 0x29 then return acc else arithmetic inner n 0 more
        else arithmetic inner n depth more

end

def word (inner : Inner) : Read Word := do
  return (← parts inner Read.horizon {} []).reverse

/-! ## Texts after a command -/

/-- At the start of a line of a text: takes off tabs if they do not count, and takes the line if it
is the mark that ends the text. -/
def atMark (h : HereText) : Read Bool := do
  let s ← get
  let rest := if h.tabs then s.rest.dropWhile (· = 0x09) else s.rest
  let (line, after) := Bytes.cut Bytes.newline rest
  if after.isNone && !s.closed then throw .more
  if line = h.mark then
    set { s with rest := after.getD [], line := s.line + 1 }
    return true
  else
    set { s with rest }
    return rest.isEmpty

def plainLines (h : HereText) : Nat → List Bytes → Read Bytes
  | 0, _ => Read.fail "Unterminated quoted string"
  | n + 1, done => do
    if ← atMark h then return done.reverse.flatten
    let s ← get
    let (line, after) := Bytes.cut Bytes.newline s.rest
    set { s with rest := after.getD [], line := s.line + 1 }
    plainLines h n ((line ++ (if after.isSome then [Bytes.newline] else [])) :: done)

/-- The lines of a text with what is expanded in them, backwards. -/
def expandedLines (inner : Inner) (h : HereText) : Nat → Word → Read Word
  | 0, _ => Read.fail "Unterminated quoted string"
  | n + 1, acc => do
    if ← atMark h then return acc
    expandedLines inner h n (← parts inner Read.horizon { quoted := true, here := true } acc)

def hereTexts (inner : Inner) : Read Unit := do
  let all := (← get).announced
  modify ({ · with announced := [] })
  for h in all do
    let w : Word ←
      if h.raw then do pure [.text (← plainLines h Read.horizon []) true]
      else do pure (← expandedLines inner h Read.horizon []).reverse
    modify fun s => { s with texts := (h.id, w) :: s.texts }

end JobShell.Scripting.WordReader
