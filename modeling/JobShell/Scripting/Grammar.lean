import JobShell.Scripting.WordReader

/-!
# Reading commands

`Grammar.next` reads the commands of one line, which may go on over several lines. A word counts as
a keyword or an alias only where a command may start. What cannot follow is told with the token that
stands there and, if only one could, with the one expected.
-/

namespace JobShell.Scripting

namespace Token

def keywords : List String :=
  ["!", "case", "do", "done", "elif", "else", "esac", "fi", "for", "if", "in", "then", "until", "while",
   "\x7b", "\x7d"]

def shown : Token → String
  | eof => "end of file"
  | newline => "newline"
  | semicolon => "\";\""
  | background => "\"&\""
  | andIf => "\"&&\""
  | orIf => "\"||\""
  | pipe => "\"|\""
  | openParen => "\"(\""
  | closeParen => "\")\""
  | endCase => "\";;\""
  | redirection _ => "redirection"
  | hereText .. => "redirection"
  | word _ => "word"
  | keyword s => "\"" ++ s ++ "\""

/-- Whether a token ends a list of commands. -/
def endsList : Token → Bool
  | eof | closeParen | endCase => true
  | keyword s => ["do", "done", "elif", "else", "esac", "fi", "then", "\x7d"].contains s
  | _ => false

def toWord : Token → Word
  | word w => w
  | keyword s => [.text (Bytes.ofString s) false]
  | _ => []

end Token

/-- How words are looked at when a token is read. -/
structure Expect where
  newlines : Bool := false
  keywords : Bool := false
  aliases : Bool := false

namespace Expect

def command : Expect := { keywords := true, aliases := true }

def commandBelow : Expect := { newlines := true, keywords := true, aliases := true }

end Expect

namespace Grammar

def unexpected {α : Type} (t : Token) : Read α := Read.fail s!"{t.shown} unexpected"

def expected {α : Type} (t : Token) (what : String) : Read α :=
  Read.fail s!"{t.shown} unexpected (expecting {what})"

def putBack (t : Token) : Read Unit := modify ({ · with back := some t })

/-! ## Tokens -/

def redirection (fd : Option Nat) (output : Bool) : Read Token := do
  let _ ← Read.raw
  if output then
    let fd := fd.getD 1
    if ← Read.accept 0x3e then return .redirection (.file fd .append ·)
    else if ← Read.accept 0x7c then return .redirection (.file fd .clobber ·)
    else if ← Read.accept 0x26 then return .redirection (.copy fd ·)
    else return .redirection (.file fd .write ·)
  else
    let fd := fd.getD 0
    if ← Read.accept 0x3c then return .hereText fd (← Read.accept 0x2d)
    else if ← Read.accept 0x26 then return .redirection (.copy fd ·)
    else if ← Read.accept 0x3e then return .redirection (.file fd .readWrite ·)
    else return .redirection (.file fd .read ·)

/-- A token that starts with a word; a digit alone before `<` or `>` belongs to it. -/
def wordToken (inner : WordReader.Inner) : Read Token := do
  let w ← WordReader.word inner
  let next ← Read.peek
  if next = some 0x3c || next = some 0x3e then
    match w with
    | [] => redirection none (next = some 0x3e)
    | [.text [d] false] =>
      match Bytes.digit? d with
      | some d => redirection (some d) (next = some 0x3e)
      | none => return .word w
    | _ => return .word w
  else return .word w

/-- Takes a token of one byte, or of two if `second` follows. -/
def oneOrTwo (one : Token) (second : UInt8) (two : Token) : Read Token := do
  let _ ← Read.raw
  if ← Read.accept second then return two else return one

def token (inner : WordReader.Inner) : Nat → Read Token
  | 0 => return .eof
  | n + 1 => do
    match ← Read.peek with
    | none => return .eof
    | some c =>
      if Class.isBlank c then
        let _ ← Read.raw
        token inner n
      else if c = 0x23 then
        modify fun s => { s with rest := s.rest.dropWhile (· ≠ Bytes.newline) }
        token inner n
      else if c = Bytes.newline then
        let _ ← Read.raw
        return .newline
      else if c = 0x26 then oneOrTwo .background 0x26 .andIf
      else if c = 0x7c then oneOrTwo .pipe 0x7c .orIf
      else if c = 0x3b then oneOrTwo .semicolon 0x3b .endCase
      else if c = 0x28 then
        let _ ← Read.raw
        return .openParen
      else if c = 0x29 then
        let _ ← Read.raw
        return .closeParen
      else wordToken inner

def rawToken (inner : WordReader.Inner) : Read Token := do
  let s ← get
  match s.back with
  | some t =>
    set { s with back := none }
    return t
  | none => token inner Read.horizon

/-- The text of an alias, if a word is one that is not being read. -/
def aliasText? (s : Source) (name : Bytes) : Option Bytes :=
  let left := s.rest.length
  if s.active.any fun a => a.name = name && left ≥ a.left then none
  else (s.aliases.find? (·.1 = name)).map (·.2)

def openAlias (s : Source) (name text : Bytes) : Source :=
  { s with
    rest := text ++ s.rest
    active := { name, left := s.rest.length, carriesOn := text.getLast?.any Class.isBlank } ::
      s.active.filter (s.rest.length ≥ ·.left) }

/-- A token where words are looked at as `e` says. -/
def next (inner : WordReader.Inner) (e : Expect) : Nat → Read Token
  | 0 => return .eof
  | n + 1 => do
    let before := (← get).rest.length
    let t ← rawToken inner
    match t with
    | .newline =>
      if e.newlines then
        WordReader.hereTexts inner
        next inner e n
      else return t
    | .word w =>
      match w.plain? with
      | none => return t
      | some text =>
        let s ← get
        let carried := !s.active.isEmpty &&
          s.active.any fun a => a.carriesOn && before > a.left && s.rest.length < a.left
        if e.keywords then
          if let some k := Token.keywords.find? (Bytes.ofString · = text) then return .keyword k
        if e.aliases || carried then
          if let some value := aliasText? s text then
            set (openAlias s text value)
            return ← next inner e n
        return t
    | _ => return t

section

variable (inner : WordReader.Inner)

def read (e : Expect := {}) : Read Token := next inner e Read.horizon

def demand (k : String) (e : Expect := {}) : Read Unit := do
  match ← read inner e with
  | .keyword s => unless s = k do expected (.keyword s) (Token.keyword k).shown
  | t => expected t (Token.keyword k).shown

/-! ## Simple commands and redirections -/

def redirect? (t : Token) : Read (Option Redir) := do
  match t with
  | .redirection make =>
    match ← read inner with
    | .word w => return some (make w)
    | t => unexpected t
  | .hereText fd tabs =>
    modify ({ · with literal := true })
    let t ← read inner
    modify ({ · with literal := false })
    match t with
    | .word w =>
      let s ← get
      let h : HereText := { id := s.nextText, mark := w.literal, raw := w.plain?.isNone, tabs }
      set { s with nextText := s.nextText + 1, announced := s.announced ++ [h] }
      return some (.here fd h.id)
    | t => unexpected t
  | _ => return none

def redirections : Nat → List Redir → Read (List Redir)
  | 0, done => return done.reverse
  | n + 1, done => do
    let t ← read inner Expect.command
    match ← redirect? inner t with
    | some r => redirections n (r :: done)
    | none =>
      putBack t
      return done.reverse

/-- Builtins whose names cannot be names of functions. -/
def specialBuiltins : List String :=
  [".", ":", "break", "continue", "eval", "exec", "exit", "export", "local", "readonly", "return", "set",
   "shift", "times", "trap", "unset"]

/-- What has been read of a simple command, backwards. -/
structure Simple where
  assigns : List (Bytes × Word) := []
  words : List Word := []
  redirs : List Redir := []

/-- A simple command, or a function, whose body `command` reads. -/
def simple (command : Read Cmd) (line : Nat) : Nat → Simple → Read Cmd
  | 0, c => return .simple line c.assigns.reverse c.words.reverse c.redirs.reverse
  | n + 1, c => do
    let t ← read inner { aliases := c.words.isEmpty }
    match t with
    | .word w =>
      match c.words.isEmpty, w.assignment? with
      | true, some a => simple command line n { c with assigns := a :: c.assigns }
      | _, _ => simple command line n { c with words := w :: c.words }
    | .openParen =>
      match c with
      | { assigns := [], words := [w], redirs := [] } =>
        match ← read inner with
        | .closeParen =>
          match w.plain? with
          | some name =>
            if Name.isName name && !specialBuiltins.any (Bytes.ofString · = name) then
              let line := (← get).line
              return .define name line (← command)
            else Read.fail "Bad function name"
          | none => Read.fail "Bad function name"
        | t => expected t Token.closeParen.shown
      | _ => finish t c
    | _ =>
      match ← redirect? inner t with
      | some r => simple command line n { c with redirs := r :: c.redirs }
      | none => finish t c
where
  finish (t : Token) (c : Simple) : Read Cmd := do
    putBack t
    return .simple line c.assigns.reverse c.words.reverse c.redirs.reverse

/-! ## Compound commands -/

inductive Extent where
  /-- One line. -/
  | line
  /-- At least one command, through line ends. -/
  | block
  /-- Maybe no command, through line ends. -/
  | optional
  deriving DecidableEq

section

variable (list : Extent → Read Cmd)

/-- The rest of a conditional behind `if` or `elif`. -/
def conditional : Nat → Read Cmd
  | 0 => return .nothing
  | n + 1 => do
    let test ← list .block
    demand inner "then"
    let yes ← list .block
    match ← read inner with
    | .keyword "elif" => return .cond test yes (← conditional n)
    | .keyword "else" => return .cond test yes (← list .block)
    | t =>
      putBack t
      return .cond test yes .nothing

/-- The words behind `in`, backwards, and the token that ends them. -/
def loopWords : Nat → List Word → Read (List Word)
  | 0, done => return done.reverse
  | n + 1, done => do
    match ← read inner with
    | .word w => loopWords n (w :: done)
    | .newline => return done.reverse
    | .semicolon => return done.reverse
    | t => unexpected t

/-- The rest of a loop over words, behind `for`. -/
def forLoop (line : Nat) : Read Cmd := do
  let bad {α : Type} : Read α := Read.fail "Bad for loop variable"
  match ← read inner with
  | .word w =>
    match w.plain? with
    | some name =>
      unless Name.isName name do bad
      let words ← match ← read inner Expect.commandBelow with
        | .keyword "in" => loopWords inner Read.horizon []
        | t =>
          match t with
          | .semicolon => pure ()
          | t => putBack t
          pure [[.param [0x40] .plain [] true]]
      demand inner "do" Expect.commandBelow
      return .each line name words (← list .block)
    | none => bad
  | _ => bad

/-- The patterns of a branch from the first one on, backwards, through the closing parenthesis. -/
def patterns : Nat → Token → List Word → Read (List Word)
  | 0, _, done => return done.reverse
  | n + 1, t, done => do
    let done := t.toWord :: done
    match ← read inner with
    | .pipe => patterns n (← read inner) done
    | .closeParen => return done.reverse
    | t => expected t Token.closeParen.shown

/-- The branches of a choice, through `esac`. -/
def branches : Nat → List (List Word × Cmd) → Read (List (List Word × Cmd))
  | 0, done => return done.reverse
  | n + 1, done => do
    let below : Expect := { newlines := true, keywords := true }
    match ← read inner below with
    | .keyword "esac" => return done.reverse
    | t =>
      let first ← match t with
        | .openParen => read inner
        | t => pure t
      let ps ← patterns inner Read.horizon first []
      let body ← list .optional
      let done := (ps, body) :: done
      match ← read inner below with
      | .keyword "esac" => return done.reverse
      | .endCase => branches n done
      | t => expected t Token.endCase.shown

/-- The rest of a choice, behind `case`. -/
def choice (line : Nat) : Read Cmd := do
  match ← read inner with
  | .word w =>
    demand inner "in" Expect.commandBelow
    return .choice line w (← branches inner list Read.horizon [])
  | t => expected t "word"

def redirected (line : Nat) (c : Cmd) : Read Cmd := do
  match ← redirections inner Read.horizon [] with
  | [] => return c
  | rs =>
    match c with
    | .subshell l body _ => return .subshell l body rs
    | c => return .redirected line c rs

/-- A command that is not a pipeline, at most `n` function heads deep. -/
def command (e : Expect) : Nat → Read Cmd
  | 0 => return .nothing
  | n + 1 => do
    let line := (← get).line
    let t ← read inner e
    match t with
    | .keyword "if" =>
      let c ← conditional inner list Read.horizon
      demand inner "fi"
      redirected inner line c
    | .keyword "while" => loop line false
    | .keyword "until" => loop line true
    | .keyword "for" =>
      let c ← forLoop inner list line
      demand inner "done"
      redirected inner line c
    | .keyword "case" =>
      let c ← choice inner list line
      redirected inner line c
    | .openParen =>
      let c ← list .block
      match ← read inner with
      | .closeParen => redirected inner line (.subshell line c [])
      | t => expected t Token.closeParen.shown
    | .keyword "\x7b" =>
      let c ← list .block
      demand inner "\x7d"
      redirected inner line c
    | .word _ | .redirection _ | .hereText .. =>
      putBack t
      simple inner (command Expect.commandBelow n) (← get).line Read.horizon {}
    | t => unexpected t
where
  loop (line : Nat) (negated : Bool) : Read Cmd := do
    let test ← list .block
    demand inner "do"
    let body ← list .block
    demand inner "done"
    redirected inner line (.loop negated test body)

/-! ## Lists -/

/-- The commands behind a pipe sign, backwards. -/
def stages : Nat → List Cmd → Read (List Cmd)
  | 0, done => return done.reverse
  | n + 1, done => do
    match ← read inner with
    | .pipe => stages n ((← command inner list Expect.commandBelow Read.horizon) :: done)
    | t =>
      putBack t
      return done.reverse

def pipeline (e : Expect) : Read Cmd := do
  let negated ← match ← read inner e with
    | .keyword "!" => pure true
    | t =>
      putBack t
      pure false
  let first ← command inner list (if negated then Expect.command else {}) Read.horizon
  let c ← match ← stages inner list Read.horizon [first] with
    | [c] => pure c
    | cs => pure (.pipeline cs false)
  return if negated then .not c else c

/-- Pipelines behind `&&` and `||`. -/
def chain : Nat → Cmd → Read Cmd
  | 0, c => return c
  | n + 1, c => do
    match ← read inner with
    | .andIf => chain n (.and c (← pipeline inner list Expect.commandBelow))
    | .orIf => chain n (.or c (← pipeline inner list Expect.commandBelow))
    | t =>
      putBack t
      return c

def inBackground (line : Nat) : Cmd → Cmd
  | .pipeline cs _ => .pipeline cs true
  | .redirected l c rs => .background l c rs
  | c => .background line c []

def commands (extent : Extent) : Nat → Option Cmd → Read Cmd
  | 0, done => return done.getD .nothing
  | n + 1, done => do
    let t ← read inner { newlines := extent ≠ .line, keywords := true, aliases := true }
    match t with
    | .newline =>
      WordReader.hereTexts inner
      return done.getD .nothing
    | .eof =>
      WordReader.hereTexts inner
      putBack t
      return done.getD .nothing
    | _ =>
      putBack t
      if t.endsList && (extent = .optional || (extent = .block && done.isSome)) then
        return done.getD .nothing
      let line := (← get).line
      let c ← chain inner list Read.horizon (← pipeline inner list {})
      let t ← read inner
      let c := match t with
        | .background => inBackground line c
        | _ => c
      let done := match done with
        | some d => .seq d c
        | none => c
      match t with
      | .eof =>
        WordReader.hereTexts inner
        putBack t
        return done
      | .newline =>
        putBack t
        commands extent n (some done)
      | .background => commands extent n (some done)
      | .semicolon => commands extent n (some done)
      | t =>
        if extent = .line then unexpected t
        putBack t
        return done

end

end

/-- Reads a list of commands; words and compound commands are at most `n` deep in one another. -/
def list : Nat → Extent → Read Cmd
  | 0, _ => return .nothing
  | n + 1, extent =>
    let within : Extent → Read Cmd := fun e => list n e
    let inner : WordReader.Inner :=
      { enclosed := do
          let s ← get
          set { s with announced := [], back := none, literal := false }
          let c ← list n .optional
          match (← get).back with
          | some .closeParen => modify ({ · with back := none })
          | some t => expected t Token.closeParen.shown
          | none => expected .eof Token.closeParen.shown
          modify ({ · with announced := s.announced, literal := s.literal })
          return c
        whole := list n .optional }
    commands inner within extent Read.horizon none

/-- What the next line, or several lines that belong together, say; `none` at the end. -/
def nextCommand : Read (Option Cmd) := do
  modify ({ · with back := none, announced := [] })
  let c ← list Read.horizon .line
  match c, (← get).back with
  | .nothing, some .eof => return none
  | c, _ => return some c

end Grammar

end JobShell.Scripting
