import RouteScribe.CommandLine.Refusal

/-!
# RouteScribe.CommandLine.Arguments

How a command line is read. Words and switches of a command may be mixed; a value of a switch
follows it, or is attached to it. Behind two dashes there are only words. Each command reads its
own part, and the part of an inner command is checked first.
-/

namespace RouteScribe
namespace CommandLine

/-- What a command has read so far. -/
structure Given where
  /-- Switches with their values, in order; the value of one that takes none is empty. -/
  switches : List (Switch × String)
  /-- The switch that was read last, if it is not checked yet, and its value if it has one. -/
  pending : Option (Switch × Option String)
  words : List String
  /-- Only words follow. -/
  wordsOnly : Bool
  deriving Inhabited

namespace Given

def empty : Given := ⟨[], none, [], false⟩

def value? (g : Given) (s : Switch) : Option String :=
  (g.switches.find? (·.1 = s)).map (·.2)

def has (g : Given) (s : Switch) : Bool := (g.value? s).isSome

/-- Takes a switch with its value, if it may stand there. -/
def take (g : Given) (s : Switch) (value : String) : Except Refusal Given :=
  if g.has s then .error (.repeated s)
  else if s = .root && value = "" then .error (.noValue s)
  else if s = .format && (Document.Format.ofString? value).isNone then .error (.badFormat value)
  else .ok { g with switches := g.switches ++ [(s, value)] }

/-- Takes the switch that was read last. -/
def settle (g : Given) : Except Refusal Given :=
  match g.pending with
  | none => .ok g
  | some (s, none) => .error (.noValue s)
  | some (s, some v) => { g with pending := none }.take s v

/-- Takes a switch that takes no value. -/
def flag (g : Given) (c : Command) (s : Switch) : Except Refusal Given :=
  match g.settle with
  | .error r => .error r
  | .ok g =>
    match s with
    | .help => .error (.help c)
    | .version => .error .version
    | s => g.take s ""

/-- Takes a switch with a value attached to it. -/
def attached (g : Given) (s : Switch) (value : String) : Except Refusal Given :=
  match g.settle with
  | .ok g => g.take s value
  | .error r => .error r

def await (g : Given) (s : Switch) : Except Refusal Given :=
  match g.settle with
  | .ok g => .ok { g with pending := some (s, none) }
  | .error r => .error r

def awaits (g : Given) : Option Switch :=
  match g.pending with
  | some (s, none) => some s
  | _ => none

end Given

/-- Reads what follows two dashes. -/
def readLong (c : Command) (g : Given) (cs : List Char) : Except Refusal Given :=
  let name := String.ofList (cs.takeWhile (· ≠ '='))
  match c.switches.find? (·.long = name), cs.dropWhile (· ≠ '=') with
  | none, _ => .error (.unknownArgument ("--" ++ name))
  | some s, [] => if s.value?.isSome then g.await s else g.flag c s
  | some s, _ :: v =>
    if s.value?.isSome then g.attached s (String.ofList v)
    else .error (.needlessValue s (String.ofList v))

/-- Reads letters that follow one dash. -/
def readShort (c : Command) (g : Given) : List Char → Except Refusal Given
  | [] => .ok g
  | ch :: cs =>
    match c.switches.find? (·.short? = some ch) with
    | none => .error (.unknownArgument (String.ofList ['-', ch]))
    | some s =>
      if s.value?.isSome then
        match cs with
        | [] => g.await s
        | '=' :: v => g.attached s (String.ofList v)
        | v => g.attached s (String.ofList v)
      else
        match g.flag c s with
        | .ok g => readShort c g cs
        | .error r => .error r

/-- The command that words after a command for help name. -/
def helpOn (c : Command) : List String → Refusal
  | [] => .help c
  | w :: ws =>
    match c.child? w with
    | some d => helpOn d ws
    | none => .unknownCommand w

/-- A word that has no place. -/
def strayWord (c : Command) (g : Given) (w : String) : Refusal :=
  if g.wordsOnly && (c.child? w).isSome then .unknownArgument w
  else if c.children.isEmpty then .unknownArgument w
  else .unknownCommand w

def readWord (c : Command) (g : Given) (w : String) : Except Refusal Given :=
  if c.arguments.isEmpty then .error (strayWord c g w)
  else
    match g.settle with
    | .ok g => .ok { g with words := g.words ++ [w] }
    | .error r => .error r

/-- Checks that a command without an inner command has what it needs. -/
def complete (c : Command) (g : Given) : Except Refusal Given :=
  match g.settle with
  | .error r => .error r
  | .ok g =>
    if !c.children.isEmpty then
      .error (if g.switches.isEmpty then .bare c else .noCommand c)
    else if c.arguments.any (·.required) && g.words.isEmpty then .error .noArguments
    else .ok g

/-- The innermost command and what it has read, with the switches of the commands around it, the
innermost first. -/
structure Parsed where
  command : Command
  given : Given
  outer : List Given

def parse (c : Command) (g : Given) : List String → Except Refusal Parsed
  | [] =>
    match complete c g with
    | .ok g => .ok ⟨c, g, []⟩
    | .error r => .error r
  | a :: as =>
    let step (r : Except Refusal Given) : Except Refusal Parsed :=
      match r with
      | .ok g => parse c g as
      | .error r => .error r
    if g.wordsOnly then step (readWord c g a)
    else
      match if g.awaits.isNone then c.child? a else none with
      | some d =>
        if d = .mainHelp || d = .generateHelp then .error (helpOn c as)
        else
          match parse d .empty as with
          | .error r => .error r
          | .ok p =>
            match g.settle with
            | .ok g => .ok { p with outer := p.outer ++ [g] }
            | .error r => .error r
      | none =>
        match a.toList with
        | ['-', '-'] => step (.ok { g with wordsOnly := true })
        | '-' :: '-' :: cs => step (readLong c g cs)
        | '-' :: ch :: cs => step (readShort c g (ch :: cs))
        | _ =>
          match g.awaits with
          | some s => step (.ok { g with pending := some (s, some a) })
          | none => step (readWord c g a)

inductive Job where
  /-- The router of a command is generated, or printed in a format if it is a dry run. -/
  | router (command : Option String) (marked dryRun : Bool) (format : Document.Format)
  | controller (command route : Option String) (actions : List String)
  | actions (command route : Option String) (actions : List String)
  | middlewares (names : List String)
  deriving Repr

/-- A command line that can be carried out. -/
structure Request where
  /-- Where the search for the project begins, if not in the current directory. -/
  start : Option String
  verbose : Bool
  job : Job
  deriving Repr

namespace Parsed

def job (p : Parsed) : Job :=
  let g := p.given
  match p.command with
  | .controller => .controller (g.value? .command) g.words.head? g.words.tail
  | .actions => .actions (g.value? .command) (g.value? .controller) g.words
  | .middlewares => .middlewares g.words
  | _ =>
    .router (g.value? .command) (g.has .marker) (g.has .dryRun)
      (((g.value? .format).bind Document.Format.ofString?).getD .yaml)

/-- The whole request. Of the directories that commands give, that of the innermost counts. -/
def request (p : Parsed) : Request :=
  let all := p.given :: p.outer
  ⟨all.findSome? (·.value? .root), all.any (·.has .verbose), p.job⟩

end Parsed

def Request.read (args : List String) : Except Refusal Request :=
  match parse .main .empty args with
  | .ok p => .ok p.request
  | .error r => .error r

end CommandLine
end RouteScribe
