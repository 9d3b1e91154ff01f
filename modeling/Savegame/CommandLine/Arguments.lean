import Savegame.Record.Basic
import Savegame.Text.Numeral

/-!
# Command-line arguments

Options may stand anywhere, also before the command where they are common to all commands; short
ones may be run together, and a value may follow after a sign of equality. What starts with a dash
is an option, except after two dashes and where a negative number is expected.
-/

namespace Savegame.CommandLine

inductive Command where
  | inspect (save : String)
  | convert (save output : String) (version : UInt32)
  | list (root : String)
  | eval (save : String) (condition : Int16)
  deriving DecidableEq, Repr

structure Invocation where
  verbosity : Nat
  config? : Option String
  command : Command
  deriving DecidableEq, Repr

inductive Refusal where
  | usage
  /-- Only an explanation was asked for. -/
  | help
  deriving DecidableEq, Repr

namespace Arguments

/-- What has been read of the arguments at one level. -/
structure Found where
  verbosity : Nat := 0
  config? : Option String := none
  output? : Option String := none
  version? : Option UInt32 := none
  /-- The first operand, a path for every command. -/
  path? : Option String := none
  condition? : Option Int16 := none

/-- Arguments before the command, or after its name. -/
inductive Level where
  | outer
  | inspect
  | convert
  | list
  | eval
  deriving DecidableEq, Repr

def Level.ofName? (name : String) : Option Level :=
  if name = "inspect" then some .inspect
  else if name = "convert" then some .convert
  else if name = "list" then some .list
  else if name = "eval" then some .eval
  else none

def isNumberTail : (seenDot seenPower : Bool) → (first : Bool) → List Char → Bool
  | _, _, _, [] => true
  | seenDot, seenPower, first, c :: rest =>
    if c.isDigit then isNumberTail seenDot seenPower false rest
    else if c = '.' ∧ ¬seenDot ∧ ¬seenPower ∧ ¬first then isNumberTail true seenPower false rest
    else if (c = 'e' ∨ c = 'E') ∧ ¬seenPower ∧ ¬first ∧ rest ≠ [] then
      isNumberTail seenDot true false rest
    else false

def isNegativeNumber (argument : String) : Bool :=
  match argument.toList with
  | '-' :: rest => isNumberTail false false true rest
  | _ => false

/-- Whether the next operand of a level is a condition. -/
def takesCondition (level : Level) (found : Found) : Bool :=
  level = .eval && found.path?.isSome && found.condition?.isNone

def isOption (level : Level) (found : Found) (argument : String) : Bool :=
  argument.startsWith "-" && argument ≠ "-" &&
    !(takesCondition level found && isNegativeNumber argument)

def value (level : Level) (found : Found) : List String → Except Refusal (String × List String)
  | [] => .error .usage
  | argument :: rest =>
    if isOption level found argument then .error .usage else .ok (argument, rest)

def path (text : String) : Except Refusal String :=
  if text = "" then .error .usage else .ok text

def number (least greatest : Int) (text : String) : Except Refusal Int :=
  match Numeral.integer? text.toList with
  | some n => if least ≤ n ∧ n ≤ greatest then .ok n else .error .usage
  | none => .error .usage

def version (text : String) : Except Refusal UInt32 :=
  return UInt32.ofNat (← number 0 ((UInt32.size : Int) - 1) text).toNat

def condition (text : String) : Except Refusal Int16 :=
  return Int16.ofInt (← number Int16.minValue.toInt Int16.maxValue.toInt text)

/-- Notes the value of an option, which may be given once. -/
def note (level : Level) (found : Found) (name text : String) : Except Refusal Found := do
  if name = "config" ∧ found.config?.isNone then
    return { found with config? := some (← path text) }
  else if name = "output" ∧ level = .convert ∧ found.output?.isNone then
    return { found with output? := some (← path text) }
  else if name = "version" ∧ level = .convert ∧ found.version?.isNone then
    return { found with version? := some (← version text) }
  else throw .usage

def operand (level : Level) (found : Found) (text : String) : Except Refusal Found := do
  if takesCondition level found then return { found with condition? := some (← condition text) }
  else if found.path?.isNone then return { found with path? := some (← path text) }
  else throw .usage

/-- The name of a long option and the value given with it. -/
def splitLong (argument : String) : String × Option String :=
  let cs := argument.toList.drop 2
  let name := cs.takeWhile (· ≠ '=')
  match cs.drop name.length with
  | _ :: text => (String.ofList name, some (String.ofList text))
  | [] => (String.ofList name, none)

def long (level : Level) (found : Found) (argument : String) (rest : List String) :
    Except Refusal (Found × List String) := do
  match splitLong argument with
  | (name, some text) => return (← note level found name text, rest)
  | (name, none) =>
    if name = "verbose" then return ({ found with verbosity := found.verbosity + 1 }, rest)
    else if name = "help" ∨ (name = "version" ∧ level = .outer) then throw .help
    else if name = "config" ∨ (level = .convert ∧ (name = "output" ∨ name = "version")) then
      let (text, rest) ← value level found rest
      return (← note level found name text, rest)
    else throw .usage

/-- Reads the letters of short options run together. -/
def short (level : Level) (found : Found) (rest : List String) :
    List Char → Except Refusal (Found × List String)
  | [] => .ok (found, rest)
  | c :: letters =>
    if c = 'v' then short level { found with verbosity := found.verbosity + 1 } rest letters
    else if c = 'h' ∨ (c = 'V' ∧ level = .outer) then .error .help
    else if c = 'o' ∧ level = .convert then
      match letters with
      | [] => do
        let (text, rest) ← value level found rest
        return (← note level found "output" text, rest)
      | '=' :: text => do return (← note level found "output" (String.ofList text), rest)
      | text => do return (← note level found "output" (String.ofList text), rest)
    else .error .usage

/-- Reads arguments up to their end, or at the outer level up to the first operand; `fuel` bounds
their number. -/
def scan (level : Level) : (fuel : Nat) → Found → List String →
    Except Refusal (Found × List String)
  | _, found, [] => .ok (found, [])
  | 0, _, _ => .error .usage
  | fuel + 1, found, argument :: rest =>
    if argument = "--" then do
      if level = .outer then throw .usage
      else return (← rest.foldlM (operand level) found, [])
    else if isOption level found argument then do
      let (found, rest) ←
        if argument.startsWith "--" then long level found argument rest
        else short level found rest (argument.toList.drop 1)
      scan level fuel found rest
    else if level = .outer then .ok (found, argument :: rest)
    else do scan level fuel (← operand level found argument) rest

/-- The command of a level, from what was found there. -/
def commandOf (level : Level) (found : Found) : Except Refusal Command :=
  match level, found.path?, found.output?, found.condition? with
  | .inspect, some save, _, _ => .ok (.inspect save)
  | .list, some root, _, _ => .ok (.list root)
  | .convert, some save, some output, _ =>
    .ok (.convert save output (found.version?.getD Record.newest))
  | .eval, some save, _, some condition => .ok (.eval save condition)
  | _, _, _, _ => .error .usage

/-- What asking for help with a command comes to. -/
def helpOn : List String → Refusal
  | [] => .help
  | [name] => if name = "help" ∨ (Level.ofName? name).isSome then .help else .usage
  | _ => .usage

end Arguments

open Arguments in
/-- What the arguments ask for. An option given at both levels counts as given with the command. -/
def Invocation.ofArguments (arguments : List String) : Except Refusal Invocation := do
  let (outer, rest) ← scan .outer (arguments.length + 1) {} arguments
  match rest with
  | [] => throw .usage
  | "help" :: names => throw (helpOn names)
  | name :: rest =>
    match Level.ofName? name with
    | none => throw .usage
    | some level =>
      let (inner, _) ← scan level (rest.length + 1) {} rest
      return ⟨outer.verbosity + inner.verbosity, inner.config? <|> outer.config?,
        ← commandOf level inner⟩

end Savegame.CommandLine
