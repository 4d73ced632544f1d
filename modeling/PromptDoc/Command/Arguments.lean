/-!
# Command line arguments

`Invocation.ofArguments` understands the words of a command line: options of the
program, the name of a command, and the options and targets of the command. A
settings file may be named before or after the command; the one after it counts.
-/

namespace PromptDoc

/-- What the program is asked to do with the files. -/
inductive Action where
  /-- Put front matter into its stable form, or only check whether it is. -/
  | format (check showDiff : Bool)
  /-- Look for defects. -/
  | lint
deriving DecidableEq

/-- A command line that can be run. -/
structure Invocation where
  settingsFile : Option String
  action : Action
  targets : List String
deriving DecidableEq

/-- Why there is nothing to run. -/
inductive Refusal where
  | helpAsked
  | missingCommand
  | unknownCommand (word : String)
  | unknownOption (word : String)
  | missingValue (option : String)
  | emptyValue
  | unexpectedValue (option : String)
  | repeated (option : String)
deriving DecidableEq

namespace Refusal

/-- The exit code: asking for help is no mistake. -/
def code : Refusal → Nat
  | .helpAsked => 0
  | _ => 2

def message : Refusal → String
  | .helpAsked =>
    "Usage: nexus-prompt [--config FILE] fmt [--check] [--diff] [PATHS]\n" ++
      "       nexus-prompt [--config FILE] lint [PATHS]"
  | .missingCommand => "error: a command is required: fmt or lint"
  | .unknownCommand word => "error: unrecognized command " ++ word
  | .unknownOption word => "error: unexpected argument " ++ word
  | .missingValue option => "error: a value is required for " ++ option
  | .emptyValue => "error: a value is empty"
  | .unexpectedValue option => "error: unexpected value for " ++ option
  | .repeated option => "error: " ++ option ++ " cannot be used more than once"

end Refusal

/-- A word of a command line. -/
inductive Word where
  | plain (s : String)
  /-- The word after which all words are plain. -/
  | separator
  | long (name : String) (value : Option String)
  | short (letters : List Char)
deriving DecidableEq

namespace Word

/-- The kind of a word. A single hyphen is plain. -/
def ofString (s : String) : Word :=
  match s.toList with
  | ['-', '-'] => .separator
  | '-' :: '-' :: cs =>
    .long (String.ofList (cs.takeWhile (· ≠ '=')))
      (match cs.dropWhile (· ≠ '=') with
        | [] => none
        | _ :: value => some (String.ofList value))
  | ['-'] => .plain s
  | '-' :: cs => .short cs
  | _ => .plain s

end Word

/-- The part of a command line that options stand in. -/
inductive Scope where
  | program
  | format
  | lint
deriving DecidableEq

/-- The options and targets read so far in one part of a command line. -/
structure Options where
  settingsFile : Option String := none
  check : Bool := false
  showDiff : Bool := false
  targets : List String := []
deriving DecidableEq

namespace Options

def setFile (o : Options) (value : String) : Except Refusal Options :=
  if value.isEmpty then .error .emptyValue
  else if o.settingsFile.isSome then .error (.repeated "--config")
  else .ok { o with settingsFile := some value }

/-- Asks for a check only. -/
def setCheck (o : Options) : Except Refusal Options :=
  if o.check then .error (.repeated "--check") else .ok { o with check := true }

def setDiff (o : Options) : Except Refusal Options :=
  if o.showDiff then .error (.repeated "--diff") else .ok { o with showDiff := true }

/-- Adds targets, none of which may be empty. -/
def addTargets (o : Options) (targets : List String) : Except Refusal Options :=
  if targets.any String.isEmpty then .error .emptyValue
  else .ok { o with targets := o.targets ++ targets }

/-- Reads the letters of a short option. The letter `c` names the settings file,
except in the format command, where it asks for a check. Tells whether the
value has yet to come. -/
def readShort (scope : Scope) : Options → List Char → Except Refusal (Options × Bool)
  | o, [] => .ok (o, false)
  | o, letter :: letters =>
    if letter = 'h' then .error .helpAsked
    else if letter ≠ 'c' then .error (.unknownOption (String.ofList ['-', letter]))
    else if scope = .format then o.setCheck.bind fun o => readShort scope o letters
    else match letters with
      | [] => .ok (o, true)
      | '=' :: value => (o.setFile (String.ofList value)).map (·, false)
      | value => (o.setFile (String.ofList value)).map (·, false)

/-- Reads a long option. Tells whether the value has yet to come. -/
def readLong (scope : Scope) (o : Options) (name : String) (value : Option String) :
    Except Refusal (Options × Bool) :=
  if name = "config" then
    match value with
    | some v => (o.setFile v).map (·, false)
    | none => .ok (o, true)
  else if name ≠ "help" ∧ ¬(scope = .format ∧ (name = "check" ∨ name = "diff")) then
    .error (.unknownOption ("--" ++ name))
  else if value.isSome then .error (.unexpectedValue ("--" ++ name))
  else if name = "help" then .error .helpAsked
  else (if name = "check" then o.setCheck else o.setDiff).map (·, false)

def readOption (scope : Scope) (o : Options) : Word → Except Refusal (Options × Bool)
  | .long name value => readLong scope o name value
  | .short letters => readShort scope o letters
  | _ => .ok (o, false)

/-- Reads the words of one part of a command line. The options of the program
end with the first plain word; the words that are left follow. -/
def read (scope : Scope) : Options → List String → Except Refusal (Options × List String)
  | o, [] => .ok (o, [])
  | o, word :: rest =>
    match Word.ofString word with
    | .separator =>
      if scope = .program then .error .missingCommand
      else (o.addTargets rest).map (·, [])
    | .plain s =>
      if scope = .program then .ok (o, word :: rest)
      else (o.addTargets [s]).bind fun o => read scope o rest
    | option =>
      match readOption scope o option, rest with
      | .error refusal, _ => .error refusal
      | .ok (o, false), rest => read scope o rest
      | .ok (_, true), [] => .error (.missingValue word)
      | .ok (o, true), value :: rest =>
        match Word.ofString value with
        | .plain v => (o.setFile v).bind fun o => read scope o rest
        | _ => .error (.missingValue word)
termination_by _ words => words.length

end Options

namespace Invocation

/-- The invocation with the options of the program and those of a command. -/
def ofOptions (outer inner : Options) (action : Action) : Invocation :=
  ⟨inner.settingsFile.or outer.settingsFile, action, inner.targets⟩

def ofArguments (words : List String) : Except Refusal Invocation := do
  let (outer, words) ← Options.read .program { } words
  match words with
  | [] => .error .missingCommand
  | "fmt" :: words =>
    let (inner, _) ← Options.read .format { } words
    .ok (ofOptions outer inner (.format inner.check inner.showDiff))
  | "lint" :: words =>
    let (inner, _) ← Options.read .lint { } words
    .ok (ofOptions outer inner .lint)
  | "help" :: _ => .error .helpAsked
  | word :: _ => .error (.unknownCommand word)

end Invocation

end PromptDoc
