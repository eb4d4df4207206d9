/-
  ParticleMesh — the command line of a relay.

  Before the command the file of the settings may be named; the command itself, which
  runs the relay if it is missing, takes no options but that for its help.

  * `CommandLine.parse` reads the arguments, and stops at the first that asks for help
    or the version or that has no place;
  * `Stop.text` is what is printed then, and `Stop.code` how the program ends.
-/
import ParticleMesh.Text.Blank

namespace ParticleMesh.Relay

/-- What a relay may be told to do. -/
inductive Command where
  | run
  /-- Print the peer of the relay. -/
  | identity
deriving DecidableEq

namespace Command

/-- The command of a name. -/
def ofName? : String → Option Command
  | "run" => some run
  | "identity" => some identity
  | _ => none

/-- The name of a command. -/
def name : Command → String
  | run => "run"
  | identity => "identity"

def about : Command → String
  | run => "Run the relay (default)"
  | identity => "Print the peer id derived from the configured node key"

end Command

/-- What the arguments ask for. -/
structure CommandLine where
  file : Option String
  command : Command
deriving DecidableEq

/-- What help is asked about. -/
inductive Topic where
  | program
  | command (c : Command)
  | help
deriving DecidableEq

/-- Why the arguments are read no further. -/
inductive Stop where
  | help (t : Topic)
  | version
  | unexpected (argument : String)
  | unknownCommand (name : String)
  /-- The option for the file has no value. -/
  | missingFile
  /-- The option for the file comes twice. -/
  | repeatedFile
deriving DecidableEq

namespace CommandLine

/-- The name of the program. -/
def program : String := "particle-relay"

/-- The version of the program. -/
def version : String := "0.1.0"

/-- What the command for help does. -/
def helpAbout : String := "Print this message or the help of the given subcommand(s)"

def textOf (ls : List String) : String := String.join (ls.map (· ++ "\n"))

/-- The help on a topic. -/
def helpText : Topic → String
  | .program =>
    textOf [
      "Usage: " ++ program ++ " [OPTIONS] [COMMAND]",
      "",
      "Commands:",
      "  run       " ++ Command.run.about,
      "  identity  " ++ Command.identity.about,
      "  help      " ++ helpAbout,
      "",
      "Options:",
      "  -c, --config <CONFIG>  Path to configuration file",
      "  -h, --help             Print help",
      "  -V, --version          Print version"]
  | .command c =>
    textOf [
      c.about,
      "",
      "Usage: " ++ program ++ " " ++ c.name,
      "",
      "Options:",
      "  -h, --help  Print help"]
  | .help =>
    textOf [
      helpAbout,
      "",
      "Usage: " ++ program ++ " help [COMMAND]...",
      "",
      "Arguments:",
      "  [COMMAND]...  Print help for the subcommand(s)"]

/-- Whether an argument is an option, and not a value. -/
def isOption (a : String) : Bool :=
  match a.toList with
  | '-' :: _ :: _ => true
  | _ => false

/-- What an option or a name of a command asks for. -/
inductive Asked where
  /-- The file of the settings, with a value that is part of the argument. -/
  | file (value : Option (List Char))
  | help
  | version
  | noMore
  | unknown
deriving DecidableEq

/-- What a long option asks for, which follows the two dashes. -/
def longOption (s : List Char) : Asked :=
  let name := String.ofList (s.takeWhile (· != '='))
  let value := match s.dropWhile (· != '=') with
    | _ :: v => some v
    | [] => none
  match name, value with
  | "config", v => .file v
  | "help", none => .help
  | "version", none => .version
  | _, _ => .unknown

/-- What a row of short options asks for, which follows the dash: the first of them
    decides. -/
def shortOptions : List Char → Asked
  | ['c'] => .file none
  | 'c' :: '=' :: v => .file (some v)
  | 'c' :: v => .file (some v)
  | 'h' :: _ => .help
  | 'V' :: _ => .version
  | _ => .unknown

/-- What an option asks for. -/
def option (a : String) : Asked :=
  match a.toList with
  | ['-', '-'] => .noMore
  | '-' :: '-' :: s => longOption s
  | '-' :: s => shortOptions s
  | _ => .unknown

def nothingMore (result : CommandLine) : List String → Except Stop CommandLine
  | [] => .ok result
  | a :: _ => .error (.unexpected a)

/-- Reads what follows a command. -/
def afterCommand (result : CommandLine) : List String → Except Stop CommandLine
  | [] => .ok result
  | a :: rest =>
    match isOption a, option a with
    | true, .help => .error (.help (.command result.command))
    | true, .noMore => nothingMore result rest
    | _, _ => .error (.unexpected a)

/-- Reads what follows the command for help. -/
def afterHelp : List String → Stop
  | [] => .help .program
  | [a] =>
    if a = "help" then .help .help
    else
      match Command.ofName? a with
      | some c => .help (.command c)
      | none => .unknownCommand a
  | a :: b :: _ => if (Command.ofName? a).isSome ∨ a = "help" then .unknownCommand b
    else .unknownCommand a

/-- Reads arguments, the file being named already or not. -/
def parseFrom (file : Option String) : List String → Except Stop CommandLine
  | [] => .ok ⟨file, .run⟩
  | a :: rest =>
    if isOption a then
      match option a with
      | .help => .error (.help .program)
      | .version => .error .version
      | .noMore => nothingMore ⟨file, .run⟩ rest
      | .unknown => .error (.unexpected a)
      | .file (some v) =>
        if v.isEmpty then .error .missingFile
        else if file.isSome then .error .repeatedFile
        else parseFrom (some (String.ofList v)) rest
      | .file none =>
        match rest with
        | [] => .error .missingFile
        | v :: rest =>
          if v.isEmpty || isOption v then .error .missingFile
          else if file.isSome then .error .repeatedFile
          else parseFrom (some v) rest
    else if a = "help" then .error (afterHelp rest)
    else
      match Command.ofName? a with
      | some c => afterCommand ⟨file, c⟩ rest
      | none => .error (.unknownCommand a)

def parse (args : List String) : Except Stop CommandLine := parseFrom none args

end CommandLine

namespace Stop

/-- What the arguments were wrong with, if they were. -/
def mistake? : Stop → Option String
  | help _ | version => none
  | unexpected a => some ("unexpected argument '" ++ a ++ "' found")
  | unknownCommand a => some ("unrecognized subcommand '" ++ a ++ "'")
  | missingFile => some "a value is required for '--config <CONFIG>' but none was supplied"
  | repeatedFile => some "the argument '--config <CONFIG>' cannot be used multiple times"

def text : Stop → String
  | help t => CommandLine.helpText t
  | version => CommandLine.program ++ " " ++ CommandLine.version ++ "\n"
  | s =>
    CommandLine.textOf [
      "error: " ++ s.mistake?.getD "",
      "",
      "Usage: " ++ CommandLine.program ++ " [OPTIONS] [COMMAND]",
      "",
      "For more information, try '--help'."]

/-- How the program ends: well unless there was a mistake. -/
def code (s : Stop) : Nat := if s.mistake?.isSome then 2 else 0

end Stop

end ParticleMesh.Relay
