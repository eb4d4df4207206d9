/-
  ParticleMesh — instructions of a script, and reading a script.

  A script has one instruction per line; a `#` starts a comment, and empty lines
  count only for the numbering. An instruction is one of

      call <service> <function> [argument ...]
      next <peer>

  An argument is `$` and a number, the result of an earlier call, or a word that is
  a JSON value or else stands for itself as a string.

  * `parse?` reads a script, or names the first line that is no instruction and
    what is wrong with it.
-/
import ParticleMesh.Json.Reader
import ParticleMesh.Peer

namespace ParticleMesh.Script

/-- An argument of a call. -/
inductive Argument where
  | literal (v : Json)
  /-- The result of the call with the given place among the calls so far. -/
  | result (n : Nat)
deriving Inhabited

/-- An instruction. -/
inductive Instruction where
  /-- Call a service of the peer the particle is on. -/
  | call (service function : String) (args : List Argument)
  | next (peer : PeerId)
deriving Inhabited

/-- What is wrong with a line. -/
inductive LineError where
  | missingService
  | missingFunction
  | badReference
  | missingPeer
  | invalidPeer
  | extraPeer
  | unknown (word : String)
deriving DecidableEq

/-- What is wrong with a line, in words. -/
def LineError.message : LineError → String
  | missingService => "missing service id"
  | missingFunction => "missing function name"
  | badReference => "result reference must be `$<index>`"
  | missingPeer => "missing peer id"
  | invalidPeer => "invalid peer id"
  | extraPeer => "next takes exactly one peer"
  | unknown w => "unknown instruction `" ++ w ++ "`"

/-- A decimal number that fits 64 bits; a plus sign may precede it. -/
def index? (s : List Char) : Option Nat :=
  let ds := match s with
    | '+' :: ds => ds
    | ds => ds
  if ds.isEmpty || !ds.all Char.isDigit then none
  else
    let n := ds.foldl (fun n c => n * 10 + (c.toNat - '0'.toNat)) 0
    if n < 0x10000000000000000 then some n else none

/-- The argument that a word writes. -/
def argument? : List Char → Except LineError Argument
  | '$' :: s =>
    match index? s with
    | some n => .ok (.result n)
    | none => .error .badReference
  | w =>
    match Json.parse? (Text.Utf8.encode w) with
    | some v => .ok (.literal v)
    | none => .ok (.literal (.str (String.ofList w)))

/-- The arguments that words write. -/
def arguments? : List (List Char) → Except LineError (List Argument)
  | [] => .ok []
  | w :: ws => do
    let a ← argument? w
    let as ← arguments? ws
    return a :: as

/-- The instruction that the words of a line write; none for no words. -/
def instruction? (words : List (List Char)) : Except LineError (Option Instruction) :=
  match words with
  | [] => .ok none
  | w :: ws =>
    if w = "call".toList then
      match ws with
      | [] => .error .missingService
      | [_] => .error .missingFunction
      | s :: f :: ws =>
        (arguments? ws).map (fun as => some (.call (String.ofList s) (String.ofList f) as))
    else if w = "next".toList then
      match ws with
      | [] => .error .missingPeer
      | p :: ws =>
        match PeerId.ofText? (String.ofList p) with
        | .error _ => .error .invalidPeer
        | .ok peer => if ws.isEmpty then .ok (some (.next peer)) else .error .extraPeer
    else .error (.unknown (String.ofList w))

/-- The instruction on a line, its comment aside. -/
def line? (l : List Char) : Except LineError (Option Instruction) :=
  instruction? (Text.words (l.takeWhile (· ≠ '#')))

/-- The instructions on lines, of which the first has the number `n`. The error
    comes with the number of its line. -/
def linesFrom? (n : Nat) : List (List Char) → Except (Nat × LineError) (List Instruction)
  | [] => .ok []
  | l :: ls =>
    match line? l with
    | .error e => .error (n, e)
    | .ok i => (linesFrom? (n + 1) ls).map (fun is => i.toList ++ is)

/-- The instructions of a script. -/
def parse? (script : String) : Except (Nat × LineError) (List Instruction) :=
  linesFrom? 1 (Text.lines script.toList)

end ParticleMesh.Script
