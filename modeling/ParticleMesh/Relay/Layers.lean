/-
  ParticleMesh — settings in layers, and the loose reading of their values.

  A setting may be given several times: by default, in a file and in the environment.
  A later layer replaces what an earlier one has given, except that tables are merged.
  Keys are the same in either case of their letters.

  * `overlay` puts a layer over the settings so far, `ofVariables` makes one of the
    environment's variables;
  * `text?`, `word?` and `duration?` read a scalar: texts that write numbers count as
    numbers, and numbers count as texts.
-/
import ParticleMesh.Node.Config
import ParticleMesh.Text.Duration
import ParticleMesh.Toml.Value

namespace ParticleMesh.Relay

abbrev Layer := List (String × Toml)

/-- A text in small letters. Only those of ASCII are made small; others are assumed not
    to occur in keys and in the names of variables. -/
def small (s : String) : String := String.ofList (s.toList.map Char.toLower)

/-- Gives a key a value. -/
def put (key : String) (v : Toml) : Layer → Layer
  | [] => [(key, v)]
  | (k, w) :: l => if k = key then (k, v) :: l else (k, w) :: put key v l

/-- The value of a key. -/
def find? (l : Layer) (key : String) : Option Toml := (l.find? (fun e => e.1 = key)).map (·.2)

/-- The entries of a table; none for another value. -/
def entriesOf : Option Toml → Layer
  | some (.table es) => es
  | _ => []

mutual

/-- Sets a key. The entries of a table are set one by one; a table without entries
    replaces nothing. -/
def set (key : String) (l : Layer) : Toml → Layer
  | .table [] => if (find? l (small key)).isSome then l else put (small key) (.table []) l
  | .table es => put (small key) (.table (setAll (entriesOf (find? l (small key))) es)) l
  | v => put (small key) v l

/-- Sets keys one after the other. -/
def setAll (l : Layer) : List (String × Toml) → Layer
  | [] => l
  | (k, v) :: es => setAll (set k l v) es

end

/-- Puts a layer over the settings so far. -/
def overlay (l upper : Layer) : Layer := setAll l upper

/-! ## The environment -/

/-- What the names of the variables of a relay start with. -/
def variableStart : String := "particle_relay_"

/-- The integer of 64 bits that a text writes. -/
def integer? (s : List Char) : Option Int :=
  let (negative, ds) := Floating.sign s
  let n : Int := Floating.natural ds
  let n := if negative then -n else n
  if ds.isEmpty || !ds.all Char.isDigit then none
  else if -0x8000000000000000 ≤ n ∧ n < 0x8000000000000000 then some n
  else none

/-- The value that a variable gives: a truth value, an integer or a float if it is
    written like one. -/
def ofVariable (text : String) : Toml :=
  if small text = "true" then .boolean true
  else if small text = "false" then .boolean false
  else
    match integer? text.toList with
    | some n => .integer n
    | none =>
      match Floating.ofText? text.toList with
      | some x => .float x
      | none => .string text

/-- The key that a variable gives, if it is one of a relay. What is left of its name is
    a plain key: a `.` or a `[` in it is assumed not to occur, which would lead into a
    table or an array. -/
def keyOf? (name : String) : Option String :=
  let name := (small name).toList
  if variableStart.toList.isPrefixOf name then
    some (String.ofList (name.drop variableStart.length))
  else none

/-- The layer of the environment's variables. -/
def ofVariables (env : List (String × String)) : Layer :=
  env.filterMap fun e => (keyOf? e.1).map (·, ofVariable e.2)

/-! ## Scalars -/

/-- The text of a scalar. -/
def text? : Toml → Option String
  | .string s => some s
  | .integer n => some (toString n)
  | .float x => some (String.ofList x.text)
  | .boolean b => some (if b then "true" else "false")
  | .moment s => some s
  | .array _ | .table _ => none

/-- The natural number of 64 bits that a text writes, or says yes or no with. -/
def wordOfText? (s : String) : Option Nat :=
  if small s ∈ ["true", "on", "yes"] then some 1
  else if small s ∈ ["false", "off", "no"] then some 0
  else
    let ds := match s.toList with
      | '+' :: ds => ds
      | ds => ds
    if ds.isEmpty || !ds.all Char.isDigit then none
    else Text.Duration.word? (Floating.natural ds)

/-- The natural number of a scalar. -/
def number? : Toml → Option Nat
  | .integer n => if 0 ≤ n then some n.toNat else none
  | .float x => some x.word
  | .boolean b => some (if b then 1 else 0)
  | .string s | .moment s => wordOfText? s
  | .array _ | .table _ => none

/-- The natural number of a scalar, of a number of bits. -/
def word? (bits : Nat) (v : Toml) : Option Nat :=
  (number? v).filter (fun n => decide (n < 1 <<< bits))

/-- The duration of a scalar. -/
def duration? (v : Toml) : Option Nanos := (text? v).bind Text.Duration.ofText?

end ParticleMesh.Relay
