/-
  ParticleMesh — how a relay starts.

  The arguments come first, then the settings, then the secret of the node. A relay
  that is only to tell its peer ends there; else its contacts are read, and it may run,
  if there is to be time between two reports of its counts. The first of these that is
  not right ends the program.
-/
import ParticleMesh.Particle.Signed
import ParticleMesh.Relay.CommandLine
import ParticleMesh.Relay.Settings

namespace ParticleMesh.Relay

/-- How a program ends. -/
structure Exit where
  code : Nat
  output : String
  errors : String
deriving DecidableEq

def Exit.failure (text : String) : Exit := ⟨1, "", "Error: " ++ text ++ "\n"⟩

/-- There is to be no time between two reports. -/
def Exit.noInterval : Exit := ⟨101, "", "Error: stats_interval must be non-zero\n"⟩

/-- What a relay runs with. -/
structure Plan where
  settings : Settings
  secret : Secret
  contacts : List Contact

/-- Whether the name of a file is that of a file of settings. -/
def isSettingsFile (name : String) : Bool := ".toml".toList.reverse.isPrefixOf name.toList.reverse

/-- The settings for the named file and the environment's variables. The file must be
    one of settings, and there. -/
def settingsFor? (file? : String → Option String) (name : Option String)
    (env : List (String × String)) : Option Settings :=
  match name with
  | none => Settings.load? none env
  | some name =>
    if isSettingsFile name then
      (file? name).bind fun text => Settings.load? (some text) env
    else none

/-- What a relay comes to with the given arguments, files and variables, and a secret
    that was made up for this run: it ends, or it runs. -/
def start (args : List String) (file? : String → Option String)
    (env : List (String × String)) (madeUp : Secret) : Except Exit Plan := do
  match CommandLine.parse args with
  | .error s => throw (if s.code = 0 then ⟨0, s.text, ""⟩ else ⟨s.code, "", s.text⟩)
  | .ok line =>
    match settingsFor? file? line.file env with
    | none => throw (.failure "failed to load config")
    | some settings =>
      match settings.secret? madeUp with
      | .error e => throw (.failure ("invalid node_key: " ++ Secret.textError e))
      | .ok secret =>
        if line.command = .identity then
          throw ⟨0, (Signer.ofSecret secret).peer.text ++ "\n", ""⟩
        match settings.contacts? with
        | .error text => throw (.failure ("invalid contact: " ++ text))
        | .ok contacts =>
          if settings.statsInterval = 0 then throw .noInterval
          return ⟨settings, secret, contacts⟩

end ParticleMesh.Relay
