/-
  ParticleMesh — the settings of a relay.

  * `Settings.load?` reads them: the defaults, over them a file in TOML, and over both
    the environment;
  * `Settings.nodeConfig` are the settings of the relay's node;
  * `Settings.secret?` and `Settings.contacts?` are what the node is started with.
-/
import ParticleMesh.Relay.Layers
import ParticleMesh.Toml.Reader

namespace ParticleMesh.Relay

/-- A script that a relay stores when it starts. -/
structure ScriptEntry where
  source : String
  /-- The time between two runs; none for a single run. -/
  interval : Option Nanos
deriving DecidableEq

/-- The settings of a relay. -/
structure Settings where
  log : String
  /-- The secret of the node as text. -/
  nodeKey : Option String
  poolSize : Nat
  backend : Backend
  /-- The time that particles of the node live. -/
  particleTtl : Nanos
  /-- The attempts to deliver a send. -/
  maxRouteAttempts : Nat
  routeRetryBackoff : Nanos
  /-- The time between two looks for particles that have ended. -/
  expirySweepInterval : Nanos
  recordCapacity : Nat
  /-- The number of shards of the waiting queues. -/
  queueShards : Nat
  /-- The time between two looks for scripts that are due. -/
  scriptResolution : Nanos
  /-- The number of failures after which a script is dropped. -/
  scriptMaxFailures : Nat
  /-- The time between two reports of the counts. -/
  statsInterval : Nanos
  contacts : List String
  scripts : List ScriptEntry
deriving DecidableEq

namespace Settings

def defaults : Layer :=
  [("log", .string "info"), ("pool_size", .integer 4), ("vm_backend", .string "line"),
    ("particle_ttl", .string "20s"), ("max_route_attempts", .integer 3),
    ("route_retry_backoff", .string "200ms"), ("expiry_sweep_interval", .string "1s"),
    ("terminal_record_capacity", .integer 16384), ("queue_shards", .integer 16),
    ("script_timer_resolution", .string "3s"), ("script_max_failures", .integer 3),
    ("stats_interval", .string "30s"), ("contacts", .array [])]

/-! ## Values -/

/-- The interpreter that a value names: its name in either case, or a table with the
    name as its only key. -/
def backend? : Toml → Option Backend
  | .string s => Backend.ofName? (small s)
  | .table [(k, _)] => Backend.ofName? (small k)
  | _ => none

/-- The contacts that a text lists between commas and semicolons. -/
def listed (s : String) : List String :=
  ((Text.pieces (fun c => c == ',' || c == ';') s.toList).map Text.trim).filterMap fun e =>
    if e.isEmpty then none else some (String.ofList e)

/-- The contacts of a value: a text that lists them, or an array of texts. -/
def contactTexts? : Toml → Option (List String)
  | .string s | .moment s => some (listed s)
  | .array vs => vs.mapM text?
  | _ => none

/-- The script of a source and an interval. -/
def script? (source : Toml) (interval : Option Toml) : Option ScriptEntry := do
  let source ← text? source
  match interval with
  | none => return ⟨source, none⟩
  | some v => return ⟨source, some (← duration? v)⟩

/-- The script that a value describes: a table, or an array of source and interval. -/
def scriptEntry? : Toml → Option ScriptEntry
  | .table es => do script? (← find? es "src") (find? es "interval")
  | .array (source :: rest) => script? source rest.head?
  | _ => none

/-- The scripts of an array. -/
def scripts? : Toml → Option (List ScriptEntry)
  | .array vs => vs.mapM scriptEntry?
  | _ => none

/-! ## Loading -/

/-- The settings of a layer. Only the secret and the scripts may be missing. -/
def ofLayer? (l : Layer) : Option Settings := do
  let get {α : Type} (key : String) (read : Toml → Option α) : Option α :=
    (find? l key).bind read
  let getOr {α : Type} (key : String) (default : α) (read : Toml → Option α) : Option α :=
    match find? l key with
    | none => some default
    | some v => read v
  return {
    log := ← get "log" text?
    nodeKey := ← getOr "node_key" none (fun v => (text? v).map some)
    poolSize := ← get "pool_size" (word? 64)
    backend := ← get "vm_backend" backend?
    particleTtl := ← get "particle_ttl" duration?
    maxRouteAttempts := ← get "max_route_attempts" (word? 32)
    routeRetryBackoff := ← get "route_retry_backoff" duration?
    expirySweepInterval := ← get "expiry_sweep_interval" duration?
    recordCapacity := ← get "terminal_record_capacity" (word? 64)
    queueShards := ← get "queue_shards" (word? 64)
    scriptResolution := ← get "script_timer_resolution" duration?
    scriptMaxFailures := ← get "script_max_failures" (word? 8)
    statsInterval := ← get "stats_interval" duration?
    contacts := ← get "contacts" contactTexts?
    scripts := ← getOr "scripts" [] scripts? }

/-- The settings of a file, if there is one, and of the environment's variables. -/
def load? (file : Option String) (env : List (String × String)) : Option Settings := do
  let inFile ← match file with
    | none => some []
    | some s => Toml.parse? s
  ofLayer? (overlay (overlay defaults inFile) (ofVariables env))

/-! ## The node -/

/-- The settings of the relay's node. -/
def nodeConfig (s : Settings) : NodeConfig :=
  { NodeConfig.default with
    poolSize := s.poolSize
    backend := s.backend
    particleTtl := s.particleTtl
    maxRouteAttempts := s.maxRouteAttempts
    routeRetryBackoff := s.routeRetryBackoff
    expirySweepInterval := s.expirySweepInterval
    recordCapacity := s.recordCapacity
    queueShards := s.queueShards
    storage := ⟨s.scriptResolution, s.scriptMaxFailures⟩ }

/-- The secret of the node; without a text for it, the one made up for this run. -/
def secret? (s : Settings) (madeUp : Secret) : Except KeyTextError Secret :=
  match s.nodeKey with
  | none => .ok madeUp
  | some text => Secret.ofText? text

/-- The contacts, or why one is none. -/
def contacts? (s : Settings) : Except String (List Contact) :=
  s.contacts.mapM fun text =>
    match Contact.ofText? text with
    | .ok c => .ok c
    | .error e => .error (Contact.textError text e)

end Settings

end ParticleMesh.Relay
