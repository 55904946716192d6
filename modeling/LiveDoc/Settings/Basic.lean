import LiveDoc.Settings.Source

/-!
# LiveDoc — settings of the server, the supervisor and the client

Durations are in milliseconds, those of the backoff policy in nanoseconds.
-/

namespace LiveDoc.Settings

structure Server where
  bindAddress : String := "127.0.0.1:9090"
  -- The path that takes WebSocket upgrades.
  socketPath : String := "/"
  -- The part of the path space that the backend answers.
  apiPrefix : String := "/api"
  -- Upgrades are held until the backend decides on them.
  auth : Bool := false
  authTimeoutMs : Nat := 5000
  apiTimeoutMs : Nat := 30000
  -- How many clients are written to at once.
  broadcastConcurrency : Nat := 20
  -- How many frames wait for a client at most.
  clientQueue : Nat := 256
  -- How long a full queue may block before its client is dropped.
  slowClientTimeoutMs : Nat := 5000
  eventCapacity : Nat := 1024
  deriving Repr

/-- The least time that a held upgrade is given. -/
def minAuthTimeoutMs : Nat := 10

/-- The time that a held upgrade is given. -/
def Server.effectiveAuthTimeoutMs (s : Server) : Nat := max s.authTimeoutMs minAuthTimeoutMs

structure Supervisor where
  command : String := ""
  args : List String := []
  -- More variables for the environment of the child.
  env : List (String × String) := []
  -- The directory that is watched for changes of the backend's source.
  sourceRoot : Option String := none
  runtimeRoot : Option String := none
  respawnDelayMs : Nat := 3000
  -- How long a child may take until it is ready.
  readyTimeoutMs : Nat := 30000
  watchDebounceMs : Nat := 300
  -- Nothing is watched in production.
  production : Bool := false
  -- The child sends its log records over the channel.
  logPassthrough : Bool := true
  eventCapacity : Nat := 256
  deriving Repr

/-- How delays between attempts to connect grow. -/
structure Backoff where
  initialNs : Nat := 250000000
  maxNs : Nat := 10000000000
  multiplier : Float := 2.0
  -- The part of a delay that is added or taken off at random.
  jitter : Float := 0.3

structure Client where
  url : String := "ws://127.0.0.1:9090/"
  rpcTimeoutMs : Nat := 30000
  backoff : Backoff := {}
  eventCapacity : Nat := 256

namespace Source

variable (source : Source)

/-- Reads the server's settings; the first fault decides. -/
def server : Except SettingsError Server := do
  let d : Server := {}
  return {
    bindAddress := source.text "MODELCAST_BIND" d.bindAddress
    socketPath := source.text "MODELCAST_WS_PATH" d.socketPath
    apiPrefix := source.text "MODELCAST_API_PREFIX" d.apiPrefix
    auth := ← source.flag "MODELCAST_AUTH" d.auth
    authTimeoutMs := ← source.word "MODELCAST_AUTH_TIMEOUT_MS" d.authTimeoutMs
    apiTimeoutMs := ← source.word "MODELCAST_API_TIMEOUT_MS" d.apiTimeoutMs
    broadcastConcurrency :=
      max (← source.word "MODELCAST_BROADCAST_CONCURRENCY" d.broadcastConcurrency) 1
    clientQueue := max (← source.word "MODELCAST_CLIENT_QUEUE" d.clientQueue) 1
    slowClientTimeoutMs :=
      ← source.word "MODELCAST_SLOW_CLIENT_TIMEOUT_MS" d.slowClientTimeoutMs }

/-- Reads the supervisor's settings; the first fault decides. -/
def supervisor : Except SettingsError Supervisor := do
  let d : Supervisor := {}
  return {
    command := ← source.required "MODELCAST_BACKEND_CMD"
    args := Text.words (source.text "MODELCAST_BACKEND_ARGS" "")
    sourceRoot := source.text? "MODELCAST_SOURCE_ROOT"
    runtimeRoot := source.text? "MODELCAST_RUNTIME_ROOT"
    respawnDelayMs := ← source.word "MODELCAST_RESPAWN_DELAY_MS" d.respawnDelayMs
    readyTimeoutMs := ← source.word "MODELCAST_READY_TIMEOUT_MS" d.readyTimeoutMs
    watchDebounceMs := ← source.word "MODELCAST_WATCH_DEBOUNCE_MS" d.watchDebounceMs
    production := source.isProduction
    logPassthrough := ← source.flag "MODELCAST_LOG_PASSTHROUGH" d.logPassthrough }

def client : Except SettingsError Client := do
  let d : Client := {}
  return {
    url := source.text "MODELCAST_URL" d.url
    rpcTimeoutMs := ← source.word "MODELCAST_RPC_TIMEOUT_MS" d.rpcTimeoutMs }

end Source

end LiveDoc.Settings
