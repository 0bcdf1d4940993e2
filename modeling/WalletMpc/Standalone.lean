import WalletMpc.Room
import WalletMpc.Signer
import WalletMpc.SocketAddrs

namespace WalletMpc.Participant
open Fallible Ecdsa Proto MpcClient SocketAddrs
set_option autoImplicit true

/-- `dotenv().ok()` with the entries of the `.env` file, as far as they can be read: each sets its
variable if that is not set. `set_var` panics on a value with a NUL. -/
def dotenv : List (String × String) → (String → Option String) → Option (String → Option String)
  | [], env => some env
  | (key, value) :: entries, env =>
    if env key ≠ none then dotenv entries env
    else if Char.ofNat 0 ∈ value.toList then none
    else dotenv entries (Function.update env key (some value))

structure SSEConfig where
  host : String
  port : UInt16

structure ParticipantConfig where
  host : String
  port : UInt16
  index : UInt16

structure AppConfig where
  sse : SSEConfig
  participant : ParticipantConfig

def parseVar (value message : String) : Except String UInt16 :=
  match Sse.parseU16 value with
  | some n => .ok n
  | none => .error ("Invalid environment variable: " ++ message)

def participantIndex (env : String → Option String) : Except String UInt16 :=
  match env "PARTICIPANT_INDEX" with
  | none => .error "Missing environment variable: PARTICIPANT_INDEX is required"
  | some value => parseVar value "Expected PARTICIPANT_INDEX to be a number"

def AppConfig.fromEnv (env : String → Option String) : Except String AppConfig := do
  let sseHost := (env "SSE_HOST").getD "localhost"
  let ssePort ← parseVar ((env "SSE_PORT").getD "8080") "Expected SSE_PORT to be a number"
  let participantHost := (env "PARTICIPANT_HOST").getD "::1"
  let participantPort ← parseVar ((env "PARTICIPANT_PORT").getD "50051")
    "Expected PARTICIPANT_PORT to be a number"
  let participantIndex ← participantIndex env
  return ⟨⟨sseHost, ssePort⟩, ⟨participantHost, participantPort, participantIndex⟩⟩

def AppConfig.sseUrl (config : AppConfig) : String :=
  "http://" ++ config.sse.host ++ ":" ++ toString config.sse.port.toNat

/-- The files that exist, each with what reading it as a string gives. -/
abbrev Files : Type := String → Option (Except String String)

def keyShareFile (i : Nat) : String := "key_share_" ++ toString i ++ ".json"

section
variable {c : Curve}

def defaultAccountId (keyShare : KeyShare c) : String :=
  "account_" ++ toString keyShare.i.toNat

/-- The loop of `load_key_shares_from_files`. -/
def loadFiles (platform : Platform c) (files : Files) :
    List Nat → Accounts (KeyShare c) → Except String (Accounts (KeyShare c))
  | [], keyShares => .ok keyShares
  | i :: rest, keyShares =>
    match files (keyShareFile i) with
    | none => loadFiles platform files rest keyShares
    | some (.error e) =>
      .error ("Failed to read key share file " ++ keyShareFile i ++ ": " ++ e)
    | some (.ok json) =>
      match platform.parseKeyShare json with
      | .error e =>
        .error ("Key share deserialization failed for " ++ keyShareFile i ++ ": " ++ e)
      | .ok keyShare =>
        loadFiles platform files rest (keyShares.insert (defaultAccountId keyShare) keyShare)

def loadKeySharesFromFiles (platform : Platform c) (files : Files) :
    Except String (Accounts (KeyShare c)) := do
  let keyShares ← loadFiles platform files (List.range' 1 10) ∅
  if keyShares.keys = ∅ then
    .error "No key share files found. Please ensure the key share files are properly distributed."
  else return keyShares

def parseAddress (server : ParticipantServer c) : Except String SocketAddr :=
  match SocketAddr.parse server.serverAddress with
  | some addr => .ok addr
  | none => .error ("Invalid server address '" ++ server.serverAddress ++
      "': invalid socket address syntax")

/-- `ParticipantServer::start` up to where it listens, given how the bind comes out. -/
def start (bind : SocketAddr → Except String Unit) (server : ParticipantServer c) :
    Except String SocketAddr := do
  let addr ← parseAddress server
  (bind addr).mapError fun e => "Server failed: " ++ e
  return addr

section
variable (platform : Platform c) (bind : SocketAddr → Except String Unit)

/-- What `main` does with its variables. -/
def startFromEnv (env : String → Option String) (files : Files) :
    Except String (ParticipantServer c × SocketAddr) := do
  let config ← (AppConfig.fromEnv env).mapError fun e => "Failed to load configuration: " ++ e
  let keyShares ← loadKeySharesFromFiles platform files
  let server ← ParticipantServer.new platform config.sseUrl config.participant.host
    config.participant.port keyShares
  let addr ← start bind server
  return (server, addr)

/-- The participant as a process of its own, up to where it listens; `none` is a panic. -/
def main (entries : List (String × String)) (env : String → Option String) (files : Files) :
    Option (Except String (ParticipantServer c × SocketAddr)) :=
  (dotenv entries env).map fun env => startFromEnv platform bind env files

end

variable {platform : Platform c} {bind : SocketAddr → Except String Unit} {files : Files}

end

end WalletMpc.Participant
