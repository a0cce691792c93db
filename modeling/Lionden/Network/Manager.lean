import Lionden.Js.Value
import Lionden.Lib.Trace
import Mathlib.Logic.Function.Basic

/-!
# The network manager

`NetworkManagerImpl` caches a connection for each network, with the named accounts that
`NamedAccountManager` resolved for it.

* `Manager.step`: what happens at once: a call, or what a `connect` does between two of its `await`s.
* `resolveValue`: a named account. The SDK derives the address of a private key, or fails.
-/

namespace Lionden.Network.Connect

/-! ## Named accounts -/

structure DevnodeAccount where
  privateKey : JsString
  address : JsString

def DEVNODE_ACCOUNTS : List DevnodeAccount := [
  { privateKey := js "APrivateKey1zkp8CZNn3yeCseEtxuVPbDCwSyhGW6yZKUYKfgXmcpoGPWH"
    address := js "aleo1rhgdu77hgyqd3xjj8ucu3jj9r2krwz6mnzyd80gncr5fxcwlh5rsvzp9px" },
  { privateKey := js "APrivateKey1zkp2RWGDcde3efb89rjhME1VYA8QMxcxep5DShNBR6n8Yjh"
    address := js "aleo1s3ws5tra87fjycnjrwsjcrnw2qxr8jfqqdugnf0xzqqw29q9m5pqem2u4t" },
  { privateKey := js "APrivateKey1zkp2GUmKbVsuc1NSj28pa1WTQuZaK5f1DQJAT6vPcHyWokG"
    address := js "aleo1ashyu96tjwe63u0gtnnv8z5lhapdu4l5pjsl2kha7fv7hvz2eqxs5dz0rg" },
  { privateKey := js "APrivateKey1zkpBjpEgLo4arVUkQmcLdKQMiAKGaHAQVVwmF8HQby8vdYs"
    address := js "aleo12ux3gdauck0v60westgcpqj7v8rrcr3v346e4jtq04q7kkt22czsh808v2" }]

/-- `ResolvedNamedAccountValue`. -/
inductive NamedValue where
  | index (index : Nat)
  | address (address : JsString)
  | privateKey (privateKey : JsString)
  deriving DecidableEq

/-- `ResolvedNamedAccountEntry`. -/
structure NamedEntry where
  networks : List (JsString × NamedValue)
  default : Option NamedValue

inductive NamedAccount where
  | signable (name address privateKey : JsString)
  | addressOnly (name address : JsString)
  deriving DecidableEq

abbrev NamedAccounts := List (JsString × NamedAccount)

inductive NetworkConfig where
  | devnode (socketAddr network : JsString)
  | http (endpoint network : JsString) (apiKey : Option JsString)
  deriving DecidableEq

structure Config where
  defaultNetwork : JsString
  networks : List (JsString × NetworkConfig)
  namedAccounts : List (JsString × NamedEntry)

structure ResolveForNetworkOptions where
  networkName : JsString
  networkType : JsString
  networkId : JsString
  endpoint : JsString
  apiKey : Option JsString
  deriving DecidableEq

/-- The options of a network, with the endpoint that `createConnection` gives its connection. -/
def resolveOptions (networkName : JsString) : NetworkConfig → ResolveForNetworkOptions
  | .devnode socketAddr network => {
      networkName, networkType := js "devnode", networkId := network
      endpoint := js "http://" ++ socketAddr, apiKey := none }
  | .http endpoint network apiKey => {
      networkName, networkType := js "http", networkId := network, endpoint, apiKey }

/-- The value of an entry for a network. -/
def NamedEntry.valueFor (entry : NamedEntry) (networkName : JsString) : Option NamedValue :=
  (entry.networks.lookup networkName).or entry.default

/-- `derive` is `deriveAddressFromPrivateKey`, for the options. -/
def resolveValue (derive : JsString → Except JsString JsString) (accountName : JsString) (value : NamedValue)
    (opts : ResolveForNetworkOptions) : Except JsString NamedAccount :=
  match value with
  | .index index =>
    if opts.networkType = js "http" then
      .error (js "Named account \"" ++ accountName ++ js "\" uses devnode account index " ++
        decimal index ++ js ", but network \"" ++ opts.networkName ++
        js "\" is an HTTP network. Provide an explicit private key or address override for \"" ++
        opts.networkName ++ js "\".")
    else
      match DEVNODE_ACCOUNTS[index]? with
      | none =>
        .error (js "Named account \"" ++ accountName ++ js "\" references devnode account index " ++
          decimal index ++ js ", but only " ++ decimal DEVNODE_ACCOUNTS.length ++
          js " devnode accounts exist (indices 0–" ++ decimal (DEVNODE_ACCOUNTS.length - 1) ++
          js ").")
      | some devAccount => .ok (.signable accountName devAccount.address devAccount.privateKey)
  | .address address => .ok (.addressOnly accountName address)
  | .privateKey privateKey => do
    let address ← derive privateKey
    .ok (.signable accountName address privateKey)

/-! ## State -/

structure Connection where
  name : JsString
  closed : Bool

/-- A `connect` that makes a connection. -/
structure Task where
  /-- The call. -/
  owner : Nat
  networkName : JsString
  networkConfig : NetworkConfig

/-- Where such a `connect` is. -/
inductive Phase where
  /-- It awaits the first of the entries, in `resolveForNetwork`. -/
  | resolving (connection : Nat) (result : NamedAccounts) (entries : List (JsString × NamedEntry))
  | resolved (connection : Nat) (accounts : NamedAccounts)
  /-- `resolveForNetwork` threw. -/
  | threw (connection : Nat) (error : JsString)
  /-- It awaits the close of its connection. -/
  | closing (error : JsString)
  /-- `connectPromise` is fulfilled or rejected. -/
  | settling (result : Except JsString Nat)
  /-- The call has returned or thrown. -/
  | settled (result : Except JsString Nat)

/-- What a call of `connect` comes to. -/
inductive Call where
  | threw (error : JsString)
  | returned (connection : Nat)
  /-- What the promise of a task comes to. -/
  | awaits (task : Nat)

structure Manager where
  activeConnection : Option Nat
  connections : List (JsString × Nat)
  resolvedNamedAccountsCache : List (JsString × NamedAccounts)
  inFlightConnects : List (JsString × Nat)
  activeNamedAccounts : NamedAccounts
  /-- The cache of `namedAccountManager`. -/
  cache : List (JsString × NamedAccounts)
  /-- The connections that have been created. -/
  created : Nat → Option Connection
  nextConnection : Nat
  tasks : Nat → Option (Task × Phase)
  nextTask : Nat
  calls : Nat → Option Call

def Manager.new : Manager where
  activeConnection := none
  connections := []
  resolvedNamedAccountsCache := []
  inFlightConnects := []
  activeNamedAccounts := []
  cache := []
  created _ := none
  nextConnection := 0
  tasks _ := none
  nextTask := 0
  calls _ := none

/-- `Map.prototype.delete`. -/
def delete {α : Type} (map : List (JsString × α)) (key : JsString) : List (JsString × α) :=
  map.filter fun entry => entry.1 ≠ key

/-- `Map.prototype.set`. -/
def set {α : Type} (map : List (JsString × α)) (key : JsString) (value : α) : List (JsString × α) :=
  (key, value) :: delete map key

namespace Manager

variable (config : Config) (derive : ResolveForNetworkOptions → JsString → JsString) (s : Manager)

def isClosed (connection : Nat) : Bool := (s.created connection).any (·.closed)

/-- `close` of some connections. -/
def closeAll (connections : List Nat) : Manager :=
  { s with created := fun c => (s.created c).map fun connection =>
      { connection with closed := connection.closed || decide (c ∈ connections) } }

def setCall (c : Nat) (call : Call) : Manager :=
  { s with calls := Function.update s.calls c (some call) }

def setPhase (t : Nat) (task : Task) (phase : Phase) : Manager :=
  { s with tasks := Function.update s.tasks t (some (task, phase)) }

/-! ## Resolving named accounts -/

/-- The loop of `resolveForNetwork`, up to its `await` or its end. -/
def resolveEntries (t : Nat) (task : Task) (connection : Nat) (result : NamedAccounts) :
    List (JsString × NamedEntry) → Manager
  | [] =>
    { s.setPhase t task (.resolved connection result) with
      cache := set s.cache task.networkName result }
  | (accountName, entry) :: entries =>
    match entry.valueFor task.networkName with
    | none =>
      s.setPhase t task (.threw connection (js "Named account \"" ++ accountName ++
        js "\" has no value for network \"" ++ task.networkName ++
        js "\" and no default. Add a \"default\" or a \"" ++ task.networkName ++
        js "\" override in your namedAccounts config."))
    | some _ =>
      s.setPhase t task (.resolving connection result ((accountName, entry) :: entries))

/-- `resolveForNetwork`, up to its first `await`. -/
def resolveForNetwork (t : Nat) (task : Task) (connection : Nat) : Manager :=
  match s.cache.lookup task.networkName with
  | some cached => s.setPhase t task (.resolved connection cached)
  | none => s.resolveEntries t task connection [] config.namedAccounts

/-! ## Connecting -/

/-- A task goes on after an `await`. The SDK may fail to derive an address. -/
def advance (t : Nat) (thrown : Option JsString) : Manager :=
  match s.tasks t with
  | none => s
  | some (task, phase) =>
    match phase with
    | .resolving _ _ [] => s
    | .resolving connection result ((accountName, entry) :: entries) =>
      let opts := resolveOptions task.networkName task.networkConfig
      let derive privateKey := match thrown with
        | some error => .error error
        | none => .ok (derive opts privateKey)
      match entry.valueFor task.networkName with
      | none => s
      | some value =>
        match resolveValue derive accountName value opts with
        | .error error => s.setPhase t task (.threw connection error)
        | .ok account =>
          s.resolveEntries t task connection (result ++ [(accountName, account)]) entries
    | .resolved connection accounts =>
      { s.setPhase t task (.settling (.ok connection)) with
        connections := set s.connections task.networkName connection
        activeConnection := some connection
        resolvedNamedAccountsCache := set s.resolvedNamedAccountsCache task.networkName accounts
        activeNamedAccounts := accounts }
    | .threw connection error => (s.closeAll [connection]).setPhase t task (.closing error)
    | .closing error => s.setPhase t task (.settling (.error error))
    | .settling result =>
      { s.setPhase t task (.settled result) with
        inFlightConnects := if s.inFlightConnects.lookup task.networkName = some t
          then delete s.inFlightConnects task.networkName else s.inFlightConnects }
    | .settled _ => s

/-- `connect` where no open connection is cached. `createConnection` may throw. -/
def connectNew (c : Nat) (networkName : JsString) (networkConfig : NetworkConfig)
    (thrown : Option JsString) : Manager :=
  match s.inFlightConnects.lookup networkName with
  | some t => s.setCall c (.awaits t)
  | none =>
    let started := { s.setCall c (.awaits s.nextTask) with
      nextTask := s.nextTask + 1
      inFlightConnects := set s.inFlightConnects networkName s.nextTask }
    let task : Task := { owner := c, networkName, networkConfig }
    match thrown with
    | some error => started.setPhase s.nextTask task (.settling (.error error))
    | none =>
      { started with
        created := Function.update s.created s.nextConnection (some ⟨networkName, false⟩)
        nextConnection := s.nextConnection + 1
      }.resolveForNetwork config s.nextTask task s.nextConnection

/-- A call of `connect`, up to its `await`. -/
def connect (c : Nat) (name thrown : Option JsString) : Manager :=
  let networkName := name.getD config.defaultNetwork
  match config.networks.lookup networkName with
  | none =>
    let available := join (js ", ") (config.networks.map (·.1))
    s.setCall c (.threw (js "Network \"" ++ networkName ++ js "\" not found in config. Available: " ++
      if available = [] then js "none" else available))
  | some networkConfig =>
    match s.connections.lookup networkName with
    | none => s.connectNew config c networkName networkConfig thrown
    | some existing =>
      if s.isClosed existing then
        { s with connections := delete s.connections networkName }.connectNew config c networkName
          networkConfig thrown
      else
        { s.setCall c (.returned existing) with
          activeConnection := some existing
          activeNamedAccounts := (s.resolvedNamedAccountsCache.lookup networkName).getD [] }

/-! ## The other calls -/

def getUsableActiveConnection : Manager :=
  match s.activeConnection with
  | none => s
  | some active =>
    if s.isClosed active then
      { s with
        activeConnection := none
        activeNamedAccounts := []
        connections := match s.created active with
          | none => s.connections
          | some connection =>
            if s.connections.lookup connection.name = some active
            then delete s.connections connection.name else s.connections }
    else s

def disconnectAll : Manager :=
  { s.closeAll (s.connections.map (·.2)) with
    connections := []
    activeConnection := none
    activeNamedAccounts := []
    resolvedNamedAccountsCache := []
    cache := [] }

end Manager

/-! ## Runs -/

inductive Event where
  | connect (c : Nat) (name thrown : Option JsString)
  | advance (t : Nat) (thrown : Option JsString)
  /-- `getConnection`, or any call that needs the active connection. -/
  | getConnection
  | disconnectAll
  | close (connection : Nat)

/-- A call has a number of its own. -/
def Manager.step (config : Config) (derive : ResolveForNetworkOptions → JsString → JsString)
    (s : Manager) : Event → Manager
  | .connect c name thrown =>
    match s.calls c with
    | some _ => s
    | none => s.connect config c name thrown
  | .advance t thrown => s.advance derive t thrown
  | .getConnection => s.getUsableActiveConnection
  | .disconnectAll => s.disconnectAll
  | .close connection => s.closeAll [connection]

end Lionden.Network.Connect
