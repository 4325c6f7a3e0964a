import RestFleet.Model.Event
import RestFleet.Shared.Interleaving

/-! # The backup session of the gateway

`BackupSession.ServeHTTP` and what it calls, as interaction programs. The operations are the
points where requests of one session meet. -/

namespace RestFleet.Session

def maxObjectBytes : ℤ := 32 * 2 ^ 20

def maxLockBytes : ℤ := 64 * 2 ^ 10

def maxLocks : ℕ := 1024

def maxRequests : ℕ := 8

inductive Method where
  | get | head | post | delete
  | other (name : Text)
  deriving DecidableEq

structure URL where
  path : Text
  rawPath : Text
  rawQuery : Text
  forceQuery : Bool
  fragment : Text
  hasUser : Bool
  scheme : Text
  host : Text
  opaquePart : Text

/-- The TLS state of a request: its version, and the identities that `authenticatedAgent` and
`authenticatedGatewayReader` derive from the verified leaf. -/
structure TLS where
  version : ℕ
  agent : Option UUID
  reader : Option GatewayReadBinding

def versionTLS12 : ℕ := 0x0303

structure Request where
  method : Method
  url : URL
  tls : Option TLS
  basicAuth : Option (Text × Bytes)
  authorizationValues : ℕ
  contentLength : ℤ
  range : Text

structure Response where
  status : ℕ
  header : String → Text
  contentLength : ℤ

inductive TransportError where
  | network | eof | unexpectedEOF | other
  deriving DecidableEq

abbrev Answer := Except TransportError Response

inductive RequestError where
  | authorization | invalidSession
  | transport (error : TransportError)

structure RetryFlags where
  unavailable : Bool
  rateLimited : Bool
  retryUnsafe : Bool
  deriving DecidableEq

def RetryFlags.none : RetryFlags := ⟨false, false, false⟩

def RetryFlags.or (a b : RetryFlags) : RetryFlags :=
  ⟨a.unavailable || b.unavailable, a.rateLimited || b.rateLimited, a.retryUnsafe || b.retryUnsafe⟩

def retryUnavailable : RetryFlags := ⟨true, false, false⟩

def retryRateLimited : RetryFlags := ⟨false, true, false⟩

def retryUnsafe : RetryFlags := ⟨false, false, true⟩

inductive RetryCode where
  | gatewayRateLimited | gatewayUnavailable
  deriving DecidableEq

def RetryFlags.code (flags : RetryFlags) : Option RetryCode :=
  if flags.retryUnsafe then Option.none
  else if flags.rateLimited then some .gatewayRateLimited
  else if flags.unavailable then some .gatewayUnavailable
  else Option.none

structure Config where
  binding : GatewayBinding
  agentID : UUID
  reader : Option GatewayReadBinding
  verifier : Bytes
  guarded : Bool

/-- `s.prefix`, with the operation part that agent sessions have. -/
def Config.pathPrefix (s : Config) : Text :=
  "/restic/".toList ++ s.binding.gatewayID.text ++ "/".toList ++ s.binding.repositoryID.text ++
    "/".toList ++ (if s.agentID = UUID.nil then [] else s.binding.operationID.text ++ "/".toList)

inductive Outcome where
  | error (text : String) (status : ℕ)
  | header (status : ℕ)
  | object (status : ℕ) (contentType : String) (copied : List (String × Text))
  | aborted

inductive Op where
  | rLock | rUnlock
  | sessionErr
  | guardOk
  | acquireRequest | releaseRequest
  | acquireWrite | releaseWrite
  | requestErr
  | readFull (length : ℕ)
  | lookupLock (path : Text) | lockCount | setLock (path : Text) (confirmed : Bool)
  | newRequest
  | send (method : Method) (path : Text) (body : Bytes) (range : Text)
  | receive (id : ℕ)
  | orFlags (flags : RetryFlags)
  | audit (event : GatewayEvent)
  | copyBody

abbrev Reply : Op → Type
  | .sessionErr | .guardOk | .acquireRequest | .acquireWrite | .requestErr | .newRequest
  | .audit _ | .copyBody => Bool
  | .readFull _ => Option Bytes
  | .lookupLock _ => Option Bool
  | .lockCount => ℕ
  | .send _ _ _ _ => ℕ
  | .receive _ => Answer
  | _ => Unit

abbrev Prog := Program Op Reply

def perform (op : Op) : Prog (Reply op) := Program.perform op

def record (s : Config) (authenticated : Bool) (action : EventAction) (reason : EventReason) :
    Prog Bool :=
  perform (.audit ⟨s.binding, authenticated, action, reason⟩)

def deny (s : Config) (authenticated : Bool) (reason : EventReason) (status : ℕ) :
    Prog Outcome := do
  perform (.orFlags
    (if authenticated && reason = .requestLimit then retryRateLimited else retryUnsafe))
  if !(← record s authenticated .denied reason) then return .error "gateway unavailable" 503
  else return .error "gateway request rejected" status

def backendFailure (status : ℕ) : Outcome :=
  .error "gateway request failed" (if status ≠ 404 ∧ status ≠ 416 then 502 else status)

/-- `objectName`: the expression `^[0-9a-f]{64}$`. -/
def objectName (name : Text) : Bool := name.length = 64 && name.all Text.isLowerHex

def objectPath (s : Config) (u : URL) : Option Text :=
  if u.rawPath ≠ [] ∨ u.rawQuery ≠ [] ∨ u.forceQuery ∨ u.fragment ≠ [] ∨ u.hasUser ∨
      u.scheme ≠ [] ∨ u.host ≠ [] ∨ u.opaquePart ≠ [] ∨ ¬ u.path.hasPrefix s.pathPrefix then none
  else
    let path := u.path.trimPrefix s.pathPrefix
    if path = "config".toList then some path
    else match path.cut '/' with
      | none => none
      | some (kind, name) =>
        if kind ≠ "data".toList ∧ kind ≠ "index".toList ∧ kind ≠ "snapshots".toList ∧
            kind ≠ "keys".toList ∧ kind ≠ "locks".toList then none
        else if name = [] ∨ objectName name then some path
        else none

def Method.isRead (m : Method) : Bool := m = .get || m = .head

/-- `backupRetryObservation.observe`: the flag that a transport result adds. -/
def observeFlags (contextErr : Bool) (m : Method) : Answer → RetryFlags
  | .error e =>
    if m.isRead && !contextErr && (e = .network || e = .eof || e = .unexpectedEOF)
    then retryUnavailable else retryUnsafe
  | .ok response =>
    if response.status = 200 ||
        (m.isRead && (response.status = 206 || response.status = 404 || response.status = 416))
    then RetryFlags.none
    else if m.isRead && response.status = 429 then retryRateLimited
    else if m.isRead && (response.status = 500 || response.status = 502 ||
        response.status = 503 || response.status = 504) then retryUnavailable
    else retryUnsafe

def guardFails (s : Config) : Prog Bool := do
  if s.guarded then return !(← perform .guardOk)
  else return false

/-- The round trip of `BackupSession.request`, with its observation. -/
def forward (m : Method) (path : Text) (body : Bytes) (range : Text) :
    Prog (Except RequestError Response) := do
  let id ← perform (.send m path body (if m = .get then range else []))
  let answer ← perform (.receive id)
  let contextErr ← perform .requestErr
  perform (.orFlags (observeFlags contextErr m answer))
  return answer.mapError .transport

/-- `BackupSession.request`. A committed or uncertain snapshot must never be repeated. -/
def request (s : Config) (m : Method) (path : Text) (body : Bytes) (range : Text) :
    Prog (Except RequestError Response) := do
  if ← guardFails s then
    perform (.orFlags retryUnsafe)
    return .error .authorization
  else if !(← perform .newRequest) then return .error .invalidSession
  else if m = .post ∧ path.hasPrefix "snapshots/".toList then
    perform (.orFlags retryUnsafe)
    forward m path body range
  else forward m path body range

def read (s : Config) (r : Request) (path : Text) : Prog Outcome := do
  match ← request s r.method path [] r.range with
  | .error _ => return .error "gateway unavailable" 502
  | .ok response =>
    if response.status ≠ 200 ∧ response.status ≠ 206 then
      if path.hasSuffix "/".toList then
        if response.status = 404 ∨ response.status = 416 then
          perform (.orFlags retryUnsafe)
          return backendFailure 502
        else return backendFailure 502
      else return backendFailure response.status
    else
      let copied := (["Content-Length", "Content-Range", "Accept-Ranges"].map fun key =>
        (key, response.header key)).filter fun p => p.2 ≠ []
      let contentType := if path.hasSuffix "/".toList then "application/vnd.x.restic.rest.v2"
        else "application/octet-stream"
      if r.method ≠ .head then
        if !(← perform .copyBody) then
          perform (.orFlags retryUnsafe)
          return .aborted
        else return .object response.status contentType copied
      else return .object response.status contentType copied

/-- `create` after a confirmed POST: only a live request takes ownership of its lock. -/
def confirmLock (path : Text) : Prog Unit := do
  if !(← perform .requestErr) then
    if !(← perform .sessionErr) then perform (.setLock path true)

def postObject (s : Config) (path : Text) (body : Bytes) (isLock : Bool) : Prog Outcome := do
  match ← request s .post path body [] with
  | .error _ => return .error "gateway unavailable" 502
  | .ok response =>
    if response.status ≠ 200 then return backendFailure response.status
    else if isLock then
      confirmLock path
      return .header 200
    else return .header 200

/-- `create` after the body: an ambiguous write never owns a lock, so the reservation comes
before the POST. -/
def probeObject (s : Config) (path : Text) (body : Bytes) (isLock : Bool) : Prog Outcome := do
  match ← request s .head path [] [] with
  | .error _ => return .error "gateway unavailable" 502
  | .ok probe =>
    if probe.status ≠ 404 then
      if probe.status = 200 then deny s true .objectExists 403
      else return .error "gateway unavailable" 502
    else if isLock then
      perform (.setLock path false)
      postObject s path body isLock
    else postObject s path body isLock

def bodyLimit (isLock : Bool) : ℤ := if isLock then maxLockBytes else maxObjectBytes

def createObject (s : Config) (sha256 : Bytes → Bytes) (r : Request) (path : Text)
    (isLock : Bool) : Prog Outcome := do
  if r.contentLength < 1 ∨ r.contentLength > bodyLimit isLock then
    deny s true .objectSize 413
  else match ← perform (.readFull r.contentLength.toNat) with
  | none => deny s true .invalidBody 400
  | some body =>
    if ← perform .requestErr then deny s true .invalidBody 400
    else if (path.cut '/').map Prod.snd ≠ some (Text.hexEncode (sha256 body)) then
      deny s true .contentHashMismatch 400
    else probeObject s path body isLock

def create (s : Config) (sha256 : Bytes → Bytes) (r : Request) (path : Text) :
    Prog Outcome := do
  if path.hasPrefix "locks/".toList then
    if (← perform (.lookupLock path)).isSome then deny s true .lockNotFresh 403
    else if (← perform .lockCount) ≥ maxLocks then deny s true .lockNotFresh 403
    else createObject s sha256 r path true
  else createObject s sha256 r path false

def removeLock (s : Config) (path : Text) : Prog Outcome := do
  if (← perform (.lookupLock path)).getD false = false then deny s true .lockNotOwned 403
  else if !(← record s true .lockCleanup .ownedLock) then
    return .error "gateway unavailable" 503
  else
    perform (.setLock path false)
    match ← request s .delete path [] [] with
    | .error _ => return .error "gateway unavailable" 502
    | .ok response =>
      if response.status ≠ 200 then return backendFailure response.status
      else return .header 200

/-- `ServeHTTP` inside the write semaphore. -/
def mutate (s : Config) (sha256 : Bytes → Bytes) (r : Request) (path : Text) : Prog Outcome :=
  if r.method = .delete then removeLock s path else create s sha256 r path

def authenticated (s : Config) (sha256 : Bytes → Bytes) (r : Request) (tls : TLS) : Bool :=
  match s.reader with
  | some reader => tls.reader.any fun claimed => sameGatewayReader claimed reader
  | none =>
    if s.agentID ≠ UUID.nil then tls.agent = some s.agentID
    else r.basicAuth.any fun credentials => r.authorizationValues = 1 &&
      credentials.1 = s.binding.gatewayID.text && sha256 credentials.2 = s.verifier

/-- `ServeHTTP` between the two semaphores: reads, method and path checks, then mutations. -/
def serveAdmitted (s : Config) (sha256 : Bytes → Bytes) (r : Request) (path : Text) :
    Prog Outcome := do
  if r.method = .get ∨ (r.method = .head ∧ ¬ path.hasSuffix "/".toList) then read s r path
  else if s.reader.isSome then deny s true .methodRejected 403
  else if r.method ≠ .post ∧ r.method ≠ .delete then deny s true .methodRejected 403
  else if path = "config".toList ∨ path.hasPrefix "keys/".toList ∨ path.hasSuffix "/".toList ∨
      (r.method = .delete ∧ ¬ path.hasPrefix "locks/".toList) then
    deny s true .immutableObject 403
  else if !(← perform .acquireWrite) then return .error "gateway unavailable" 503
  else
    let outcome ← mutate s sha256 r path
    perform .releaseWrite
    return outcome

def serve (s : Config) (sha256 : Bytes → Bytes) (r : Request) : Prog Outcome := do
  if ← perform .sessionErr then deny s false .sessionInactive 403
  else if ← guardFails s then deny s false .sessionInactive 403
  else match r.tls with
  | none => deny s false .tlsRequired 403
  | some tls =>
    if tls.version < versionTLS12 then deny s false .tlsRequired 403
    else if !authenticated s sha256 r tls then deny s false .authenticationFailed 401
    else match objectPath s r.url with
    | none => deny s true .pathRejected 403
    | some path =>
      if !(← perform .acquireRequest) then deny s true .requestLimit 429
      else
        let outcome ← serveAdmitted s sha256 r path
        perform .releaseRequest
        return outcome

/-- `BackupSession.ServeHTTP`: the handler runs under the lifecycle read lock. -/
def serveHTTP (s : Config) (sha256 : Bytes → Bytes) (r : Request) : Prog Unit := do
  perform .rLock
  let _ ← serve s sha256 r
  perform .rUnlock

/-- `probeBackend` on a published session, under the same lifecycle lock. -/
def probeBackend (s : Config) : Prog Unit := do
  perform .rLock
  let _ ← request s .head "config".toList [] []
  perform .rUnlock

/-! ## One session under any interleaving of its requests -/

inductive Event where
  | sent (id : ℕ) (m : Method) (path : Text) (body : Bytes)
  | answered (id : ℕ) (answer : Answer)
  | audited (event : GatewayEvent) (recorded : Bool)

/-- The mutable part of a session; the newest event is last. -/
structure State where
  cancelled : Bool
  closed : Bool
  handlers : List ℕ
  requests : ℕ
  writer : Option ℕ
  locks : List (Text × Bool)
  flags : RetryFlags
  log : List Event

def State.initial : State := ⟨false, false, [], 0, none, [], RetryFlags.none, []⟩

def assign (locks : List (Text × Bool)) (path : Text) (confirmed : Bool) : List (Text × Bool) :=
  (path, confirmed) :: locks.filter fun entry => entry.1 ≠ path

/-- What each operation can reply and do. Guards, contexts, bodies, answers and audit results
are chosen by the environment. -/
def act (t : ℕ) : (op : Op) → State → Reply op → State → Prop
  | .rLock, s, _, s' => t ∉ s.handlers ∧ s' = { s with handlers := t :: s.handlers }
  | .rUnlock, s, _, s' => s' = { s with handlers := s.handlers.erase t }
  | .sessionErr, s, r, s' => r = s.cancelled ∧ s' = s
  | .guardOk, s, _, s' => s' = s
  | .acquireRequest, s, r, s' =>
    (r = true ∧ s.requests < maxRequests ∧ s' = { s with requests := s.requests + 1 }) ∨
      (r = false ∧ maxRequests ≤ s.requests ∧ s' = s)
  | .releaseRequest, s, _, s' => s' = { s with requests := s.requests - 1 }
  | .acquireWrite, s, r, s' =>
    (r = true ∧ s.writer = none ∧ s' = { s with writer := some t }) ∨ (r = false ∧ s' = s)
  | .releaseWrite, s, _, s' => s' = { s with writer := none }
  | .requestErr, s, _, s' => s' = s
  | .readFull n, s, r, s' => (∀ body, r = some body → body.length = n) ∧ s' = s
  | .lookupLock path, s, r, s' => r = s.locks.lookup path ∧ s' = s
  | .lockCount, s, r, s' => r = s.locks.length ∧ s' = s
  | .setLock path confirmed, s, _, s' => s' = { s with locks := assign s.locks path confirmed }
  | .newRequest, s, _, s' => s' = s
  | .send m path body _, s, r, s' =>
    r = s.log.length ∧ s' = { s with log := s.log ++ [.sent s.log.length m path body] }
  | .receive id, s, r, s' => s' = { s with log := s.log ++ [.answered id r] }
  | .orFlags flags, s, _, s' => s' = { s with flags := s.flags.or flags }
  | .audit event, s, r, s' => s' = { s with log := s.log ++ [.audited event r] }
  | .copyBody, s, _, s' => s' = s

/-- Cancellation comes at any time; `Close` then waits for the handlers and clears the map. -/
inductive Env : State → State → Prop where
  | cancel (s : State) : Env s { s with cancelled := true }
  | close (s : State) (hc : s.cancelled = true) (hh : s.handlers = []) :
      Env s { s with closed := true, locks := [] }

def Spawn (cfg : Config) (sha256 : Bytes → Bytes) (_ : ℕ) (p : Prog Unit) (s s' : State) :
    Prop :=
  s' = s ∧ ((∃ r, p = serveHTTP cfg sha256 r) ∨ p = probeBackend cfg)

def system (cfg : Config) (sha256 : Bytes → Bytes) : System State ℕ Op Reply where
  act := act
  spawn := Spawn cfg sha256
  kill := fun _ _ _ => False
  env := Env

end RestFleet.Session
