import Mathlib.Data.List.DropRight
import RestFleet.Model.Pending
import RestFleet.Model.Strings

/-! # Configuration of the gateway service

`gateway/service_config_linux.go`: the configuration of a gateway process and its validation. What
`net` does with the listen address is a parameter. -/

namespace RestFleet

structure Net where
  splitHostPort : Text → Option (Text × Text)
  parseIP : Text → Bool
  joinHostPort : Text → Text → Text

def Text.dir (path : Text) : Text := Text.cleanAbs (path.rdropWhile (· ≠ '/'))

def parseUint16 (s : Text) : Option ℕ :=
  if s.isEmpty || !s.all Char.isDigit then none
  else (s.atoi.map Int.toNat).filter (· < 2 ^ 16)

structure ServiceRepository where
  binding : GatewayAuthorizationBinding
  sourceFile : Text
  queueDirectory : Text
  materialSocket : Text
  authoritySocket : Text

structure ServiceConfig where
  version : ℤ
  environment : Text
  centralPinFile : Text
  auditOrigin : GatewayAuditBinding
  auditSourceFile : Text
  recipientPublic : Bytes
  auditQueueDirectory : Text
  maxBytes : ℤ
  maxRecords : ℤ
  runtimeDirectory : Text
  rcloneBinary : Text
  certificateFile : Text
  tlsKeyFile : Text
  clientCAFile : Text
  listenAddress : Text
  maxSessions : ℤ
  serverUID : UInt32
  sharedGroup : UInt32
  replaySocket : Text
  startupWaitSeconds : ℤ
  repositories : List ServiceRepository

def servicePathsOverlap (a b : Text) : Bool :=
  a = b || a.hasPrefix (b ++ ['/']) || b.hasPrefix (a ++ ['/'])

namespace ServiceConfig

variable (s : ServiceConfig)

def production : Bool := s.environment = "production".toList

def validLimits : Bool :=
  s.version = 1 &&
    (s.production || s.environment = "development".toList || s.environment = "test".toList) &&
    s.auditOrigin.validate && s.recipientPublic.length = 32 &&
    s.recipientPublic ≠ List.replicate 32 0 &&
    maxGatewayPendingSize + 16 * 1024 ≤ s.maxBytes && s.maxBytes ≤ 64 * 1024 * 1024 &&
    1 ≤ s.maxRecords && s.maxRecords ≤ 4096 && 1 ≤ s.maxSessions && s.maxSessions ≤ 32 &&
    1 ≤ s.repositories.length && s.repositories.length ≤ 32 &&
    1 ≤ s.startupWaitSeconds && s.startupWaitSeconds ≤ 300 &&
    s.serverUID ≠ ~~~0 && s.sharedGroup ≠ ~~~0

def validUser (uid : UInt32) : Bool :=
  !(s.sharedGroup = 0 && s.serverUID ≠ uid) &&
    !(s.sharedGroup ≠ 0 && (uid = 0 || s.serverUID = 0 || s.serverUID = uid)) &&
    !(s.production && (uid = 0 || s.sharedGroup = 0))

def validListenAddress (net : Net) : Bool :=
  match net.splitHostPort s.listenAddress with
  | none => false
  | some (host, port) =>
    match parseUint16 port with
    | none => false
    | some n => net.parseIP host && Nat.toDigits 10 n = port &&
      net.joinHostPort host port = s.listenAddress && !(s.production && n = 0)

def validRepositories : Bool :=
  s.repositories.all (fun r => r.binding.validate && r.binding.runtimeID = s.auditOrigin.runtimeID &&
    r.materialSocket.byteLength ≤ 107 && r.authoritySocket.byteLength ≤ 107) &&
  [GatewayAuthorizationBinding.admissionID, (·.hostID), (·.repositoryID), (·.gatewayID)].all fun id =>
    (s.repositories.map fun r => id r.binding).Nodup

def paths : List Text :=
  [s.centralPinFile, s.auditSourceFile, s.auditQueueDirectory, s.runtimeDirectory, s.rcloneBinary,
    s.certificateFile, s.tlsKeyFile, s.replaySocket] ++
  (if s.clientCAFile = [] then [] else [s.clientCAFile]) ++
  s.repositories.flatMap fun r => [r.sourceFile, r.queueDirectory, r.materialSocket, r.authoritySocket]

def privateDirs : List Text :=
  [s.auditQueueDirectory, s.runtimeDirectory] ++ s.repositories.map (·.queueDirectory)

def keyDirs : List Text :=
  ([s.centralPinFile, s.auditSourceFile, s.certificateFile, s.tlsKeyFile] ++
    (if s.clientCAFile = [] then [] else [s.clientCAFile]) ++
    s.repositories.map (·.sourceFile)).map Text.dir

def ipcDirs : List Text :=
  (s.replaySocket :: s.repositories.flatMap fun r => [r.materialSocket, r.authoritySocket]).map
    Text.dir

def validPaths : Bool :=
  s.paths.all (fun path => path.isAbs && path.cleanAbs = path && path ≠ ['/'] && !path.hasControl) &&
    s.paths.Nodup && s.replaySocket.byteLength ≤ 107

def noOverlap : Bool :=
  s.privateDirs.Pairwise (fun dir other => servicePathsOverlap dir other = false) &&
    s.privateDirs.all (fun dir => (s.keyDirs ++ s.ipcDirs).all fun other =>
      !servicePathsOverlap dir other) &&
    s.keyDirs.all fun dir => s.ipcDirs.all fun ipc => !servicePathsOverlap dir ipc

/-- `ServiceConfig.Validate`; every failed check has the same error. -/
def validate (net : Net) (uid : UInt32) : Bool :=
  s.validLimits && s.validUser uid && s.validListenAddress net && s.validRepositories &&
    s.validPaths && s.noOverlap

end ServiceConfig

end RestFleet
