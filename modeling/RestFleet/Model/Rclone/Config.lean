import Mathlib.Data.List.Lex
import RestFleet.Model.Rclone.Endpoint
import RestFleet.Shared.JsonText

/-! # Rclone configurations

`config.go` and the backends of `backends.go`: the restricted INI subset that is accepted, and the
canonical text that is emitted for it. -/

namespace RestFleet.Rclone

def maxConfigBytes : ℕ := 256 * 1024

/-! ## Maps of strings -/

abbrev Fields := List (Text × Text)

namespace Fields

def has (m : Fields) (k : Text) : Bool := m.any (·.1 = k)

def get (m : Fields) (k : Text) : Text := ((m.find? (·.1 = k)).map (·.2)).getD []

def set (m : Fields) (k v : Text) : Fields :=
  if m.has k then m.map fun e => if e.1 = k then (k, v) else e else m ++ [(k, v)]

def erase (m : Fields) (k : Text) : Fields := m.filter (·.1 ≠ k)

end Fields

abbrev Sections := List (Text × Fields)

namespace Sections

def get? (s : Sections) (name : Text) : Option Fields := (s.find? (·.1 = name)).map (·.2)

def set (s : Sections) (name : Text) (m : Fields) : Sections :=
  s.map fun e => if e.1 = name then (name, m) else e

end Sections

def allowedKeys (m : Fields) (allowed : List String) : Bool :=
  m.all fun e => allowed.any fun option => option.toList = e.1

def sortStrings (names : List Text) : List Text := names.mergeSort fun a b => !(b < a : Bool)

/-! ## Checks of values -/

def remotePattern (name : Text) : Bool :=
  name.head?.any Char.isAlpha && 2 ≤ name.length && name.length ≤ 64 &&
    name.all fun c => isAlnum c || c = '_' || c = '-'

def drivePattern (s : Text) : Bool :=
  1 ≤ s.length && s.length ≤ 256 && s.all fun c => isAlnum c || c = '!' || c = '_' || c = '-'

def googleIDPattern (s : Text) : Bool :=
  1 ≤ s.length && s.length ≤ 256 && s.all fun c => isAlnum c || c = '_' || c = '-'

def googleClientPattern (s : Text) : Bool :=
  let suffix := ".apps.googleusercontent.com".toList
  let name := s.take (s.length - suffix.length)
  s.hasSuffix suffix && name ≠ [] && name.all fun c => isAlnum c || c = '_' || c = '-'

/-- `obscured`: the alphabet and the length decide; a line break would be skipped. -/
def obscured (value : Text) : Bool :=
  let digits := value.filter fun c => c ≠ '\r' && c ≠ '\n'
  let length := digits.length * 6 / 8
  digits.all (fun c => isAlnum c || c = '-' || c = '_') && digits.length % 4 ≠ 1 &&
    16 < length && length ≤ 4096

def cleanRelativeStep (done : List Text) (part : Text) : List Text :=
  if part = [] || part = ['.'] then done
  else if part = ['.', '.'] then
    if done = [] || done.getLast? = some ['.', '.'] then done ++ [part] else done.dropLast
  else done ++ [part]

def cleanRelative (path : Text) : Text :=
  let parts := (path.split '/').foldl cleanRelativeStep []
  if parts.isEmpty then ['.'] else List.intercalate ['/'] parts

def safeRoot (root : Text) : Bool :=
  root = [] ||
    (root.byteLength ≤ 512 && !root.hasPrefix ['/'] && root ≠ ['.'] && root ≠ ['.', '.'] &&
      !root.hasPrefix ['.', '.', '/'] && cleanRelative root = root &&
      !root.any (fun c => c = '\\' || c = ':' || c = '%') && !root.hasControl)

/-! ## Tokens -/

/-- `time.Time` in JSON: a time is read back from its text. -/
structure Times (τ : Type) where
  zero : τ
  isZero : τ → Bool
  parse : Text → Option τ
  format : τ → Option Text
  isZero_zero : isZero zero = true
  parse_format : ∀ t s, format t = some s → parse s = some t
  plain : ∀ t s, format t = some s → s.hasControl = false

variable {τ : Type}

/-- What the standard library knows about times and addresses. -/
structure Site (τ : Type) where
  times : Times τ
  netip : Netip

structure Token (τ : Type) where
  accessToken : Text
  tokenType : Text
  refreshToken : Text
  expiry : τ

/-- `decoder.Decode`, which refuses unknown fields. -/
def Token.decode (times : Times τ) : Json → Option (Token τ)
  | .null => some ⟨[], [], [], times.zero⟩
  | .obj ms => do
    if !ms.all (fun m => ["access_token", "token_type", "refresh_token", "expiry"].any fun name =>
      Json.sameKey name.toList m.1) then none
    let accessToken ← Json.field "access_token".toList Json.decodeStr [] ms
    let tokenType ← Json.field "token_type".toList Json.decodeStr [] ms
    let refreshToken ← Json.field "refresh_token".toList Json.decodeStr [] ms
    let expiry ← Json.field "expiry".toList (Json.decodeText times.parse) times.zero ms
    pure ⟨accessToken, tokenType, refreshToken, expiry⟩
  | _ => none

def Token.valid (times : Times τ) (t : Token τ) : Bool :=
  t.accessToken ≠ [] && t.refreshToken ≠ [] && t.tokenType = "Bearer".toList &&
    !times.isZero t.expiry && !t.accessToken.hasControl && !t.refreshToken.hasControl

def Token.encode (times : Times τ) (t : Token τ) : Option Text :=
  (times.format t.expiry).map fun expiry => Json.render (.obj [
    ("access_token".toList, .str t.accessToken), ("token_type".toList, .str t.tokenType),
    ("refresh_token".toList, .str t.refreshToken), ("expiry".toList, .str expiry)])

/-- `normalizeToken`, on the text of the token. -/
def canonicalToken (times : Times τ) (text : Text) : Option Text := do
  let j ← Json.parse text
  let token ← Token.decode times j
  if token.valid times then token.encode times else none

def normalizeToken (times : Times τ) (cloud : Fields) : Option Fields :=
  (canonicalToken times (cloud.get "token".toList)).map (cloud.set "token".toList)

/-! ## Backends -/

def optional (value : Text) (check : Text → Bool) : Bool := value = [] || check value

def validateOneDrive (times : Times τ) (cloud : Fields) : Option Fields :=
  let driveType := cloud.get "drive_type".toList
  if !allowedKeys cloud
        ["type", "token", "drive_id", "drive_type", "client_id", "client_secret", "region"] ||
      !drivePattern (cloud.get "drive_id".toList) ||
      !(driveType = "personal".toList || driveType = "business".toList ||
        driveType = "documentLibrary".toList) ||
      !optional (cloud.get "region".toList) (· = "global".toList) ||
      !optional (cloud.get "client_id".toList) drivePattern ||
      4096 < (cloud.get "client_secret".toList).byteLength then none
  else normalizeToken times (cloud.set "region".toList "global".toList)

def validateDrive (times : Times τ) (cloud : Fields) : Option Fields :=
  let rootFolder := cloud.get "root_folder_id".toList
  let teamDrive := cloud.get "team_drive".toList
  if !allowedKeys cloud
        ["type", "token", "client_id", "client_secret", "scope", "root_folder_id", "team_drive"] ||
      256 < (cloud.get "client_id".toList).byteLength ||
      !googleClientPattern (cloud.get "client_id".toList) ||
      cloud.get "client_secret".toList = [] || 4096 < (cloud.get "client_secret".toList).byteLength ||
      (rootFolder = [] && teamDrive = []) || rootFolder = "root".toList || teamDrive = "root".toList ||
      !optional rootFolder googleIDPattern || !optional teamDrive googleIDPattern then none
  else
    let cloud := if cloud.get "scope".toList = [] then cloud.set "scope".toList "drive".toList else cloud
    let scope := cloud.get "scope".toList
    if scope = "drive".toList || scope = "drive.file".toList then normalizeToken times cloud else none

def basicAuth (cloud : Fields) : Bool :=
  let user := cloud.get "user".toList
  user ≠ [] && user.byteLength ≤ 1024 && !user.contains ':' && obscured (cloud.get "pass".toList) &&
    cloud.get "bearer_token".toList = []

def bearerAuth (cloud : Fields) : Bool :=
  let token := cloud.get "bearer_token".toList
  cloud.get "user".toList = [] && cloud.get "pass".toList = [] && token ≠ [] &&
    token.byteLength ≤ 8192

def vendors : List String := ["other", "nextcloud", "owncloud", "fastmail", "rclone"]

def validateWebDAV (netip : Netip) (cloud : Fields) : Option Fields :=
  if !allowedKeys cloud ["type", "url", "vendor", "user", "pass", "bearer_token"] then none
  else
    let vendor := cloud.get "vendor".toList
    if vendor ≠ [] && !vendors.any (fun v => v.toList = vendor) then none
    else
      let cloud := if vendor = [] then cloud.set "vendor".toList "other".toList else cloud
      if !basicAuth cloud && !bearerAuth cloud then none
      else (webDAVURL netip (cloud.get "url".toList)).map fun endpoint =>
        cloud.set "url".toList endpoint.string

def validateBackend (site : Site τ) (cloud : Fields) : Option Fields :=
  let type := cloud.get "type".toList
  if type = "onedrive".toList then validateOneDrive site.times cloud
  else if type = "drive".toList then validateDrive site.times cloud
  else if type = "webdav".toList then validateWebDAV site.netip cloud
  else none

/-! ## Texts -/

/-- A field of the current section, which is the last one. -/
def addField : Sections → Text → Text → Option Sections
  | [], _, _ => none
  | [(name, m)], k, v => if m.has k then none else some [(name, m ++ [(k, v)])]
  | s :: rest, k, v => (addField rest k v).map (s :: ·)

def readLine (sections : Sections) (line : Text) : Option Sections :=
  let line := line.trimSpace
  if line = [] || line.head? = some '#' || line.head? = some ';' then some sections
  else if line.hasControl then none
  else if line.head? = some '[' && line.getLast? = some ']' then
    let name := line.tail.dropLast
    if !remotePattern name || (sections.get? name).isSome || sections.length = 2 then none
    else some (sections ++ [(name, [])])
  else match line.cut '=' with
    | none => none
    | some (key, value) => addField sections key.trimSpace value.trimSpace

def readSections (raw : Text) : Option Sections := (raw.split '\n').foldlM readLine []

structure Config where
  sections : Sections
  remote : Text

def validCrypt (crypt : Fields) : Bool :=
  crypt.get "type".toList = "crypt".toList &&
    allowedKeys crypt ["type", "remote", "password", "password2", "filename_encryption",
      "directory_name_encryption"] &&
    obscured (crypt.get "password".toList) && optional (crypt.get "password2".toList) obscured &&
    optional (crypt.get "filename_encryption".toList) (· = "standard".toList) &&
    optional (crypt.get "directory_name_encryption".toList) (· = "true".toList)

def normalizeCrypt (crypt : Fields) : Fields :=
  (crypt.set "filename_encryption".toList "standard".toList).set
    "directory_name_encryption".toList "true".toList

/-- The socket of a materialised configuration is taken out again. -/
def takeSocket (socket : Text) (cloud : Fields) : Option Fields :=
  if socket = [] then some cloud
  else if cloud.get "type".toList ≠ "webdav".toList || cloud.get "unix_socket".toList ≠ socket then none
  else some (cloud.erase "unix_socket".toList)

def parseConfig (site : Site τ) (raw remote socket : Text) : Option Config := do
  if raw = [] || maxConfigBytes < raw.byteLength || !remotePattern remote then none
  let sections ← readSections raw
  if sections.length ≠ 2 then none
  let crypt ← sections.get? remote
  if !validCrypt crypt then none
  let (upstream, root) ← (crypt.get "remote".toList).cut ':'
  if upstream = remote || !safeRoot root then none
  let cloud ← sections.get? upstream
  let cloud ← takeSocket socket cloud
  let cloud ← validateBackend site cloud
  pure ⟨(sections.set remote (normalizeCrypt crypt)).set upstream cloud, remote⟩

def ParseConfig (site : Site τ) (raw remote : Text) : Option Config := parseConfig site raw remote []

namespace Config

def upstream (c : Config) : Text :=
  let remote := ((c.sections.get? c.remote).getD []).get "remote".toList
  (remote.cut ':').elim remote (·.1)

def cloud (c : Config) : Fields := (c.sections.get? c.upstream).getD []

def backend (c : Config) : Text := c.cloud.get "type".toList

def sectionBytes (name : Text) (m : Fields) : Text :=
  let keys := sortStrings ((m.filter (·.2 ≠ [])).map (·.1))
  '[' :: name ++ ']' :: '\n' ::
    (keys.flatMap fun k => k ++ " = ".toList ++ m.get k ++ ['\n']) ++ ['\n']

def bytes (c : Config) : Text :=
  (sortStrings (c.sections.map (·.1))).flatMap fun name =>
    sectionBytes name ((c.sections.get? name).getD [])

end Config

/-- One direction of the comparison of two sections of `type`. -/
def sameFields (type : Text) (replace : Bool) (a b : Fields) : Bool :=
  let oauth := type = "onedrive".toList || type = "drive".toList
  a.all fun e =>
    if oauth && (e.1 = "token".toList ||
        (replace && (e.1 = "client_id".toList || e.1 = "client_secret".toList))) then true
    else if replace && type = "webdav".toList &&
        (e.1 = "pass".toList || e.1 = "bearer_token".toList) then
      (e.2 = [] : Bool) = (b.get e.1 = [] : Bool)
    else b.get e.1 = e.2

namespace Config

def sameConfig (c other : Config) (replace : Bool) : Bool :=
  c.remote = other.remote && c.sections.length = other.sections.length &&
    c.sections.all fun s =>
      match other.sections.get? s.1 with
      | none => false
      | some next =>
        let type := s.2.get "type".toList
        sameFields type replace s.2 next && sameFields type replace next s.2

def SameExceptToken (c other : Config) : Bool := c.sameConfig other false

def SameTarget (c other : Config) : Bool := c.sameConfig other true

end Config

end RestFleet.Rclone
