import TwinLink.Json.Reader
import TwinLink.Link.Error
import TwinLink.Session.Config
import TwinLink.Text.Utf8

/-!
# Settings

* `Settings` : what the application may configure, with defaults for all of it;
* `Settings.parse?` : settings from JSON, either an object or an array in the order of the fields;
* `Settings.validate` : the first setting that cannot work;
* `Settings.ofJson`, `Settings.load` : both together, from a text and from a file;
* `Settings.sessionConfig`, `Settings.port`, `Settings.openPort` : what a session is given.
-/

namespace TwinLink

/-- What the application may configure. Times are in milliseconds. -/
structure Settings where
  comPort : Option String := none
  useDeviceInterface : Bool := false
  baudRate : Nat := 115200
  revision : Revision := .v2
  requestTimeout : Nat := 5000
  handshakeRetries : Nat := 3
  retryDelay : Nat := 5000
  maxFrameSize : Nat := Frame.defaultLimit
  eventCapacity : Nat := 256
deriving DecidableEq, Repr

/-- A setting that cannot work. -/
inductive SettingsError
  | zeroBaudRate
  | zeroRequestTimeout
  | frameSizeOutOfRange (size : Nat)
  | zeroEventCapacity
  | noPort
deriving DecidableEq, Repr

/-- The message that reports a setting that cannot work. -/
def SettingsError.message : SettingsError → String
  | zeroBaudRate => "baud_rate must be greater than zero"
  | zeroRequestTimeout => "request_timeout_ms must be greater than zero"
  | frameSizeOutOfRange size =>
    let low := Frame.headerSize
    let high := Frame.maxLength
    s!"max_frame_size {size} outside {low}..={high}"
  | zeroEventCapacity => "event_capacity must be greater than zero"
  | noPort => "set com_port or enable use_com_device_interface"

/-- Why settings could not be had from a text. -/
inductive SettingsFailure
  | malformed
  | invalid (e : SettingsError)
deriving DecidableEq, Repr

/-- The messages of a failure and its causes, outermost first, `detail` being what the JSON reader says. -/
def SettingsFailure.chain (detail : String) : SettingsFailure → List String
  | malformed => ["invalid bridge configuration", detail]
  | invalid e => [e.message]

/-- Why settings could not be had from a file. -/
inductive LoadFailure
  | missing
  | notText
  | unusable (e : SettingsFailure)
deriving DecidableEq, Repr

/-- The messages of a failure and its causes, outermost first. -/
def LoadFailure.chain (path detail : String) : LoadFailure → List String
  | missing => ["failed to read " ++ path, detail]
  | notText => ["failed to read " ++ path, detail]
  | unusable e => ("failed to load " ++ path) :: e.chain detail

namespace Settings

/-! ## Reading -/

/-- The fields of the settings, in order. -/
inductive Key
  | comPort
  | useDeviceInterface
  | baudRate
  | revision
  | requestTimeout
  | handshakeRetries
  | retryDelay
  | maxFrameSize
  | eventCapacity
deriving DecidableEq, Repr

namespace Key

def all : List Key :=
  [comPort, useDeviceInterface, baudRate, revision, requestTimeout, handshakeRetries, retryDelay, maxFrameSize,
    eventCapacity]

def name : Key → String
  | comPort => "com_port"
  | useDeviceInterface => "use_com_device_interface"
  | baudRate => "baud_rate"
  | revision => "protocol_revision"
  | requestTimeout => "request_timeout_ms"
  | handshakeRetries => "handshake_retries"
  | retryDelay => "retry_delay_ms"
  | maxFrameSize => "max_frame_size"
  | eventCapacity => "event_capacity"

def ofName? (name : String) : Option Key := all.find? (·.name == name)

end Key

def port? : JsonValue → Option (Option String)
  | .null => some none
  | .text s => some (some s)
  | _ => none

def flag? : JsonValue → Option Bool
  | .bool b => some b
  | _ => none

/-- A whole number below `bound`. -/
def below? (bound : Nat) : JsonValue → Option Nat
  | .whole n => if n < bound then some n else none
  | _ => none

def revisionName? (name : String) : Option Revision := [Revision.v1, .v2].find? (·.name == name)

/-- A revision is named by a string, or by the only key of an object that maps it to null. -/
def revision? : JsonValue → Option Revision
  | .text s => revisionName? s
  | .object [(some key, .null)] => revisionName? key
  | _ => none

/-- Set one field. -/
def set? (s : Settings) (x : JsonValue) : Key → Option Settings
  | .comPort => (port? x).map fun v => { s with comPort := v }
  | .useDeviceInterface => (flag? x).map fun v => { s with useDeviceInterface := v }
  | .baudRate => (below? (Bytes.span 4) x).map fun v => { s with baudRate := v }
  | .revision => (revision? x).map fun v => { s with revision := v }
  | .requestTimeout => (below? (Bytes.span 8) x).map fun v => { s with requestTimeout := v }
  | .handshakeRetries => (below? (Bytes.span 4) x).map fun v => { s with handshakeRetries := v }
  | .retryDelay => (below? (Bytes.span 8) x).map fun v => { s with retryDelay := v }
  | .maxFrameSize => (below? (Bytes.span 8) x).map fun v => { s with maxFrameSize := v }
  | .eventCapacity => (below? (Bytes.span 8) x).map fun v => { s with eventCapacity := v }

/-- Set the fields of an object. Keys that mean nothing are passed over; one that means a field may come once. -/
def setFields? (s : Settings) (seen : List Key) : List (Option String × JsonValue) → Option Settings
  | [] => some s
  | (none, _) :: _ => none
  | (some name, x) :: rest =>
    match Key.ofName? name with
    | none => setFields? s seen rest
    | some key => if seen.contains key then none else (set? s x key).bind fun s => setFields? s (key :: seen) rest

/-- Set the fields of an array in order. It may be too short but not too long. -/
def setItems? (s : Settings) : List Key → List JsonValue → Option Settings
  | _, [] => some s
  | [], _ :: _ => none
  | key :: keys, x :: xs => (set? s x key).bind fun s => setItems? s keys xs

def ofValue? : JsonValue → Option Settings
  | .object fields => setFields? {} [] fields
  | .array items => setItems? {} Key.all items
  | _ => none

/-- Settings from JSON. -/
def parse? (json : String) : Option Settings := (JsonValue.parse? json.toList).bind ofValue?

/-! ## Checking -/

/-- The first setting that cannot work. -/
def validate (s : Settings) : Except SettingsError Unit :=
  if s.baudRate = 0 then .error .zeroBaudRate
  else if s.requestTimeout = 0 then .error .zeroRequestTimeout
  else if s.maxFrameSize < Frame.headerSize ∨ Frame.maxLength < s.maxFrameSize then
    .error (.frameSizeOutOfRange s.maxFrameSize)
  else if s.eventCapacity = 0 then .error .zeroEventCapacity
  else if s.comPort.isNone && !s.useDeviceInterface then .error .noPort
  else .ok ()

/-- Settings from JSON that have been checked. -/
def ofJson (json : String) : Except SettingsFailure Settings :=
  match parse? json with
  | none => .error .malformed
  | some s =>
    match s.validate with
    | .ok () => .ok s
    | .error e => .error (.invalid e)

/-- Settings from a file, if there is one. -/
def load (content : Option Bytes) : Except LoadFailure Settings :=
  match content with
  | none => .error .missing
  | some bytes =>
    match Text.ofUtf8? bytes with
    | none => .error .notText
    | some json => (ofJson json).mapError .unusable

/-! ## Use -/

/-- The port to open. -/
inductive Port
  | named (name : String)
  | discovered
  | unset
deriving DecidableEq, Repr

/-- A port that is named comes first, then the first one there is if that is wanted. -/
def port (s : Settings) : Port :=
  match s.comPort with
  | some name => .named name
  | none => if s.useDeviceInterface then .discovered else .unset

/-- The name of the port, `present` listing the ports there are. -/
def Port.resolve (present : List String) : Port → Except LinkError String
  | .named name => .ok name
  | .discovered =>
    match present with
    | name :: _ => .ok name
    | [] => .error (.portNotFound "no serial ports available")
  | .unset => .error (.portNotFound "no com_port configured")

/-- The port that a session is connected to. Opening one that is not there fails. -/
def openPort (s : Settings) (present : List String) : Except LinkError String :=
  match s.port.resolve present with
  | .error e => .error e
  | .ok name =>
    if present.contains name then .ok name else .error (.connectionFailed (name ++ ": No such file or directory"))

def linkConfig (s : Settings) : LinkConfig :=
  { maxFrameSize := s.maxFrameSize, eventCapacity := s.eventCapacity }

def sessionConfig (s : Settings) (portName : String) : SessionConfig where
  portName := portName
  revision := s.revision
  requestTimeout := s.requestTimeout
  handshakeRetries := s.handshakeRetries
  retryDelay := s.retryDelay
  link := s.linkConfig

end Settings
end TwinLink
