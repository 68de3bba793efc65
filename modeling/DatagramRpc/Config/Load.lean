import DatagramRpc.Config.Record
import DatagramRpc.Config.Settings
import DatagramRpc.Fault
import DatagramRpc.Text.Pieces
import DatagramRpc.Text.Utf8

/-!
# Settings from files

What comes of reading at a path, and the settings that a text stands for.
-/

namespace DatagramRpc.Config

/-! ## Paths

What reading at a path gives where no file exists, and no directory but those that dots lead to. A
path is looked up name by name, and the first name that is not there decides.
-/

/-- The content of a file, or why there is none. -/
abbrev Reading := Except SystemError (List UInt8)

/-- The most bytes in one name of a path. -/
def greatestName : Nat := 255

/-- The most bytes in a path. -/
def greatestPath : Nat := 4095

/-- Names that stay among the directories that are there. -/
def staysPut (name : String) : Bool := ["", ".", ".."].contains name

/-- The names between the slashes of a path. -/
def readNames (names : List String) : SystemError :=
  match names.find? fun name => !staysPut name with
  | none => .isDirectory
  | some name => if greatestName < name.utf8ByteSize then .nameTooLong else .notFound

/-- Reading at a path where no file exists. -/
def readBare (path : String) : Reading :=
  .error <|
    if path.contains '\x00' then .nulInName
    else if path.isEmpty then .notFound
    else if greatestPath < path.utf8ByteSize then .nameTooLong
    else readNames (Text.pieces '/' path)

/-! ## Loading settings

Settings are written as a YAML document of nested records. Only the version has to be there;
whatever else is left out has its default. Settings that can be read are then checked.
-/

open Yaml

def opening : Reads Opening := fun n => do
  let r ← record ["day", "start", "end"] n
  return ⟨← r.required "day" (oneOf Weekday.all Weekday.name), ← r.required "start" text,
    ← r.required "end" text⟩

def facilitySettings : Reads FacilitySettings := fun n => do
  let r ← record ["name", "open"] n
  return ⟨← r.required "name" text, ← r.optional "open" (listOf opening) []⟩

/-- The sizes and delays are numbers of 64 bits. -/
def simulation : Reads Simulation := fun n => do
  let r ← record ["drop_rate", "min_delay_ms", "max_delay_ms"] n
  let d := Simulation.default
  return ⟨← r.optional "drop_rate" double d.dropRate,
    ← r.optional "min_delay_ms" (whole 64) d.minDelay,
    ← r.optional "max_delay_ms" (whole 64) d.maxDelay⟩

/-- The part of the settings about the socket and about requests that are seen again, over
others. -/
def serverPart (s : Settings) : Reads Settings := fun n => do
  let r ← record ["listen", "max_datagram_bytes", "semantics"] n
  return { s with
    listen := ← r.optional "listen" text s.listen
    maxDatagramBytes := ← r.optional "max_datagram_bytes" (whole 64) s.maxDatagramBytes
    semantics := ← r.optional "semantics" (oneOf Semantics.all Semantics.name) s.semantics }

/-- The part of the settings about the history. -/
def historyPart (s : Settings) : Reads Settings := fun n => do
  let r ← record ["max_entries"] n
  return { s with maxEntries := ← r.optional "max_entries" (whole 64) s.maxEntries }

def settings : Reads Settings := fun n => do
  let r ← record ["version", "server", "history", "simulation", "facilities"] n
  let s := Settings.default
  let s := { s with version := ← r.required "version" (whole 32) }
  let s ← r.optional "server" (serverPart s) s
  let s ← r.optional "history" (historyPart s) s
  let simulation ← r.optional "simulation" simulation s.simulation
  let facilities ← r.optional "facilities" (listOf facilitySettings) s.facilities
  return { s with simulation, facilities }

/-- Settings from a text. -/
def load (content : String) : Except Fault Settings := do
  match (Document.ofText? content).bind (·.walk settings) with
  | none => throw (.badRequest .configSyntax)
  | some s =>
    s.check
    return s

/-- Settings from a file. -/
def loadFile (path : String) (r : Reading) : Except Fault Settings :=
  match r with
  | .error e => .error (.internal (.configUnreadable path e))
  | .ok content =>
    match Text.decodeUtf8 content with
    | .ok s => load s
    | .error _ => .error (.internal (.configUnreadable path .notUtf8))

/-- Settings from a file, the defaults if there is none. -/
def loadFileOrDefault (path : String) (r : Reading) : Except Fault Settings :=
  match r with
  | .error .notFound => .ok .default
  | r => loadFile path r

end DatagramRpc.Config
