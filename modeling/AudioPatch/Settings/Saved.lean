import AudioPatch.Document.Toml.Printer
import AudioPatch.Document.Toml.Reader
import AudioPatch.Settings.Basic

/-!
# Saved settings

Settings are saved as a table. When a table is read, what is missing has its default and
what is unknown is passed over; of several mistakes the first in the order of the table is
reported.
-/

namespace AudioPatch

/-! ### Writing -/

/-- Hooks as a table of lists. -/
def Hooks.save (hooks : Hooks) : Value :=
  .table (hooks.entries.map fun e => (e.1, .list (e.2.map fun p => .int p.toNat)))

/-- Arrays as a table of lists. -/
def saveArrays (arrays : Table String (List Sample)) : Value :=
  .table (arrays.entries.map fun e => (e.1, .list (e.2.map fun x => .float x.convert)))

namespace Settings

/-- The fields of saved settings. -/
def save (s : Settings) : List (String × Value) :=
  [("target", .string s.target.name),
   ("audio", .table
    [("bitDepth", .int s.audio.bitDepth.bits.toNat),
     ("channelCount", .table
      [("in", .int s.audio.channels.inputs.toNat),
       ("out", .int s.audio.channels.outputs.toNat)])]),
   ("io", .table
    [("messageReceivers", s.host.receivers.save),
     ("messageSenders", s.host.senders.save)]),
   ("arrays", saveArrays s.arrays),
   ("debug", .bool s.debug),
   ("outletListenerSpecs", s.listeners.save),
   ("inletCallerSpecs", s.callers.save)]

/-- The settings as TOML text. -/
def toToml (s : Settings) : String := Toml.print s.save

end Settings

/-! ### Reading -/

/-- What a reader found, or the remark that the shape is wrong. -/
def orMalformed {α : Type} : Option α → Except SettingsError α
  | some a => .ok a
  | none => .error .malformed

/-- The target that a value names. -/
def Target.load (layout : Layout) (v : Value) : Except SettingsError Target :=
  match v.variant? layout with
  | some "javascript" => .ok .javascript
  | some "assemblyscript" => .ok .assemblyscript
  | _ => .error .malformed

/-- The sample width that a value gives. -/
def BitDepth.load (v : Value) : Except SettingsError BitDepth := do
  BitDepth.ofBits (← orMalformed v.uint32?)

/-- The channel counts that a record gives, both of which it must give. -/
def ChannelCount.load (layout : Layout) (v : Value) : Except SettingsError ChannelCount := do
  let step (c : Option UInt32 × Option UInt32) (f : String × Value) :
      Except SettingsError (Option UInt32 × Option UInt32) := do
    match f.1 with
    | "in" => return (some (← orMalformed f.2.uint32?), c.2)
    | "out" => return (c.1, some (← orMalformed f.2.uint32?))
    | _ => return c
  match ← (← orMalformed (v.record? layout ["in", "out"])).foldlM step (none, none) with
  | (some inputs, some outputs) => return ⟨inputs, outputs⟩
  | _ => .error .malformed

/-- The audio format that a record gives. -/
def AudioFormat.load (layout : Layout) (v : Value) : Except SettingsError AudioFormat := do
  let step (a : AudioFormat) (f : String × Value) : Except SettingsError AudioFormat := do
    match f.1 with
    | "bitDepth" => return { a with bitDepth := ← BitDepth.load f.2 }
    | "channelCount" => return { a with channels := ← ChannelCount.load layout f.2 }
    | _ => return a
  (← orMalformed (v.record? layout ["bitDepth", "channelCount"])).foldlM step {}

/-- The table of lists that a value gives. -/
def loadLists {α : Type} (item? : Value → Option α) (v : Value) :
    Except SettingsError (Table String (List α)) :=
  orMalformed do
    let entries ← (← v.table?).mapM fun f => do
      return (f.1, ← (← f.2.list?).mapM item?)
    return .ofList entries

/-- The hooks that a value gives. -/
def Hooks.load (v : Value) : Except SettingsError Hooks := loadLists Value.uint32? v

/-- The ports of the host that a record gives. -/
def HostPorts.load (layout : Layout) (v : Value) : Except SettingsError HostPorts := do
  let step (h : HostPorts) (f : String × Value) : Except SettingsError HostPorts := do
    match f.1 with
    | "messageReceivers" => return { h with receivers := ← Hooks.load f.2 }
    | "messageSenders" => return { h with senders := ← Hooks.load f.2 }
    | _ => return h
  (← orMalformed (v.record? layout ["messageReceivers", "messageSenders"])).foldlM step {}

namespace Settings

/-- The names of the fields of settings, in their order. -/
def fieldNames : List String :=
  ["target", "audio", "io", "arrays", "debug", "outletListenerSpecs", "inletCallerSpecs"]

/-- The settings with one field read. -/
def loadField (layout : Layout) (s : Settings) (f : String × Value) :
    Except SettingsError Settings := do
  match f.1 with
  | "target" => return { s with target := ← Target.load layout f.2 }
  | "audio" => return { s with audio := ← AudioFormat.load layout f.2 }
  | "io" => return { s with host := ← HostPorts.load layout f.2 }
  | "arrays" => return { s with arrays := ← loadLists Value.number? f.2 }
  | "debug" => return { s with debug := ← orMalformed f.2.bool? }
  | "outletListenerSpecs" => return { s with listeners := ← Hooks.load f.2 }
  | "inletCallerSpecs" => return { s with callers := ← Hooks.load f.2 }
  | _ => return s

/-- The settings that a record gives in a document of some layout. -/
def load (layout : Layout) (v : Value) : Except SettingsError Settings := do
  (← orMalformed (v.record? layout fieldNames)).foldlM (loadField layout) {}

/-- The settings in a TOML text. -/
def ofToml (text : String) : Except SettingsError Settings :=
  match Toml.read? text with
  | some fields => load Toml.layout (.table fields)
  | none => .error .malformed

/-- The settings in a file, given its content if there is one. -/
def ofFile (content : Option ByteArray) : Except SettingsError Settings :=
  match content.bind String.fromUTF8? with
  | some text => ofToml text
  | none => .error .unreadable

end Settings

end AudioPatch
