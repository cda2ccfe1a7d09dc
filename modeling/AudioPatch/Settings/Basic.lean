import AudioPatch.Patch.Node

/-!
# Settings

What a compilation is told besides the patch. Hooks name portlets at which the host of the
compiled patch sends or hears messages; they can be given in two places, and what counts is
the hooks of both.
-/

namespace AudioPatch

/-- The language that code is rendered in. -/
inductive Target where
  | javascript
  | assemblyscript
deriving DecidableEq, Repr

/-- The target as it is written. -/
def Target.name : Target → String
  | .javascript => "javascript"
  | .assemblyscript => "assemblyscript"

/-- The width of a sample. -/
inductive BitDepth where
  | float32
  | float64
deriving DecidableEq, Repr

/-- The width in bits. -/
def BitDepth.bits : BitDepth → UInt32
  | .float32 => 32
  | .float64 => 64

/-- Why settings cannot be used. -/
inductive SettingsError where
  /-- There is no text to read. -/
  | unreadable
  /-- The text cannot be put where it belongs. -/
  | unwritable
  /-- The text or its shape is wrong. -/
  | malformed
  | unsupportedBitDepth (bits : UInt32)
deriving DecidableEq, Repr

/-- The error in words. -/
def SettingsError.message : SettingsError → String
  | .unreadable => "the settings cannot be read"
  | .unwritable => "the settings cannot be written"
  | .malformed => "the settings are malformed"
  | .unsupportedBitDepth bits => s!"unsupported bit depth {bits} (expected 32 or 64)"

/-- The sample width of a number of bits. -/
def BitDepth.ofBits (bits : UInt32) : Except SettingsError BitDepth :=
  if bits = 32 then .ok .float32
  else if bits = 64 then .ok .float64
  else .error (.unsupportedBitDepth bits)

/-- How many channels come in and go out. -/
structure ChannelCount where
  inputs : UInt32 := 2
  outputs : UInt32 := 2
deriving DecidableEq, Repr

/-- The format of the audio. -/
structure AudioFormat where
  bitDepth : BitDepth := .float64
  channels : ChannelCount := {}
deriving DecidableEq, Repr

/-- Portlets, by their nodes. -/
abbrev Hooks := Table NodeId (List PortletId)

namespace Hooks

/-- One more portlet, after the others of its node, unless it is there already. -/
def add (hooks : Hooks) (node : NodeId) (p : PortletId) : Hooks :=
  let listed := (hooks.find? node).getD []
  hooks.insert node (if p ∈ listed then listed else listed ++ [p])

/-- All the pairs of a node and a portlet. -/
def pairs (hooks : Hooks) : List (NodeId × PortletId) :=
  hooks.entries.flatMap fun e => e.2.map (e.1, ·)

/-- The portlets of the first hooks, then those of the second that are not among them. -/
def merge (hooks more : Hooks) : Hooks :=
  more.pairs.foldl (fun hooks e => hooks.add e.1 e.2) hooks

/-- Whether a portlet of a node is hooked. -/
def contains (hooks : Hooks) (node : NodeId) (p : PortletId) : Bool :=
  (hooks.find? node).any (·.contains p)

end Hooks

/-- The portlets that the host of the compiled patch uses. -/
structure HostPorts where
  /-- The inlets that the host sends messages to. -/
  receivers : Hooks := .empty
  /-- The outlets that the host hears. -/
  senders : Hooks := .empty
deriving DecidableEq

/-- A sample of an array. -/
abbrev Sample := Binary .single

/-- What a compilation is told besides the patch. -/
structure Settings where
  target : Target := .javascript
  audio : AudioFormat := {}
  host : HostPorts := {}
  /-- Named arrays of samples that the code can use. -/
  arrays : Table String (List Sample) := .empty
  /-- Whether names are to be readable. -/
  debug : Bool := false
  /-- The message outlets that get a listener. -/
  listeners : Hooks := .empty
  /-- The message inlets that get a caller. -/
  callers : Hooks := .empty
deriving DecidableEq

namespace Settings

/-- The inlets that get a caller, from both places. -/
def allCallers (s : Settings) : Hooks := s.callers.merge s.host.receivers

/-- The outlets that get a listener, from both places. -/
def allListeners (s : Settings) : Hooks := s.listeners.merge s.host.senders

/-- Equality up to the values of the samples: the two zeros are equal, and what is no
number equals nothing. -/
def sameValue (s t : Settings) : Bool :=
  let sameArray (a b : String × List Sample) : Bool :=
    a.1 = b.1 && a.2.length = b.2.length && (a.2.zip b.2).all fun (x, y) => x.sameValue y
  { s with arrays := .empty } = { t with arrays := .empty } &&
    s.arrays.size = t.arrays.size &&
    (s.arrays.entries.zip t.arrays.entries).all fun (a, b) => sameArray a b

end Settings

end AudioPatch
