import AudioPatch.Proofs.Document.Sections
import AudioPatch.Proofs.Patch.Saved
import AudioPatch.Settings.Saved

/-!
# Loading settings that were saved

Settings that are saved and loaded again are the same, whatever the order in which the fields of
the saved tables come. A record is read field by field, so what is loaded is what each field puts
in its place, and fields of different names do not get in each other's way. The text of settings
is read as the tables that were written, so they come back from their text as well.
-/

namespace AudioPatch

open Value

variable {v : Value} {layout : Layout}

/-! ### Records -/

section Records

variable {σ ε : Type} {step : σ → String × Value → Except ε σ} {copy : σ → String → σ}
  {saved fields : List (String × Value)}

theorem foldlM_eq_ok (hstep : ∀ f ∈ fields, ∀ state, step state f = .ok (copy state f.1))
    (state : σ) :
  fields.foldlM step state = .ok ((fields.map Prod.fst).foldl copy state)
  := by
  induction fields generalizing state with
  | nil => rfl
  | cons f rest ih =>
      obtain ⟨hf, hrest⟩ := List.forall_mem_cons.mp hstep
      rw [List.foldlM_cons, hf, ok_bind, ih hrest, List.map_cons, List.foldl_cons]

/-- A record is read to the values of its fields if reading one field puts its value in place. -/
theorem foldlM_of_fieldsReorder (copy : σ → String → σ) [RightCommutative copy]
    (h : FieldsReorder saved fields)
    (hstep : ∀ f ∈ saved, ∀ v, f.2.Reorders v → ∀ state,
      step state (f.1, v) = .ok (copy state f.1)) (state : σ) :
  fields.foldlM step state = .ok ((saved.map Prod.fst).foldl copy state)
  := by
  have hfields : ∀ f ∈ fields, ∀ state, step state f = .ok (copy state f.1) := by
    obtain ⟨moved, hmoved, hperm⟩ := h
    intro f hf
    obtain ⟨g, hg, hreorders⟩ := exists_of_mem_forall₂ hmoved.flip (hperm.mem_iff.mpr hf)
    cases hreorders with
    | mk name hv => apply hstep _ hg _ hv
  rw [h.names_perm.foldl_eq]
  apply foldlM_eq_ok hfields

end Records

/-! ### Numbers and lists -/

theorem uint32?_of_reorders {n : UInt32} (h : (Value.int n.toNat).Reorders v) :
  v.uint32? = some n
  := by
  cases h
  apply uint32?_ofUInt32

theorem number?_of_reorders {x : Sample} (hx : x.Settled)
    (h : (Value.float x.convert).Reorders v) :
  v.number? = some x
  := by
  cases h
  rw [number?, Binary.convert_convert hx]

theorem loadLists_eq {α : Type} {save : α → Value} {item? : Value → Option α}
    {t : Table String (List α)}
    (h : (Value.table (t.entries.map fun e => (e.1, .list (e.2.map save)))).Reorders v)
    (hitem : ∀ e ∈ t.entries, ∀ a ∈ e.2, ∀ v, (save a).Reorders v → item? v = some a) :
  loadLists item? v = .ok t
  := by
  obtain ⟨fields, rfl, moved, hfields, hmoved⟩ := h.exists_of_table
  rw [List.forall₂_map_left_iff] at hfields
  have hread : Relation.Comp (List.Forall₂ fun e f =>
      (do return (f.1, ← (← list? f.2).mapM item?)) = some e) List.Perm t.entries fields := by
    refine ⟨moved, ?_, hmoved⟩
    apply ((List.forall₂_and_left t.entries moved).mpr ⟨hitem, hfields⟩).imp
    rintro ⟨name, items⟩ f ⟨hitems, hf⟩
    cases hf with
    | mk _ hv =>
        have hlist := hv.mapM_list hitems
        simp only [Option.bind_eq_bind] at hlist ⊢
        rw [← Option.bind_assoc, hlist]
        rfl
  rw [List.forall₂_comp_perm_eq_perm_comp_forall₂] at hread
  obtain ⟨entries, hentries, hread⟩ := hread
  have hmap := mapM_eq_some_of_forall₂ hread
  rw [loadLists, table?]
  simp only [Option.bind_eq_bind, Option.bind_some] at hmap ⊢
  rw [hmap, Option.bind_some, Table.ofList_eq hentries]
  rfl

theorem Hooks.load_eq {hooks : Hooks} (h : hooks.save.Reorders v) :
  Hooks.load v = .ok hooks
  := by
  apply loadLists_eq h
  intro _ _ p _ v
  apply uint32?_of_reorders

theorem loadArrays_eq {arrays : Table String (List Sample)}
    (harrays : ∀ e ∈ arrays.entries, ∀ x ∈ e.2, x.Settled) (h : (saveArrays arrays).Reorders v) :
  loadLists number? v = .ok arrays
  := by
  apply loadLists_eq h
  intro e he x hx v
  apply number?_of_reorders (harrays e he x hx)

theorem exists_of_mem_mapM {α β : Type} {read? : α → Option β} {l : List α} {bs : List β}
    (h : l.mapM read? = some bs) {b : β} (hb : b ∈ bs) :
  ∃ a ∈ l, read? a = some b
  := by
  induction l generalizing bs with
  | nil =>
      obtain rfl := Option.some.inj h
      cases hb
  | cons a rest ih =>
      rw [List.mapM_cons] at h
      obtain ⟨b', hb', h⟩ := Option.bind_eq_some_iff.mp h
      obtain ⟨bs', hbs', h⟩ := Option.bind_eq_some_iff.mp h
      obtain rfl := Option.some.inj h
      rcases List.mem_cons.mp hb with rfl | hb
      · exact ⟨a, List.mem_cons_self, hb'⟩
      · obtain ⟨c, hc, hread⟩ := ih hbs' hb
        exact ⟨c, List.mem_cons_of_mem a hc, hread⟩

theorem Table.mem_of_mem_ofList {α : Type} {l : List (String × α)} {e : String × α}
    (h : e ∈ (ofList l).entries) :
  e ∈ l
  := by
  rw [ofList] at h
  refine List.foldlRecOn l _ (motive := fun t : Table String α => ∀ e ∈ t.entries, e ∈ l) ?_ ?_ e h
  · intro e he
    cases he
  · intro t ht f hf e he
    rcases eq_or_mem_of_mem_insertEntry he with rfl | he
    · exact hf
    · apply ht e he

theorem orMalformed_eq_ok_iff {α : Type} {o : Option α} {a : α} :
  orMalformed o = .ok a ↔ o = some a
  := by
  cases o with
  | none => simp [orMalformed]
  | some b => simp [orMalformed]

/-- What is in the lists was read. -/
theorem exists_item_of_loadLists {α : Type} {item? : Value → Option α}
    {t : Table String (List α)} (h : loadLists item? v = .ok t) {e : String × List α}
    (he : e ∈ t.entries) {a : α} (ha : a ∈ e.2) :
  ∃ w, item? w = some a
  := by
  rw [loadLists, orMalformed_eq_ok_iff] at h
  obtain ⟨fields, -, h⟩ := Option.bind_eq_some_iff.mp h
  obtain ⟨entries, hentries, h⟩ := Option.bind_eq_some_iff.mp h
  obtain rfl := Option.some.inj h
  obtain ⟨f, -, hf⟩ := exists_of_mem_mapM hentries (Table.mem_of_mem_ofList he)
  obtain ⟨items, -, hf⟩ := Option.bind_eq_some_iff.mp hf
  obtain ⟨as, has, hf⟩ := Option.bind_eq_some_iff.mp hf
  obtain rfl := Option.some.inj hf
  obtain ⟨w, -, hw⟩ := exists_of_mem_mapM has ha
  exact ⟨w, hw⟩

theorem settled_of_number? {f : Format} {x : Binary f} (h : v.number? = some x) :
  x.Settled
  := by
  cases v with
  | int i =>
      obtain rfl := Option.some.inj h
      apply Binary.settled_ofQuotient
  | float y =>
      obtain rfl := Option.some.inj h
      apply Binary.settled_convert
  | null | bool | string | date | list | table => cases h

/-! ### Channels, formats and ports -/

/-- The counts found so far, with the one of a name as in a record. -/
def ChannelCount.copy (c : ChannelCount) (found : Option UInt32 × Option UInt32) :
    String → Option UInt32 × Option UInt32
  | "in" => (some c.inputs, found.2)
  | "out" => (found.1, some c.outputs)
  | _ => found

instance (c : ChannelCount) : RightCommutative c.copy where
  right_comm found m n := by
    unfold ChannelCount.copy
    split <;> split <;> rfl

theorem ChannelCount.load_eq {c : ChannelCount}
    (h : (Value.table [("in", .int c.inputs.toNat), ("out", .int c.outputs.toNat)]).Reorders v) :
  ChannelCount.load layout v = .ok c
  := by
  obtain ⟨fields, rfl, hfields⟩ := h.exists_of_table
  rw [ChannelCount.load, record?, orMalformed, ok_bind, foldlM_of_fieldsReorder c.copy hfields]
  case hstep =>
    rw [List.forall_mem_cons, List.forall_mem_singleton]
    constructor
    all_goals
      intro v hv found
      rw [uint32?_of_reorders hv]
      rfl
  rfl

/-- The audio format with the field of a name as in a record. -/
def AudioFormat.copy (a : AudioFormat) (found : AudioFormat) : String → AudioFormat
  | "bitDepth" => { found with bitDepth := a.bitDepth }
  | "channelCount" => { found with channels := a.channels }
  | _ => found

instance (a : AudioFormat) : RightCommutative a.copy where
  right_comm found m n := by
    unfold AudioFormat.copy
    split <;> split <;> rfl

theorem BitDepth.load_eq {b : BitDepth} (h : (Value.int b.bits.toNat).Reorders v) :
  BitDepth.load v = .ok b
  := by
  rw [BitDepth.load, uint32?_of_reorders h]
  cases b <;> rfl

theorem AudioFormat.load_eq {a : AudioFormat}
    (h : (Value.table [("bitDepth", .int a.bitDepth.bits.toNat), ("channelCount", .table
      [("in", .int a.channels.inputs.toNat), ("out", .int a.channels.outputs.toNat)])]).Reorders
        v) :
  AudioFormat.load layout v = .ok a
  := by
  obtain ⟨fields, rfl, hfields⟩ := h.exists_of_table
  rw [AudioFormat.load, record?, orMalformed, ok_bind, foldlM_of_fieldsReorder a.copy hfields]
  case hstep =>
    rw [List.forall_mem_cons, List.forall_mem_singleton]
    constructor
    · intro v hv found
      rw [BitDepth.load_eq hv]
      rfl
    · intro v hv found
      rw [ChannelCount.load_eq hv]
      rfl
  rfl

/-- The ports with those of a name as in a record. -/
def HostPorts.copy (h : HostPorts) (found : HostPorts) : String → HostPorts
  | "messageReceivers" => { found with receivers := h.receivers }
  | "messageSenders" => { found with senders := h.senders }
  | _ => found

instance (h : HostPorts) : RightCommutative h.copy where
  right_comm found m n := by
    unfold HostPorts.copy
    split <;> split <;> rfl

theorem HostPorts.load_eq {host : HostPorts}
    (h : (Value.table [("messageReceivers", host.receivers.save),
      ("messageSenders", host.senders.save)]).Reorders v) :
  HostPorts.load layout v = .ok host
  := by
  obtain ⟨fields, rfl, hfields⟩ := h.exists_of_table
  rw [HostPorts.load, record?, orMalformed, ok_bind, foldlM_of_fieldsReorder host.copy hfields]
  case hstep =>
    rw [List.forall_mem_cons, List.forall_mem_singleton]
    constructor
    all_goals
      intro v hv found
      rw [Hooks.load_eq hv]
      rfl
  rfl

theorem Target.load_eq {t : Target} (h : (Value.string t.name).Reorders v) :
  Target.load layout v = .ok t
  := by
  cases h
  cases t <;> rfl

/-! ### Written values -/

theorem scalar_uint32 (n : UInt32) :
  Toml.Scalar (.int n.toNat)
  := by
  have hmin : Int64.minValue.toInt = -2 ^ 63 := rfl
  have hmax : Int64.maxValue.toInt = 2 ^ 63 - 1 := rfl
  have hn := n.toNat_lt
  constructor
  omega

theorem storable_uint32 {depth : Nat} (n : UInt32) :
  Toml.Storable depth (.int n.toNat)
  := .plain (.scalar (scalar_uint32 n))

theorem storable_lists {α : Type} {save : α → Value} {depth : Nat}
    (hsave : ∀ a, Toml.Scalar (save a)) (t : Table String (List α)) :
  Toml.Storable (depth + 1) (.table (t.entries.map fun e => (e.1, .list (e.2.map save))))
  := by
  apply Toml.Storable.table
  case h =>
    rw [List.forall_mem_map]
    intro e _
    apply Toml.Storable.plain (.list _)
    rw [List.forall_mem_map]
    intro a _
    apply hsave
  case hnames =>
    rw [List.map_map]
    apply t.nodup_keys

theorem Hooks.storable_save {depth : Nat} (hooks : Hooks) :
  Toml.Storable (depth + 1) hooks.save
  := by
  apply storable_lists
  apply scalar_uint32

theorem storable_saveArrays {depth : Nat} (arrays : Table String (List Sample)) :
  Toml.Storable (depth + 1) (saveArrays arrays)
  := by
  apply storable_lists
  intro x
  apply Toml.Scalar.float (Binary.settled_convert x)

namespace Settings

variable {s : Settings}

/-- The settings with the field of a name as in others. -/
def copy (s : Settings) (found : Settings) : String → Settings
  | "target" => { found with target := s.target }
  | "audio" => { found with audio := s.audio }
  | "io" => { found with host := s.host }
  | "arrays" => { found with arrays := s.arrays }
  | "debug" => { found with debug := s.debug }
  | "outletListenerSpecs" => { found with listeners := s.listeners }
  | "inletCallerSpecs" => { found with callers := s.callers }
  | _ => found

instance (s : Settings) : RightCommutative s.copy where
  right_comm found m n := by
    unfold copy
    split <;> split <;> rfl

theorem map_fst_save (s : Settings) :
  s.save.map Prod.fst = fieldNames
  := rfl

/-- All the fields together are the settings. -/
theorem foldl_copy (s found : Settings) :
  fieldNames.foldl s.copy found = s
  := by
  simp only [fieldNames, List.foldl_cons, List.foldl_nil, copy]

/-- Every sample of the arrays is of some kind. -/
def EverySample (s : Settings) (kind : Sample → Prop) : Prop :=
  ∀ e ∈ s.arrays.entries, ∀ x ∈ e.2, kind x

instance (s : Settings) (kind : Sample → Prop) [DecidablePred kind] :
    Decidable (s.EverySample kind) :=
  inferInstanceAs (Decidable (∀ e ∈ s.arrays.entries, ∀ x ∈ e.2, kind x))

/-- What is saved of settings gives them back when it is loaded. -/
theorem load_of_reorders (hs : s.EverySample Binary.Settled)
    (h : (Value.table s.save).Reorders v) :
  load layout v = .ok s
  := by
  obtain ⟨fields, rfl, hfields⟩ := h.exists_of_table
  rw [load, record?, orMalformed, ok_bind, foldlM_of_fieldsReorder s.copy hfields]
  case hstep =>
    simp only [save, List.forall_mem_cons, List.not_mem_nil, IsEmpty.forall_iff, implies_true,
      and_true]
    refine ⟨?target, ?audio, ?io, ?arrays, ?debug, ?listeners, ?callers⟩
    case target =>
      intro v hv found
      rw [loadField, Target.load_eq hv]
      rfl
    case audio =>
      intro v hv found
      rw [loadField, AudioFormat.load_eq hv]
      rfl
    case io =>
      intro v hv found
      rw [loadField, HostPorts.load_eq hv]
      rfl
    case arrays =>
      intro v hv found
      rw [loadField, loadArrays_eq hs hv]
      rfl
    case debug =>
      intro v hv found
      cases hv
      rfl
    case listeners =>
      intro v hv found
      rw [loadField, Hooks.load_eq hv]
      rfl
    case callers =>
      intro v hv found
      rw [loadField, Hooks.load_eq hv]
      rfl
  rw [map_fst_save, foldl_copy]

/-- The text of saved settings is read as what was saved, in another order. -/
theorem exists_read?_toToml (s : Settings) :
  ∃ fields, Toml.read? s.toToml = some fields ∧ FieldsReorder s.save fields
  := by
  have hchannels : Toml.Storable 1 (.table [("in", .int s.audio.channels.inputs.toNat),
      ("out", .int s.audio.channels.outputs.toNat)]) := by
    refine .table ?_ (by simp)
    rw [List.forall_mem_cons, List.forall_mem_singleton]
    exact ⟨storable_uint32 _, storable_uint32 _⟩
  have hfields : ∀ f ∈ s.save, Toml.Storable 2 f.2 := by
    simp only [save, List.forall_mem_cons, List.not_mem_nil, IsEmpty.forall_iff, implies_true,
      and_true]
    refine ⟨.plain (.scalar (.string _)), ?audio, ?io, storable_saveArrays _,
      .plain (.scalar (.bool _)), Hooks.storable_save _, Hooks.storable_save _⟩
    case audio =>
      refine .table ?_ (by simp)
      rw [List.forall_mem_cons, List.forall_mem_singleton]
      exact ⟨storable_uint32 _, hchannels⟩
    case io =>
      refine .table ?_ (by simp)
      rw [List.forall_mem_cons, List.forall_mem_singleton]
      exact ⟨Hooks.storable_save _, Hooks.storable_save _⟩
  apply Toml.exists_read?_print hfields
  · rw [map_fst_save]
    decide
  · decide

/-- One field changes the arrays only if it gives them. -/
theorem arrays_of_loadField {t : Settings} {f : String × Value}
    (h : loadField layout s f = .ok t) :
  t.arrays = s.arrays ∨ loadLists number? f.2 = .ok t.arrays
  := by
  unfold loadField at h
  split at h
  case h_4 =>
    obtain ⟨arrays, harrays, h⟩ := bind_eq_ok_iff.mp h
    obtain rfl := Except.ok.inj h
    exact .inr harrays
  case h_8 =>
    obtain rfl := Except.ok.inj h
    exact .inl rfl
  all_goals
    obtain ⟨_, -, h⟩ := bind_eq_ok_iff.mp h
    obtain rfl := Except.ok.inj h
    exact .inl rfl

theorem everySample_settled_of_load (h : load layout v = .ok s) :
  s.EverySample Binary.Settled
  := by
  obtain ⟨fields, -, hfold⟩ := bind_eq_ok_iff.mp h
  apply foldlM_keeps (fun s => s.EverySample Binary.Settled) hfold
  · intro e he
    cases he
  · intro f _ s t hstep hs e he x hx
    rcases arrays_of_loadField hstep with harrays | harrays
    · rw [harrays] at he
      apply hs e he x hx
    · obtain ⟨w, hw⟩ := exists_item_of_loadLists harrays he hx
      apply settled_of_number? hw

theorem all_zip_self {α : Type} (l : List α) (p : α × α → Bool) :
  (l.zip l).all p = l.all fun a => p (a, a)
  := by
  induction l with
  | nil => rfl
  | cons a rest ih => rw [List.zip_cons_cons, List.all_cons, List.all_cons, ih]

/-- Settings have the same values as themselves unless a sample is no number. -/
theorem sameValue_self_iff (s : Settings) :
  s.sameValue s ↔ s.EverySample fun x => x.isNaN = false
  := by
  simp [sameValue, EverySample, all_zip_self, Binary.sameValue_self]

end Settings

/-! ### Two presets -/

namespace Preset

/-- Settings in which no field has its default, with samples at the ends of their range. -/
def tuned : Settings :=
  { target := .assemblyscript
    audio := ⟨.float32, ⟨0, 4294967295⟩⟩
    host := ⟨.ofList [("dial", [0, 0])], .ofList [("lamp", [1])]⟩
    arrays := .ofList [("wave", [⟨0x3DCCCCCD⟩, ⟨0x80000000⟩, ⟨0x00000001⟩, ⟨0xFF7FFFFF⟩])]
    debug := true
    listeners := .ofList [("lamp", [2])]
    callers := .ofList [("bell", [4294967295]), ("dial", [3, 1])] }

/-- The saved settings with what is no table first. -/
def document : Value :=
  .table
    [("target", .string "assemblyscript"),
     ("debug", .bool true),
     ("audio", .table
      [("bitDepth", .int 32),
       ("channelCount", .table [("out", .int 4294967295), ("in", .int 0)])]),
     ("io", .table
      [("messageReceivers", tuned.host.receivers.save),
       ("messageSenders", tuned.host.senders.save)]),
     ("arrays", saveArrays tuned.arrays),
     ("outletListenerSpecs", tuned.listeners.save),
     ("inletCallerSpecs", tuned.callers.save)]

theorem save_reorders :
  (Value.table tuned.save).Reorders document
  := by
  have hswap : ∀ f g : String × Value, (Value.table [f, g]).Reorders (.table [g, f]) :=
    fun f g => .table (.cons (.refl f) (.cons (.refl g) .nil)) (.swap g f [])
  have haudio : ∀ f g h : String × Value,
      (Value.table [f, ("channelCount", .table [g, h])]).Reorders
        (.table [f, ("channelCount", .table [h, g])]) :=
    fun f g h => .table (.cons (.refl f) (.cons (.mk _ (hswap g h)) .nil)) (.refl _)
  apply Reorders.table _ (.cons _ (@List.perm_middle _ _ [_, _, _] _))
  exact .cons (.refl _) (.cons (.mk _ (haudio _ _ _)) (.cons (.refl _) (.cons (.refl _)
    (.cons (.refl _) (.cons (.refl _) (.cons (.refl _) .nil))))))

/-- A document with few of the fields, one that is unknown, and samples that are no numbers of
32 bits. -/
def draft : Value :=
  .table
    [("arrays", .table [("ramp", .list [.int 16777217, .float ⟨0x7E37E43C8800759C⟩, .float .nan])]),
     ("comment", .string "draft"),
     ("audio", .table [("bitDepth", .int 32)])]

/-- What the document gives: one sample is rounded, and one becomes infinite. -/
def drafted : Settings :=
  { audio := { bitDepth := .float32 }
    arrays := .ofList [("ramp", [⟨0x4B800000⟩, .infinite false, .nan])] }

theorem load_draft :
  Settings.load Toml.layout draft = .ok drafted
  := by
  decide +kernel

end Preset

namespace Settings

variable {s : Settings}

/-- Settings that were loaded, from whatever document, or whose samples are finite are the same
after they have been saved and loaded, whatever the order of fields, and also after they have been
written and read as text. They have the same values too, unless a sample is no number: that equals
nothing. -/
theorem load_save_of_finite_or_loaded
    (hs : s.EverySample (fun x => x.isFinite) ∨ ∃ layout v, load layout v = .ok s) :
  (∀ layout v, (Value.table s.save).Reorders v → load layout v = .ok s) ∧
    ofToml s.toToml = .ok s ∧ (s.sameValue s ↔ s.EverySample fun x => x.isNaN = false)
  := by
  have hsettled : s.EverySample Binary.Settled := by
    rcases hs with hfinite | ⟨layout, v, hload⟩
    · intro e he x hx
      apply Binary.settled_of_isFinite (hfinite e he x hx)
    · apply everySample_settled_of_load hload
  refine ⟨?_, ?_, sameValue_self_iff s⟩
  · intro layout v hv
    apply load_of_reorders hsettled hv
  · obtain ⟨fields, hfields, moved, hmoved, hperm⟩ := exists_read?_toToml s
    rw [ofToml, hfields]
    exact load_of_reorders hsettled (.table hmoved hperm)

theorem load_save_of_finite_or_loaded_presets :
  Preset.tuned.EverySample (fun x => x.isFinite) ∧
    load Toml.layout Preset.document = .ok Preset.tuned ∧
    ofToml Preset.tuned.toToml = .ok Preset.tuned ∧ Preset.tuned.sameValue Preset.tuned ∧
    load Toml.layout Preset.draft = .ok Preset.drafted ∧
    load Toml.layout (.table Preset.drafted.save) = .ok Preset.drafted ∧
    ofToml Preset.drafted.toToml = .ok Preset.drafted ∧
    ¬ Preset.drafted.sameValue Preset.drafted
  := by
  have hfinite : Preset.tuned.EverySample fun x => x.isFinite := by decide +kernel
  obtain ⟨htuned, htext, hsame⟩ := load_save_of_finite_or_loaded (.inl hfinite)
  obtain ⟨hdrafted, htext', hnan⟩ :=
    load_save_of_finite_or_loaded (.inr ⟨Toml.layout, Preset.draft, Preset.load_draft⟩)
  refine ⟨hfinite, htuned _ _ Preset.save_reorders, htext, hsame.mpr ?_, Preset.load_draft,
    hdrafted _ _ (.refl _), htext', ?_⟩
  · decide +kernel
  · rw [hnan]
    decide +kernel

end Settings

end AudioPatch
