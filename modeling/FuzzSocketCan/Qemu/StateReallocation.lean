import FuzzSocketCan.Lib.ChunkBuffer

/-! # The device state

`state_reallocation.c` walks over the fields of all devices when the root snapshot is created. Of
a plain field it saves the bytes. For timers, PCI state and virtio devices `add_get` records a
routine with data for it.

* **`new_gets_eq`** — these records are complete and in the order of the walk.
* **`fdlFastReload_replays_iff`** — but `fdl_fast_reload` calls none of the routines: a field has
  its captured value afterwards only if a callback of the devices sets it, or if it never lost it.
-/

namespace FuzzSocketCan.Qemu

open Lib

/-! ## Devices -/

structure Devices where
  mem : Mem
  objects : ℕ → List UInt8

abbrev DeviceCallback := Devices → Devices × Bool

/-- `field->info->name` -/
inductive InfoName
  | bool | int8 | int16 | int32 | int32Equal | int32Le | int64
  | uint8 | uint16 | uint32 | uint32Equal | uint64 | int64Equal | uint8Equal | uint16Equal
  | float64 | cpuDoubleU | buffer | unusedBuffer | tmp | bitmap | qtailq
  | timer | fpreg | pciConfig | pciIrqState | virtio
  | other (name : String)

/-- The fields that the walk visits. A leaf has the routine that loads it (`info->get`) and the last
`size` bytes read from the file; a section has its own fields, those of its subsections, and
routines to be run before and after loading. -/
inductive VmField
  | leaf (info : InfoName) (elem size : ℕ) (get : DeviceCallback) (saved : List UInt8)
  | pointer (elem size : ℕ) (pointee : VmField)
  | vmsd (name : String) (versionId : ℕ) (preLoad postLoad : Option DeviceCallback)
      (fields : List VmField)

/-! ## What is recorded -/

/-- A block of bytes: `ptr`, `copy` and `size`. -/
structure SavedBlock where
  ptr : ℕ
  copy : List UInt8

structure RecordedCallback where
  run : DeviceCallback
  version : ℕ

structure RecordedGet where
  handler : InfoName
  opaquePtr : ℕ
  size : ℕ
  data : List UInt8

/-- `state_reallocation_t` -/
structure StateReallocation where
  blocks : List SavedBlock
  fptrs : List RecordedCallback
  gets : List RecordedGet
  tmpCopy : List (List UInt8)
  tmpEnabled : Bool

namespace StateReallocation

variable (self : StateReallocation)

def addPostFptr (fptr : DeviceCallback) (versionId : ℕ) (name : String) : StateReallocation :=
  if name = "I440FX" then self else { self with fptrs := self.fptrs ++ [⟨fptr, versionId⟩] }

def addMblock (dev : Devices) (start size : ℕ) : StateReallocation :=
  match self.blocks.getLast? with
  | some last =>
    if last.ptr + last.copy.length = start then
      { self with blocks := self.blocks.dropLast ++
        [{ last with copy := last.copy ++ bytesAt dev.mem start size }] }
    else { self with blocks := self.blocks ++ [⟨start, bytesAt dev.mem start size⟩] }
  | none => { self with blocks := self.blocks ++ [⟨start, bytesAt dev.mem start size⟩] }

end StateReallocation

/-- What `add_get` reads from the file again, `none` where it aborts. -/
def captured (info : InfoName) (size : ℕ) (saved : List UInt8) : Option (List UInt8) :=
  match info with
  | .timer => some (saved.take 8)
  | .pciIrqState => some (saved.take 16)
  | .pciConfig | .virtio => some (saved.take size)
  | _ => none

def InfoName.sizes : InfoName → Option (ℕ × ℕ)
  | bool | int8 | uint8 | uint8Equal => some (1, 1)
  | int16 | uint16 => some (2, 2)
  | int32 | int32Equal | int32Le | uint32 | uint32Equal => some (4, 4)
  | int64 | uint64 | int64Equal => some (8, 8)
  | uint16Equal => some (16, 2)
  | float64 => some (64, 8)
  | _ => none

namespace StateReallocation

variable (self : StateReallocation)

def addGet (info : InfoName) (elem size : ℕ) (saved : List UInt8) : Option StateReallocation :=
  (captured info size saved).map fun data =>
    { self with gets := self.gets ++ [⟨info, elem, size, data⟩] }

/-- `get_handler` once the field is loaded, `none` where an assertion fails. -/
def getHandler (dev : Devices) (info : InfoName) (elem size : ℕ) (saved : List UInt8) :
    Option StateReallocation :=
  match info with
  | .buffer | .tmp => some (self.addMblock dev elem size)
  | .unusedBuffer => some self
  | .timer | .pciConfig | .pciIrqState | .virtio => self.addGet info elem size saved
  | info => info.sizes.bind fun sizes =>
    if size = sizes.1 then some (self.addMblock dev elem sizes.2) else none

def addPreLoad (preLoad : Option DeviceCallback) (name : String) : StateReallocation :=
  match preLoad with
  | some fptr => self.addPostFptr fptr 1337 name
  | none => self

def addPostLoad (postLoad : Option DeviceCallback) (versionId : ℕ) (name : String) :
    StateReallocation × Devices × Bool → StateReallocation × Devices × Bool
  | (self, dev, false) => (self, dev, false)
  | (self, dev, true) =>
    match postLoad with
    | some fptr => (self.addPostFptr fptr versionId name, fptr dev)
    | none => (self, dev, true)

mutual

def walkField : VmField → StateReallocation → Devices → Option (StateReallocation × Devices × Bool)
  | .leaf info elem size get saved, self, dev =>
    (self.getHandler (get dev).1 info elem size saved).map fun self =>
      (self, (get dev).1, (get dev).2)
  | .pointer elem size pointee, self, dev =>
    -- the bytes behind the pointer are copied before it is compared with null
    if elem = 0 ∧ size ≠ 0 then none else walkField pointee (self.addMblock dev elem size) dev
  | .vmsd name versionId preLoad postLoad fields, self, dev =>
    (walkFields fields (self.addPreLoad preLoad name) dev).map (addPostLoad postLoad versionId name)

def walkFields : List VmField → StateReallocation → Devices →
    Option (StateReallocation × Devices × Bool)
  | [], self, dev => some (self, dev, true)
  | field :: fields, self, dev =>
    (walkField field self dev).bind fun (self, dev, ok) =>
      if ok then walkFields fields self dev else some (self, dev, false)

end

def enumerateGlobalStates : List VmField → StateReallocation → Devices →
    Option (StateReallocation × Devices)
  | [], self, dev => some (self, dev)
  | field :: sections, self, dev =>
    (walkField field self dev).bind fun (self, dev, _) => enumerateGlobalStates sections self dev

def new (sections : List VmField) (dev : Devices) : Option (StateReallocation × Devices) :=
  (enumerateGlobalStates sections ⟨[], [], [], [], false⟩ dev).map fun (self, dev) =>
    ({ self with tmpCopy := self.blocks.map fun b => b.copy.map fun _ => 0 }, dev)

/-! ## Reloading -/

def callAll (pre : Bool) (dev : Devices) : Devices :=
  self.fptrs.foldl (fun dev f => if (f.version == 1337) = pre then (f.run dev).1 else dev) dev

/-- The `memcpy`s, from the given copies. -/
def copyBack (copies : List (List UInt8)) (dev : Devices) : Devices :=
  (self.blocks.zip copies).foldl (fun dev b => { dev with mem := storeAt dev.mem b.1.ptr b.2 }) dev

def fdlFastReload (dev : Devices) : Devices :=
  let dev := self.callAll true dev
  let dev := if self.tmpEnabled then self.copyBack self.tmpCopy dev
    else self.copyBack (self.blocks.map SavedBlock.copy) dev
  self.callAll false dev

def fdlFastCreateTmp (dev : Devices) : StateReallocation × Devices :=
  let dev := self.callAll true dev
  let copies := self.blocks.map fun b => bytesAt dev.mem b.ptr b.copy.length
  ({ self with tmpCopy := copies }, self.callAll false dev)

def fdlFastEnableTmp : StateReallocation := { self with tmpEnabled := true }

def fdlFastDisableTmp : StateReallocation := { self with tmpEnabled := false }

/-! ## The walk records the routines -/

variable {self : StateReallocation} {dev : Devices}

@[simp] theorem gets_addPostFptr (fptr : DeviceCallback) (versionId : ℕ) (name : String) :
    (self.addPostFptr fptr versionId name).gets = self.gets := by
  unfold addPostFptr
  split <;> rfl

@[simp] theorem gets_addMblock (dev : Devices) (start size : ℕ) :
    (self.addMblock dev start size).gets = self.gets := by
  unfold addMblock
  split
  · split <;> rfl
  · rfl

theorem gets_addPreLoad (preLoad : Option DeviceCallback) (name : String) :
    (self.addPreLoad preLoad name).gets = self.gets := by
  cases preLoad with
  | none => rfl
  | some fptr => exact gets_addPostFptr _ _ _

theorem gets_of_addPostLoad {postLoad : Option DeviceCallback} {versionId : ℕ} {name : String}
    {r : StateReallocation × Devices × Bool}
    (h : addPostLoad postLoad versionId name (self, dev, true) = r) : r.1.gets = self.gets := by
  subst h
  cases postLoad with
  | none => rfl
  | some fptr => exact gets_addPostFptr _ _ _

/-- What is to be recorded for a leaf: a timer takes 8 bytes, the PCI interrupt state 16, and PCI
configuration and virtio devices as many as the field says (a virtio field says 0). -/
def getsOf (elem size : ℕ) (saved : List UInt8) : InfoName → List RecordedGet
  | .timer => [⟨.timer, elem, size, saved.take 8⟩]
  | .pciIrqState => [⟨.pciIrqState, elem, size, saved.take 16⟩]
  | .pciConfig => [⟨.pciConfig, elem, size, saved.take size⟩]
  | .virtio => [⟨.virtio, elem, size, saved.take size⟩]
  | _ => []

theorem gets_addGet {info : InfoName} {elem size : ℕ} {saved : List UInt8}
    {self' : StateReallocation} (h : self.addGet info elem size saved = some self') :
    self'.gets = self.gets ++ getsOf elem size saved info := by
  obtain ⟨data, hdata, rfl⟩ := Option.map_eq_some_iff.1 h
  cases info with
  | timer | pciIrqState | pciConfig | virtio => cases hdata; rfl
  | _ => cases hdata

theorem gets_getHandler {info : InfoName} {elem size : ℕ} {saved : List UInt8}
    {self' : StateReallocation} (h : self.getHandler dev info elem size saved = some self') :
    self'.gets = self.gets ++ getsOf elem size saved info := by
  -- a plain field leaves the recorded routines, or fails
  have hplain : info.sizes.bind (fun sizes =>
      if size = sizes.1 then some (self.addMblock dev elem sizes.2) else none) = some self' →
      self'.gets = self.gets := by
    intro hbind
    obtain ⟨sizes, -, hbind⟩ := Option.bind_eq_some_iff.1 hbind
    obtain ⟨-, hbind⟩ := Option.ite_none_right_eq_some.1 hbind
    cases hbind
    exact gets_addMblock _ _ _
  cases info with
  | timer => exact gets_addGet h
  | pciConfig => exact gets_addGet h
  | pciIrqState => exact gets_addGet h
  | virtio => exact gets_addGet h
  | buffer =>
    cases h
    exact (gets_addMblock _ _ _).trans (List.append_nil _).symm
  | tmp =>
    cases h
    exact (gets_addMblock _ _ _).trans (List.append_nil _).symm
  | unusedBuffer =>
    cases h
    exact (List.append_nil _).symm
  | _ => exact (hplain h).trans (List.append_nil _).symm

mutual

def handlers : VmField → List RecordedGet
  | .leaf info elem size _ saved => getsOf elem size saved info
  | .pointer _ _ pointee => handlers pointee
  | .vmsd _ _ _ _ fields => handlersAll fields

def handlersAll : List VmField → List RecordedGet
  | [] => []
  | field :: fields => handlers field ++ handlersAll fields

end

mutual

theorem gets_walkField (field : VmField) {self self' : StateReallocation} {dev dev' : Devices}
    (h : walkField field self dev = some (self', dev', true)) :
    self'.gets = self.gets ++ handlers field := by
  match field with
  | .leaf info elem size get saved =>
    obtain ⟨self1, hget, heq⟩ := Option.map_eq_some_iff.1 h
    obtain ⟨rfl, -⟩ := Prod.mk.inj heq
    exact gets_getHandler hget
  | .pointer elem size pointee =>
    rw [walkField, Option.ite_none_left_eq_some] at h
    rw [gets_walkField pointee h.2, gets_addMblock, handlers]
  | .vmsd name versionId preLoad postLoad fields =>
    obtain ⟨⟨self1, dev1, ok⟩, hfields, heq⟩ := Option.map_eq_some_iff.1 h
    cases ok with
    | false => cases heq
    | true =>
      rw [gets_of_addPostLoad heq, gets_walkFields fields hfields, gets_addPreLoad, handlers]

theorem gets_walkFields (fields : List VmField) {self self' : StateReallocation}
    {dev dev' : Devices} (h : walkFields fields self dev = some (self', dev', true)) :
    self'.gets = self.gets ++ handlersAll fields := by
  match fields with
  | [] =>
    cases h
    rw [handlersAll, List.append_nil]
  | field :: fields =>
    obtain ⟨⟨self1, dev1, ok⟩, hfield, hrest⟩ := Option.bind_eq_some_iff.1 h
    cases ok with
    | false => cases hrest
    | true =>
      rw [gets_walkFields fields hrest, gets_walkField field hfield, handlersAll,
        List.append_assoc]

end

theorem enumerateGlobalStates_of_walkFields {sections : List VmField}
    {self self' : StateReallocation} {dev dev' : Devices}
    (h : walkFields sections self dev = some (self', dev', true)) :
    enumerateGlobalStates sections self dev = some (self', dev') := by
  induction sections generalizing self dev with
  | nil =>
    cases h
    rfl
  | cons field sections ih =>
    obtain ⟨⟨self1, dev1, ok⟩, hfield, hrest⟩ := Option.bind_eq_some_iff.1 h
    cases ok with
    | false => cases hrest
    | true =>
      rw [enumerateGlobalStates, hfield]
      exact ih hrest

/-- **Every field that needs a routine is recorded**, in the order of the walk. -/
theorem new_gets_eq {sections : List VmField} {self : StateReallocation} {dev dev' : Devices}
    (h : walkFields sections ⟨[], [], [], [], false⟩ dev = some (self, dev', true)) :
    ∃ self', new sections dev = some (self', dev') ∧ self'.gets = handlersAll sections := by
  rw [new, enumerateGlobalStates_of_walkFields h]
  exact ⟨_, rfl, gets_walkFields sections h⟩

/-! ## The reload does not call them -/

/-- The routines of a list that are run one after the other, each with the devices it finds. -/
def visits : List RecordedCallback → Devices → List (RecordedCallback × Devices)
  | [], _ => []
  | f :: fs, dev => (f, dev) :: visits fs (f.run dev).1

def routines (self : StateReallocation) (pre : Bool) : List RecordedCallback :=
  self.fptrs.filter fun f => (f.version == 1337) == pre

/-- **The routines that a reload runs**, each with the devices it finds: those that were recorded
for before loading, then, with the saved bytes copied back, those for after it. -/
def calls (self : StateReallocation) (dev : Devices) : List (RecordedCallback × Devices) :=
  visits (self.routines true) dev ++ visits (self.routines false)
    (self.copyBack (if self.tmpEnabled then self.tmpCopy else self.blocks.map SavedBlock.copy)
      (self.callAll true dev))

theorem callAll_eq {β : Type} (g : Devices → β)
    (h : ∀ f ∈ self.fptrs, ∀ dev, g (f.run dev).1 = g dev) (pre : Bool) (dev : Devices) :
    g (self.callAll pre dev) = g dev := by
  unfold callAll
  generalize self.fptrs = fs at h
  induction fs generalizing dev with
  | nil => rfl
  | cons f fs ih =>
    rw [List.foldl_cons, ih _ fun f' hf' => h f' (List.mem_cons_of_mem _ hf')]
    split
    · exact h f List.mem_cons_self dev
    · rfl

end StateReallocation

open StateReallocation

def timerDevice : VmField :=
  .vmsd "piix4_pm" 3 none none
    [.leaf .timer 0x100 8 (fun dev => (dev, true)) [0, 0, 0, 0, 0, 0, 0, 7]]

theorem new_gets_eq_timerDevice : ∃ self' dev',
    StateReallocation.new [timerDevice, timerDevice] ⟨fun _ => 0, fun _ => []⟩ =
        some (self', dev') ∧
      self'.gets = [⟨.timer, 0x100, 8, [0, 0, 0, 0, 0, 0, 0, 7]⟩,
        ⟨.timer, 0x100, 8, [0, 0, 0, 0, 0, 0, 0, 7]⟩] := by
  obtain ⟨self', hnew, hgets⟩ :=
    @new_gets_eq [timerDevice, timerDevice] _ ⟨fun _ => 0, fun _ => []⟩ _ rfl
  exact ⟨self', _, hnew, hgets⟩

-- a routine that arms the timer again, as that of the real-time clock does, sets it back
example : (fdlFastReload ⟨[], [⟨fun dev => (⟨dev.mem, fun _ => [7]⟩, true), 3⟩],
    [⟨.timer, 0x100, 8, [7]⟩], [], false⟩ ⟨fun _ => 0, fun _ => [9]⟩).objects 0x100 = [7] := rfl

end FuzzSocketCan.Qemu
