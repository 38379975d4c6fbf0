import RustyPenguin.Foundation.Trace
import RustyPenguin.Usb.Queues

/-!
# The driver in step with the controller

The rings are apart from each other, so a write to one leaves the others. Every step of the driver or
of the controller keeps all rings, as long as the controller has written fewer than 255 events and
the driver has queued fewer than 47 reads of a device before it queues another.
-/

set_option autoImplicit false

namespace RustyPenguin.Usb

open Foundation

variable {s : System} {slot : Nat}

/-! ## Rings apart -/

/-- The slots that the driver enables. -/
def Enabled (slot : Nat) : Prop := 1 ≤ slot ∧ slot ≤ maxHidDevs

instance (slot : Nat) : Decidable (Enabled slot) := inferInstanceAs (Decidable (_ ∧ _))

/-- The rings of the enabled slots, and the two of the controller. -/
def Ring.Valid : Ring → Prop
  | .command => True
  | .event => True
  | .control slot => Enabled slot
  | .interrupt slot => Enabled slot

theorem Ring.apart {ring ring' : Ring} (valid : ring.Valid) (valid' : ring'.Valid)
    (different : ring ≠ ring') {a : Nat} (inside : ring.Inside a) : ¬ ring'.Inside a := by
  intro inside'
  have same : ∀ slot slot', Enabled slot → Enabled slot' →
      devicePhys slot ≤ devicePhys slot' + 0x800 → devicePhys slot' ≤ devicePhys slot + 0x800 →
      slot = slot' := by
    unfold Enabled devicePhys devBlock
    omega
  have later : ∀ slot, evtRingPhys + 256 * 16 ≤ devicePhys slot := by
    unfold devicePhys devBasePhys evtRingPhys
    omega
  have between : cmdRingPhys + 256 * 16 = evtRingPhys := by
    unfold cmdRingPhys evtRingPhys
    omega
  cases ring <;> cases ring' <;>
    unfold Ring.Inside Ring.first Ring.last devTr at inside inside' <;>
    dsimp only at inside inside'
  case command.command => exact different rfl
  case event.event => exact different rfl
  case control.control slot slot' =>
    exact different (congrArg Ring.control (same slot slot' valid valid' (by omega) (by omega)))
  case interrupt.interrupt slot slot' =>
    exact different (congrArg Ring.interrupt (same slot slot' valid valid' (by omega) (by omega)))
  case control.interrupt slot slot' =>
    rw [same slot slot' valid valid' (by omega) (by omega)] at inside
    omega
  case interrupt.control slot slot' =>
    rw [same slot slot' valid valid' (by omega) (by omega)] at inside
    omega
  case command.control slot => exact absurd (later slot) (by omega)
  case command.interrupt slot => exact absurd (later slot) (by omega)
  case event.control slot => exact absurd (later slot) (by omega)
  case event.interrupt slot => exact absurd (later slot) (by omega)
  case control.command slot => exact absurd (later slot) (by omega)
  case control.event slot => exact absurd (later slot) (by omega)
  case interrupt.command slot => exact absurd (later slot) (by omega)
  case interrupt.event slot => exact absurd (later slot) (by omega)
  all_goals omega

/-- Two memories that differ in one ring only. -/
def Ring.OnlyIn (ring : Ring) (mem mem' : Nat → Trb) : Prop :=
  ∀ ring' : Ring, ring'.Valid → ring ≠ ring' → ∀ a, ring'.Inside a → mem' a = mem a

theorem Ring.OnlyIn.refl (ring : Ring) (mem : Nat → Trb) : ring.OnlyIn mem mem :=
  fun _ _ _ _ _ => rfl

theorem Ring.OnlyIn.write {ring : Ring} {mem mem' : Nat → Trb} (onlyIn : ring.OnlyIn mem mem')
    (valid : ring.Valid) {a : Nat} (inside : ring.Inside a) (t : Trb) :
    ring.OnlyIn mem (Function.update mem' a t) := by
  intro ring' valid' different b inside'
  rw [← onlyIn ring' valid' different b inside']
  refine Function.update_of_ne ?_ t mem'
  rintro rfl
  exact Ring.apart valid valid' different inside inside'

/-! ## All rings -/

/-- A registered device: its control transfer is queued, and it queues its reads where its ring
goes on. -/
structure System.Device (s : System) (dev : HidDev) : Prop where
  enabled : Enabled dev.slot
  prepared : s.controlQueued dev.slot ≠ []
  atEnqueue : (s.hidQueued dev.slot).length < 47 →
    dev.trEnqueue = devicePhys dev.slot + devTr + 256 + 16 * (s.hidQueued dev.slot).length ∧
      dev.trCycle = 1

/-- Only what is queued matters. -/
theorem System.Device.congr {s s' : System} {dev : HidDev} (device : s.Device dev)
    (control : s'.controlQueued = s.controlQueued) (hid : s'.hidQueued = s.hidQueued) :
    s'.Device dev := by
  refine ⟨device.enabled, ?_, ?_⟩
  · rw [control]
    exact device.prepared
  · rw [hid]
    exact device.atEnqueue

/-- Every ring of the system is in step, and so are the registered devices. -/
structure System.InRings (s : System) : Prop where
  commands : s.CommandsInStep
  events : s.EventsInStep
  control : ∀ slot, Enabled slot →
    Control s.mem slot (s.controlQueued slot) (s.controlFetched slot) (s.controlPlace slot)
  interrupt : ∀ slot, Enabled slot →
    Interrupt s.mem slot (s.hidQueued slot) (s.hidFetched slot) (s.hidPlace slot)
  devices : ∀ dev ∈ s.devs, s.Device dev
  distinct : (s.devs.map HidDev.slot).Nodup
  unregistered : ∀ slot, Enabled slot → slot ∉ s.devs.map HidDev.slot → s.hidQueued slot = []
  written : ∀ w ∈ s.writes, w.1.Inside w.2

/-- A controller that has reads to fetch has the control transfer before them. -/
theorem System.InRings.back (inRings : s.InRings) (enabled : Enabled slot)
    (used : s.hidQueued slot ≠ []) : (s.mem (devicePhys slot + devTr)).cycleBit ≠ 0 := by
  refine (inRings.control slot enabled).back ?_
  have registered : slot ∈ s.devs.map HidDev.slot := by
    by_contra none
    exact used (inRings.unregistered slot enabled none)
  obtain ⟨dev, member, rfl⟩ := List.mem_map.mp registered
  exact (inRings.devices dev member).prepared

/-! ## The driver's steps -/

theorem postCmd_inRings (inRings : s.InRings) (room : s.Room) {t : Trb}
    (bit : t.cycleBit = s.cmdCycle) (plain : t.trbType ≠ Trb.trbLink) : (s.postCmd t).InRings := by
  have inStep := postCmd_inStep inRings.commands room bit plain
  have atEnqueue := inRings.commands.atEnqueue
  have inside : Ring.command.Inside s.cmdEnqueue := by
    show cmdRingPhys ≤ s.cmdEnqueue ∧ s.cmdEnqueue < cmdRingPhys + 256 * 16
    omega
  have once := (Ring.OnlyIn.refl .command s.mem).write trivial inside t
  by_cases wraps : cmdRingPhys + 255 * 16 ≤ s.cmdEnqueue + 16
  · have inside' : Ring.command.Inside (s.cmdEnqueue + 16) := by
      show cmdRingPhys ≤ s.cmdEnqueue + 16 ∧ s.cmdEnqueue + 16 < cmdRingPhys + 256 * 16
      omega
    have twice := once.write trivial inside' (Trb.link cmdRingPhys s.cmdCycle)
    rw [postCmd_wraps wraps] at inStep ⊢
    refine ⟨inStep, inRings.events.frame (twice .event trivial nofun),
      fun slot enabled => (inRings.control slot enabled).frame (twice _ enabled nofun),
      fun slot enabled => (inRings.interrupt slot enabled).frame (twice _ enabled nofun),
      fun dev member => ?_, inRings.distinct, inRings.unregistered, ?_⟩
    · exact (inRings.devices dev member).congr rfl rfl
    · exact List.forall_mem_cons.mpr ⟨inside', List.forall_mem_cons.mpr ⟨inside, inRings.written⟩⟩
  · rw [postCmd_stays wraps] at inStep ⊢
    refine ⟨inStep, inRings.events.frame (once .event trivial nofun),
      fun slot enabled => (inRings.control slot enabled).frame (once _ enabled nofun),
      fun slot enabled => (inRings.interrupt slot enabled).frame (once _ enabled nofun),
      fun dev member => ?_, inRings.distinct, inRings.unregistered, ?_⟩
    · exact (inRings.devices dev member).congr rfl rfl
    · exact List.forall_mem_cons.mpr ⟨inside, inRings.written⟩

theorem consumeEvent_inRings (inRings : s.InRings) (ready : s.ready) : s.consumeEvent.InRings := by
  have inStep := consumeEvent_inStep inRings.events ready
  obtain ⟨dequeue, cycle, changed⟩ := consumeEvent_spec s
  rw [changed] at inStep ⊢
  exact ⟨inRings.commands, inStep, inRings.control, inRings.interrupt,
    fun dev member => (inRings.devices dev member).congr rfl rfl, inRings.distinct,
    inRings.unregistered, inRings.written⟩

theorem waitEvent_inRings (inRings : s.InRings) : s.waitEvent.InRings := by
  rw [System.waitEvent]
  split
  · rename_i ready
    exact consumeEvent_inRings inRings ready
  · exact inRings

/-- The blocks of the one control transfer. -/
def setProtocolBlocks : List Trb :=
  [Trb.setupStage 0x21 0x0B 0 0 0 2 1, Trb.statusStage true 1]

theorem setProtocol_spec (s : System) (slot : Nat) : s.setProtocol slot = { s with
    mem := Function.update (Function.update s.mem (devicePhys slot + devTr + 16 * 0)
      (Trb.setupStage 0x21 0x0B 0 0 0 2 1)) (devicePhys slot + devTr + 16 * 1)
      (Trb.statusStage true 1)
    writes := (.control slot, devicePhys slot + devTr + 16 * 1) ::
      (.control slot, devicePhys slot + devTr + 16 * 0) :: s.writes
    controlQueued := Function.update s.controlQueued slot
      (s.controlQueued slot ++ setProtocolBlocks) } := by
  delta System.setProtocol System.ctrlTransfer System.writeTrb setProtocolBlocks
  dsimp only
  rw [if_neg (by decide)]
  rfl

theorem setProtocol_inRings (inRings : s.InRings) (enabled : Enabled slot)
    (fresh : s.controlQueued slot = []) : (s.setProtocol slot).InRings := by
  have control := inRings.control slot enabled
  have none : s.controlFetched slot = [] := by
    have behind := control.laps.behind
    rw [fresh, List.length_nil] at behind
    exact List.length_eq_zero_iff.mp (by omega)
  have inside : ∀ k, k < 16 → (Ring.control slot).Inside (devicePhys slot + devTr + 16 * k) := by
    intro k within
    show devicePhys slot + devTr ≤ devicePhys slot + devTr + 16 * k ∧
      devicePhys slot + devTr + 16 * k < devicePhys slot + devTr + 256
    omega
  have onlyIn := ((Ring.OnlyIn.refl (.control slot) s.mem).write enabled (inside 0 (by omega))
    (Trb.setupStage 0x21 0x0B 0 0 0 2 1)).write enabled (inside 1 (by omega))
    (Trb.statusStage true 1)
  rw [setProtocol_spec]
  refine ⟨inRings.commands.frame (onlyIn .command trivial fun same => Ring.noConfusion same),
    inRings.events.frame (onlyIn .event trivial fun same => Ring.noConfusion same),
    fun other enabled' => ?_,
    fun other enabled' => (inRings.interrupt other enabled').frame
      (onlyIn _ enabled' fun same => Ring.noConfusion same),
    fun dev member => ?_, inRings.distinct, inRings.unregistered, ?_⟩
  · dsimp only
    by_cases same : other = slot
    · subst other
      rw [Function.update_self, none, fresh]
      rw [none, fresh] at control
      have first := control.laps.writeNext (a := Trb.setupStage 0x21 0x0B 0 0 0 2 1)
        (by decide) (by decide)
      have second := first.writeNext (a := Trb.statusStage true 1) (by decide) (by decide)
      rw [← entries_update, ← entries_update] at second
      refine ⟨second, by decide, by decide, ?_⟩
      have atPlace := control.atPlace
      exact atPlace
    · rw [Function.update_of_ne same]
      exact (inRings.control other enabled').frame
        (onlyIn _ enabled' fun equal => same (Ring.control.inj equal).symm)
  · obtain ⟨enabled', prepared, atEnqueue⟩ := inRings.devices dev member
    refine ⟨enabled', ?_, atEnqueue⟩
    dsimp only
    by_cases same : dev.slot = slot
    · rw [same, Function.update_self]
      exact List.append_ne_nil_of_right_ne_nil _ (List.cons_ne_nil _ _)
    · rw [Function.update_of_ne same]
      exact prepared
  · exact List.forall_mem_cons.mpr ⟨inside 1 (by omega),
      List.forall_mem_cons.mpr ⟨inside 0 (by omega), inRings.written⟩⟩

/-- The block of a read on the first lap. -/
theorem read_spec (buf : Nat) (len : UInt16) :
    (Trb.normal buf len true 1).cycleBit = 1 ∧ (Trb.normal buf len true 1).trbType ≠ Trb.trbLink := by
  have word : (Trb.normal buf len true 1).dw3 = (Trb.trbNormal <<< 10) ||| ((1 : UInt32) <<< 5) ||| 1 :=
    rfl
  rw [Trb.cycleBit, Trb.trbType, word]
  decide

section Queue

variable {di : Nat} {dev : HidDev}

/-- The read that a device queues. -/
def HidDev.read (dev : HidDev) : Trb :=
  Trb.normal dev.hidBuf (if dev.isMouse then 4 else 8) true dev.trCycle

theorem queueHidRead_wraps (there : s.devs[di]? = some dev)
    (wraps : devicePhys dev.slot + devTr + 63 * 16 ≤ dev.trEnqueue + 16) :
    s.queueHidRead di = { s with
      mem := Function.update (Function.update s.mem dev.trEnqueue dev.read) (dev.trEnqueue + 16)
        (Trb.link (devicePhys dev.slot + devTr) dev.trCycle)
      writes := (.interrupt dev.slot, dev.trEnqueue + 16) :: (.interrupt dev.slot, dev.trEnqueue) ::
        s.writes
      hidQueued := Function.update s.hidQueued dev.slot (s.hidQueued dev.slot ++ [dev.read])
      devs := s.devs.set di { dev with
        trCycle := dev.trCycle ^^^ 1, trEnqueue := devicePhys dev.slot + devTr } } := by
  delta System.queueHidRead System.writeTrb HidDev.read
  rw [there]
  dsimp only
  rw [if_pos wraps]

theorem queueHidRead_stays (there : s.devs[di]? = some dev)
    (stays : ¬ devicePhys dev.slot + devTr + 63 * 16 ≤ dev.trEnqueue + 16) :
    s.queueHidRead di = { s with
      mem := Function.update s.mem dev.trEnqueue dev.read
      writes := (.interrupt dev.slot, dev.trEnqueue) :: s.writes
      hidQueued := Function.update s.hidQueued dev.slot (s.hidQueued dev.slot ++ [dev.read])
      devs := s.devs.set di { dev with trEnqueue := dev.trEnqueue + 16 } } := by
  delta System.queueHidRead System.writeTrb HidDev.read
  rw [there]
  dsimp only
  rw [if_neg stays]

/-- Another read is in the interrupt ring of its slot, and in none other. -/
theorem interrupts_next (inRings : s.InRings) (there : s.devs[di]? = some dev)
    (room : (s.hidQueued dev.slot).length < 47) {mem : Nat → Trb}
    (onlyIn : (Ring.interrupt dev.slot).OnlyIn s.mem mem)
    (entry : ∀ k, k < 47 → entries mem (devicePhys dev.slot + devTr + 256) k =
      entries (Function.update s.mem dev.trEnqueue dev.read)
        (devicePhys dev.slot + devTr + 256) k)
    (link : (s.hidQueued dev.slot).length + 1 = 47 →
      mem (devicePhys dev.slot + devTr + 256 + 16 * 47) =
        Trb.link (devicePhys dev.slot + devTr) 1) :
    ∀ slot, Enabled slot → Interrupt mem slot
      (Function.update s.hidQueued dev.slot (s.hidQueued dev.slot ++ [dev.read]) slot)
      (s.hidFetched slot) (s.hidPlace slot) := by
  intro slot enabled'
  by_cases same : slot = dev.slot
  · subst slot
    obtain ⟨enabled, prepared, atEnqueue⟩ := inRings.devices dev (List.mem_of_getElem? there)
    obtain ⟨enqueue, cycle⟩ := atEnqueue room
    have interrupt := inRings.interrupt dev.slot enabled
    obtain ⟨bit, plain⟩ := read_spec dev.hidBuf (if dev.isMouse then 4 else 8)
    rw [← cycle] at bit plain
    have length : (s.hidQueued dev.slot ++ [dev.read]).length =
        (s.hidQueued dev.slot).length + 1 := by
      rw [List.length_append, List.length_singleton]
    have laps := interrupt.laps.writeNext (a := dev.read) (by omega) (by
      rw [Nat.div_eq_of_lt room]
      exact bit.trans cycle)
    rw [Nat.mod_eq_of_lt room, ← entries_update, ← enqueue] at laps
    rw [Function.update_self]
    refine ⟨laps.congr (by omega) entry, by omega, ?_, ?_, interrupt.atPlace⟩
    · intro t member
      rcases List.mem_append.mp member with before | last
      · exact interrupt.plain t before
      · rw [List.mem_singleton.mp last]
        exact plain
    · rw [length]
      exact link
  · rw [Function.update_of_ne same]
    exact (inRings.interrupt slot enabled').frame
      (onlyIn _ enabled' fun equal => same (Ring.interrupt.inj equal).symm)

/-- A device that has queued another read is still registered, in its place. -/
theorem devices_next (inRings : s.InRings) (there : s.devs[di]? = some dev) (dev' : HidDev)
    (sameSlot : dev'.slot = dev.slot)
    (atEnqueue : (s.hidQueued dev.slot).length + 1 < 47 →
      dev'.trEnqueue =
        devicePhys dev.slot + devTr + 256 + 16 * ((s.hidQueued dev.slot).length + 1) ∧
      dev'.trCycle = 1) :
    (∀ d ∈ s.devs.set di dev', System.Device { s with
      hidQueued := Function.update s.hidQueued dev.slot (s.hidQueued dev.slot ++ [dev.read]) } d) ∧
      (s.devs.set di dev').map HidDev.slot = s.devs.map HidDev.slot := by
  have within := (List.getElem?_eq_some_iff.mp there).1
  have here := (List.getElem?_eq_some_iff.mp there).2
  have slots : (s.devs.set di dev').map HidDev.slot = s.devs.map HidDev.slot := by
    rw [List.map_set, sameSlot, ← here]
    exact List.ext_getElem (by rw [List.length_set]) fun i _ _ => by
      rw [List.getElem_set]
      split
      · rename_i equal
        subst equal
        rw [List.getElem_map]
      · rfl
  refine ⟨fun d member => ?_, slots⟩
  obtain ⟨enabled, prepared, _⟩ := inRings.devices dev (List.mem_of_getElem? there)
  obtain ⟨i, at_i⟩ := List.mem_iff_getElem?.mp member
  by_cases same : i = di
  · rw [same, List.getElem?_set_self within] at at_i
    cases at_i
    refine ⟨sameSlot ▸ enabled, ?_, ?_⟩
    · rw [sameSlot]
      exact prepared
    · dsimp only
      rw [sameSlot, Function.update_self, List.length_append, List.length_singleton]
      exact atEnqueue
  · rw [List.getElem?_set_ne (Ne.symm same)] at at_i
    have other := inRings.devices d (List.mem_of_getElem? at_i)
    have slot_i : (s.devs.map HidDev.slot)[i]? = some d.slot := by
      rw [List.getElem?_map, at_i, Option.map_some]
    have slot_di : (s.devs.map HidDev.slot)[di]? = some dev.slot := by
      rw [List.getElem?_map, there, Option.map_some]
    have different : d.slot ≠ dev.slot := by
      intro equal
      rw [equal] at slot_i
      have within' : i < (s.devs.map HidDev.slot).length :=
        (List.getElem?_eq_some_iff.mp slot_i).1
      exact same ((List.getElem?_inj within' inRings.distinct).mp (slot_i.trans slot_di.symm))
    refine ⟨other.enabled, other.prepared, ?_⟩
    dsimp only
    rw [Function.update_of_ne different]
    exact other.atEnqueue

theorem queueHidRead_inRings (inRings : s.InRings)
    (room : ∀ dev, s.devs[di]? = some dev → (s.hidQueued dev.slot).length < 47) :
    (s.queueHidRead di).InRings := by
  cases there : s.devs[di]? with
  | none =>
    rw [System.queueHidRead, there]
    exact inRings
  | some dev =>
    have room := room dev there
    obtain ⟨enabled, prepared, atEnqueue⟩ := inRings.devices dev (List.mem_of_getElem? there)
    obtain ⟨enqueue, cycle⟩ := atEnqueue room
    have inside : ∀ k, k < 48 → (Ring.interrupt dev.slot).Inside
        (devicePhys dev.slot + devTr + 256 + 16 * k) := by
      intro k within
      show devicePhys dev.slot + devTr + 256 ≤ devicePhys dev.slot + devTr + 256 + 16 * k ∧
        devicePhys dev.slot + devTr + 256 + 16 * k < devicePhys dev.slot + devTr + 64 * 16
      omega
    have insideNext := inside ((s.hidQueued dev.slot).length + 1) (by omega)
    have insideHere := inside (s.hidQueued dev.slot).length (by omega)
    have next : dev.trEnqueue + 16 =
        devicePhys dev.slot + devTr + 256 + 16 * ((s.hidQueued dev.slot).length + 1) := by
      omega
    rw [← enqueue] at insideHere
    rw [← next] at insideNext
    have once := (Ring.OnlyIn.refl (.interrupt dev.slot) s.mem).write enabled insideHere dev.read
    have unregistered : ∀ slots, slots = s.devs.map HidDev.slot → ∀ slot, Enabled slot →
        slot ∉ slots →
        Function.update s.hidQueued dev.slot (s.hidQueued dev.slot ++ [dev.read]) slot = [] := by
      intro slots same slot enabled' outside
      rw [same] at outside
      rw [Function.update_of_ne]
      · exact inRings.unregistered slot enabled' outside
      · rintro rfl
        exact outside (List.mem_map_of_mem (List.mem_of_getElem? there))
    by_cases wraps : devicePhys dev.slot + devTr + 63 * 16 ≤ dev.trEnqueue + 16
    · have whole : (s.hidQueued dev.slot).length + 1 = 47 := by omega
      have twice := once.write enabled insideNext
        (Trb.link (devicePhys dev.slot + devTr) dev.trCycle)
      rw [queueHidRead_wraps there wraps]
      obtain ⟨devices, slots⟩ := devices_next inRings there
        { dev with trCycle := dev.trCycle ^^^ 1, trEnqueue := devicePhys dev.slot + devTr } rfl
        (by omega)
      refine ⟨inRings.commands.frame (twice .command trivial nofun),
        inRings.events.frame (twice .event trivial nofun),
        fun slot enabled' => (inRings.control slot enabled').frame (twice _ enabled' nofun),
        interrupts_next inRings there room twice ?_ ?_,
        fun d member => (devices d member).congr rfl rfl, ?_, ?_, ?_⟩
      · refine entries_elsewhere _ fun k within => ?_
        omega
      · intro _
        dsimp only
        rw [next, whole, Function.update_self, cycle]
      · exact slots ▸ inRings.distinct
      · exact unregistered _ slots
      · exact List.forall_mem_cons.mpr ⟨insideNext,
          List.forall_mem_cons.mpr ⟨insideHere, inRings.written⟩⟩
    · rw [queueHidRead_stays there wraps]
      obtain ⟨devices, slots⟩ := devices_next inRings there
        { dev with trEnqueue := dev.trEnqueue + 16 } rfl (fun _ => ⟨next, cycle⟩)
      refine ⟨inRings.commands.frame (once .command trivial nofun),
        inRings.events.frame (once .event trivial nofun),
        fun slot enabled' => (inRings.control slot enabled').frame (once _ enabled' nofun),
        interrupts_next inRings there room once (fun _ _ => rfl) (fun whole => by omega),
        fun d member => (devices d member).congr rfl rfl, ?_, ?_, ?_⟩
      · exact slots ▸ inRings.distinct
      · exact unregistered _ slots
      · exact List.forall_mem_cons.mpr ⟨insideHere, inRings.written⟩

end Queue

theorem registerHid_inRings (inRings : s.InRings) (enabled : Enabled slot)
    (prepared : s.controlQueued slot ≠ []) (fresh : slot ∉ s.devs.map HidDev.slot)
    (isMouse : Bool) : (s.registerHid slot isMouse).InRings := by
  have none := inRings.unregistered slot enabled fresh
  rw [System.registerHid]
  split
  · exact inRings
  · refine queueHidRead_inRings ⟨inRings.commands, inRings.events, inRings.control,
      inRings.interrupt, fun dev member => ?_, ?_, fun other enabled' outside => ?_,
      inRings.written⟩ fun dev there => ?_
    · rcases List.mem_append.mp member with old | new
      · exact (inRings.devices dev old).congr rfl rfl
      · rw [List.mem_singleton.mp new]
        refine ⟨enabled, prepared, fun _ => ?_⟩
        dsimp only
        rw [none, List.length_nil, Nat.mul_zero, Nat.add_zero]
        exact ⟨rfl, rfl⟩
    · rw [List.map_append, List.nodup_append]
      refine ⟨inRings.distinct, List.pairwise_singleton _ _, ?_⟩
      intro a old b new same
      rw [List.map_singleton, List.mem_singleton] at new
      rw [same, new] at old
      exact fresh old
    · rw [List.map_append, List.mem_append, not_or] at outside
      exact inRings.unregistered other enabled' outside.1
    · rw [List.getElem?_concat_length] at there
      cases there
      dsimp only
      rw [none]
      decide

theorem poll_inRings (inRings : s.InRings)
    (room : ∀ di dev, s.requeued (s.mem s.evtDequeue) = some di → s.devs[di]? = some dev →
      (s.hidQueued dev.slot).length < 47) : s.poll.InRings := by
  rw [System.poll]
  split
  · rename_i ready
    have consumed := consumeEvent_inRings inRings ready
    obtain ⟨dequeue, cycle, changed⟩ := consumeEvent_spec s
    have devs : s.consumeEvent.devs = s.devs := by rw [changed]
    have hid : s.consumeEvent.hidQueued = s.hidQueued := by rw [changed]
    have requeued : s.consumeEvent.requeued (s.mem s.evtDequeue) =
        s.requeued (s.mem s.evtDequeue) := by
      rw [System.requeued, System.requeued, devs]
    dsimp only
    split
    · rename_i di found
      refine queueHidRead_inRings consumed fun dev there => ?_
      rw [hid]
      exact room di dev (requeued ▸ found) (devs ▸ there)
    · exact consumed
  · exact inRings

/-! ## The controller's steps -/

theorem writeEvent_inRings (inRings : s.InRings) (room : s.produced.length < 255) (t : Trb) :
    (s.writeEvent t).InRings := by
  have inStep := writeEvent_inStep inRings.events room t
  have inside : Ring.event.Inside (evtRingPhys + 16 * s.produced.length) := by
    show evtRingPhys ≤ evtRingPhys + 16 * s.produced.length ∧
      evtRingPhys + 16 * s.produced.length < evtRingPhys + 256 * 16
    omega
  have once := (Ring.OnlyIn.refl .event s.mem).write trivial inside (t.setCycle 1)
  rw [writeEvent_spec inRings.events room] at inStep ⊢
  exact ⟨inRings.commands.frame (once .command trivial nofun), inStep,
    fun slot enabled => (inRings.control slot enabled).frame (once _ enabled nofun),
    fun slot enabled => (inRings.interrupt slot enabled).frame (once _ enabled nofun),
    fun dev member => (inRings.devices dev member).congr rfl rfl, inRings.distinct,
    inRings.unregistered, inRings.written⟩

theorem fetchCmd_inRings (inRings : s.InRings) : s.fetchCmd.InRings :=
  ⟨fetchCmd_inStep inRings.commands, inRings.events, inRings.control, inRings.interrupt,
    fun dev member => (inRings.devices dev member).congr rfl rfl, inRings.distinct,
    inRings.unregistered, inRings.written⟩

theorem fetchControl_inRings (inRings : s.InRings) (slot : Nat) :
    (s.fetchControl slot).InRings := by
  refine ⟨inRings.commands, inRings.events, fun other enabled => ?_, inRings.interrupt,
    fun dev member => (inRings.devices dev member).congr rfl rfl, inRings.distinct,
    inRings.unregistered, inRings.written⟩
  show Control s.mem other (s.controlQueued other)
    (Function.update s.controlFetched slot (s.controlFetched slot ++
      (System.fetch s.mem (s.controlPlace slot)).1.toList) other)
    (Function.update s.controlPlace slot (System.fetch s.mem (s.controlPlace slot)).2 other)
  by_cases same : other = slot
  · rw [same, Function.update_self, Function.update_self]
    exact (inRings.control slot (same ▸ enabled)).fetch.2
  · rw [Function.update_of_ne same, Function.update_of_ne same]
    exact inRings.control other enabled

theorem fetchHid_inRings (inRings : s.InRings) (slot : Nat) : (s.fetchHid slot).InRings := by
  refine ⟨inRings.commands, inRings.events, inRings.control, fun other enabled => ?_,
    fun dev member => (inRings.devices dev member).congr rfl rfl, inRings.distinct,
    inRings.unregistered, inRings.written⟩
  show Interrupt s.mem other (s.hidQueued other)
    (Function.update s.hidFetched slot (s.hidFetched slot ++
      (System.fetch s.mem (s.hidPlace slot)).1.toList) other)
    (Function.update s.hidPlace slot (System.fetch s.mem (s.hidPlace slot)).2 other)
  by_cases same : other = slot
  · subst other
    rw [Function.update_self, Function.update_self]
    exact ((inRings.interrupt slot enabled).fetch enabled.2 (inRings.back enabled)).2
  · rw [Function.update_of_ne same, Function.update_of_ne same]
    exact inRings.interrupt other enabled

/-! ## Runs -/

/-- The driver's blocks lie in their rings, and every block is read once, in order: what is read is
a front of what is written, and the next block is read next. -/
structure System.InStep (s : System) : Prop where
  written : ∀ w ∈ s.writes, w.1.Inside w.2
  events : s.consumed <+: s.produced
  nextEvent : ∀ t, s.produced[s.consumed.length]? = some t →
    s.waitEvent.consumed = s.consumed ++ [t]
  commands : s.executed <+: s.posted
  nextCommand : ∀ t, s.posted[s.executed.length]? = some t →
    s.fetchCmd.executed = s.executed ++ [t] ∨ s.fetchCmd.fetchCmd.executed = s.executed ++ [t]
  controls : ∀ slot, Enabled slot → s.controlFetched slot <+: s.controlQueued slot
  nextControl : ∀ slot, Enabled slot → ∀ t,
    (s.controlQueued slot)[(s.controlFetched slot).length]? = some t →
      (s.fetchControl slot).controlFetched slot = s.controlFetched slot ++ [t]
  reads : ∀ slot, Enabled slot → s.hidFetched slot <+: s.hidQueued slot
  nextRead : ∀ slot, Enabled slot → ∀ t,
    (s.hidQueued slot)[(s.hidFetched slot).length]? = some t →
      (s.fetchHid slot).hidFetched slot = s.hidFetched slot ++ [t]

theorem System.InRings.inStep (inRings : s.InRings) : s.InStep := by
  refine ⟨inRings.written, inRings.events.laps.isPrefix, fun t next => ?_,
    inRings.commands.laps.isPrefix, fun t next => fetchCmd_next inRings.commands next,
    fun slot enabled => (inRings.control slot enabled).laps.isPrefix, fun slot enabled t next => ?_,
    fun slot enabled => (inRings.interrupt slot enabled).laps.isPrefix,
    fun slot enabled t next => ?_⟩
  · have more := (List.getElem?_eq_some_iff.mp next).1
    obtain ⟨_, _, here⟩ := dequeue_spec inRings.events more
    rw [next] at here
    cases here
    obtain ⟨_, _, changed⟩ := consumeEvent_spec s
    rw [System.waitEvent, if_pos ((ready_iff inRings.events).mpr more), changed]
  · show Function.update s.controlFetched slot (s.controlFetched slot ++
      (System.fetch s.mem (s.controlPlace slot)).1.toList) slot = _
    rw [Function.update_self, (inRings.control slot enabled).fetch.1, next]
    rfl
  · show Function.update s.hidFetched slot (s.hidFetched slot ++
      (System.fetch s.mem (s.hidPlace slot)).1.toList) slot = _
    rw [Function.update_self,
      ((inRings.interrupt slot enabled).fetch enabled.2 (inRings.back enabled)).1, next]
    rfl

/-- What the driver may count on: the controller keeps up with the commands, and a slot is enabled
and set up once. -/
def System.Fair (s : System) : System.Event → Prop
  | .command _ => s.Room
  | .setProtocol slot => Enabled slot ∧ s.controlQueued slot = []
  | .register slot _ =>
    Enabled slot ∧ s.controlQueued slot ≠ [] ∧ slot ∉ s.devs.map HidDev.slot
  | _ => True

/-- The event ring and the interrupt rings are on their first lap: there are fewer than 255 events,
and fewer than 47 reads of the device that the driver queues another for. -/
def System.FirstLap (s : System) : System.Event → Prop
  | .write _ => s.produced.length < 255
  | .poll => ∀ di ∈ s.requeued (s.mem s.evtDequeue), ∀ dev ∈ s.devs[di]?,
      (s.hidQueued dev.slot).length < 47
  | _ => True

theorem step_inRings (s : System) (e : System.Event) (inRings : s.InRings)
    (allowed : s.Fair e ∧ s.FirstLap e) : (s.step e).InRings := by
  obtain ⟨fair, firstLap⟩ := allowed
  cases e with
  | command c =>
    have cycle := inRings.commands.onLap
    obtain ⟨bit, plain⟩ := command_spec c (s.posted.length / 255)
    rw [← cycle] at bit plain
    have posted := postCmd_inRings inRings fair bit plain
    exact posted
  | setProtocol slot => exact setProtocol_inRings inRings fair.1 fair.2
  | register slot isMouse => exact registerHid_inRings inRings fair.1 fair.2.1 fair.2.2 isMouse
  | wait => exact waitEvent_inRings inRings
  | poll =>
    exact poll_inRings inRings fun di dev found there => firstLap di found dev there
  | write t => exact writeEvent_inRings inRings firstLap t
  | fetchCmd => exact fetchCmd_inRings inRings
  | fetchControl slot => exact fetchControl_inRings inRings slot
  | fetchHid slot => exact fetchHid_inRings inRings slot

theorem start_mem : start.mem =
    Function.update (fun _ => Trb.zero) (cmdRingPhys + 255 * 16) (Trb.link cmdRingPhys 1) := rfl

/-- A blank ring is in step. -/
theorem laps_blank {mem : Nat → Trb} {n first : Nat}
    (blank : ∀ k, k < n → mem (first + 16 * k) = Trb.zero) :
    Laps n Trb.cycleBit lapBit (entries mem first) [] [] := by
  refine Laps.start fun k within => ?_
  rw [entries, blank k within]
  decide

theorem start_commands : start.CommandsInStep := by
  have laps : Laps 255 Trb.cycleBit lapBit (entries start.mem cmdRingPhys) [] [] := by
    refine laps_blank fun k within => ?_
    rw [start_mem, Function.update_of_ne (by omega)]
  unfold System.CommandsInStep
  refine ⟨laps, nofun, ?_, rfl, nofun, Or.inl ?_⟩
  · dsimp only [start]
    rw [List.length_nil, Nat.zero_mod, Nat.mul_zero, Nat.add_zero]
  · dsimp only [start]
    rw [List.length_nil, Nat.zero_mod, Nat.mul_zero, Nat.add_zero]
    rfl

/-- The memory is blank but for the link of the command ring. -/
theorem start_blank (ring : Ring) (valid : ring.Valid) (other : .command ≠ ring) :
    ∀ a, ring.Inside a → start.mem a = Trb.zero := by
  have inside : Ring.command.Inside (cmdRingPhys + 255 * 16) := by
    show cmdRingPhys ≤ cmdRingPhys + 255 * 16 ∧ cmdRingPhys + 255 * 16 < cmdRingPhys + 256 * 16
    omega
  have once := (Ring.OnlyIn.refl .command fun _ => Trb.zero).write trivial inside
    (Trb.link cmdRingPhys 1)
  exact once ring valid other

theorem start_events : start.EventsInStep := by
  have laps : Laps 256 Trb.cycleBit lapBit (entries start.mem evtRingPhys) [] [] := by
    refine laps_blank fun k within => start_blank .event trivial nofun _ ?_
    show evtRingPhys ≤ evtRingPhys + 16 * k ∧ evtRingPhys + 16 * k < evtRingPhys + 256 * 16
    omega
  unfold System.EventsInStep
  refine ⟨laps, Nat.zero_le _, ?_, Or.inl ⟨by decide, ?_, rfl⟩⟩
  · dsimp only [start]
    rw [List.length_nil, Nat.mul_zero, Nat.add_zero]
  · dsimp only [start]
    rw [List.length_nil, Nat.mul_zero, Nat.add_zero]

theorem start_control (enabled : Enabled slot) :
    Control start.mem slot [] [] (start.controlPlace slot) := by
  have laps : Laps 16 Trb.cycleBit lapBit (entries start.mem (devicePhys slot + devTr)) [] [] := by
    refine laps_blank fun k within => start_blank (.control slot) enabled nofun _ ?_
    show devicePhys slot + devTr ≤ devicePhys slot + devTr + 16 * k ∧
      devicePhys slot + devTr + 16 * k < devicePhys slot + devTr + 256
    omega
  have address : devicePhys slot + devTr = devicePhys slot + devTr + 16 * ([] : List Trb).length := by
    rw [List.length_nil, Nat.mul_zero, Nat.add_zero]
  exact ⟨laps, by decide, nofun, congrArg (fun a => Place.mk a 1) address⟩

theorem start_interrupt (enabled : Enabled slot) :
    Interrupt start.mem slot [] [] (start.hidPlace slot) := by
  have laps : Laps 47 Trb.cycleBit lapBit (entries start.mem (devicePhys slot + devTr + 256)) [] []
      := by
    refine laps_blank fun k within => start_blank (.interrupt slot) enabled nofun _ ?_
    show devicePhys slot + devTr + 256 ≤ devicePhys slot + devTr + 256 + 16 * k ∧
      devicePhys slot + devTr + 256 + 16 * k < devicePhys slot + devTr + 64 * 16
    omega
  have address : devicePhys slot + devTr + 256 =
      devicePhys slot + devTr + 256 + 16 * ([] : List Trb).length := by
    rw [List.length_nil, Nat.mul_zero, Nat.add_zero]
  exact ⟨laps, Nat.zero_le _, nofun, nofun, Or.inl (congrArg (fun a => Place.mk a 1) address)⟩

theorem start_inRings : start.InRings := by
  refine ⟨start_commands, start_events, fun _ enabled => start_control enabled,
    fun _ enabled => start_interrupt enabled, nofun, List.nodup_nil, fun _ _ _ => rfl,
    List.forall_mem_singleton.mpr ?_⟩
  show cmdRingPhys ≤ cmdRingPhys + 255 * 16 ∧ cmdRingPhys + 255 * 16 < cmdRingPhys + 256 * 16
  omega

/-- **On the first lap the rings stay in step**: every block lies in its ring, and is read once and
in order. -/
theorem session_inStep (events : List System.Event)
    (fair : Trace.Each System.step start System.Fair events)
    (firstLap : Trace.Each System.step start System.FirstLap events) :
    Trace.Always System.step start System.InStep events :=
  Trace.always_of_each start_inRings step_inRings (fun _ inRings => inRings.inStep) events
    fun front e fits => ⟨fair front e fits, firstLap front e fits⟩

instance (s : System) (e : System.Event) : Decidable (s.Fair e) :=
  match e with
  | .command _ => inferInstanceAs (Decidable (_ ∧ _))
  | .setProtocol slot => inferInstanceAs (Decidable (Enabled slot ∧ s.controlQueued slot = []))
  | .register slot _ => inferInstanceAs (Decidable
    (Enabled slot ∧ s.controlQueued slot ≠ [] ∧ slot ∉ s.devs.map HidDev.slot))
  | .wait | .poll | .write _ | .fetchCmd | .fetchControl _ | .fetchHid _ => isTrue trivial

instance (s : System) (e : System.Event) : Decidable (s.FirstLap e) :=
  match e with
  | .write _ => inferInstanceAs (Decidable (s.produced.length < 255))
  | .poll => inferInstanceAs (Decidable (∀ di ∈ s.requeued (s.mem s.evtDequeue),
      ∀ dev ∈ s.devs[di]?, (s.hidQueued dev.slot).length < 47))
  | .command _ | .setProtocol _ | .register _ _ | .wait | .fetchCmd | .fetchControl _ | .fetchHid _ =>
    isTrue trivial

/-- A report of the device of a slot. -/
def report (slot : UInt32) : Trb :=
  ⟨0, 0, (1 : UInt32) <<< 24, (Trb.trbTransferEvt <<< 10) ||| (slot <<< 24)⟩

/-- The driver sets a keyboard up, and the controller reports it so many times. -/
def reports (n : Nat) : List System.Event :=
  [.setProtocol 1, .register 1 false] ++ (List.replicate n [.write (report 1), .poll]).flatten

theorem session_inStep_reports : Trace.Always System.step start System.InStep (reports 2) :=
  session_inStep (reports 2) (by decide +kernel) (by decide +kernel)

set_option maxRecDepth 16000 in
/-- The 48th read is written to the ring of the control endpoint. -/
theorem not_session_inStep : ¬ ∀ events, Trace.Each System.step start System.Fair events →
    Trace.Always System.step start System.InStep events := by
  intro always
  have inStep := always (reports 47) (by decide) (reports 47) List.prefix_rfl
  have outside : ¬ ∀ w ∈ (Trace.after System.step start (reports 47)).writes,
      w.1.first ≤ w.2 ∧ w.2 < w.1.last := by
    decide +kernel
  exact outside inStep.written

end RustyPenguin.Usb
