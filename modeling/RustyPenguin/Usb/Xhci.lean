import Mathlib.Algebra.Ring.Int.Defs
import Mathlib.Algebra.Ring.Nat
import Mathlib.Data.Nat.Init
import Mathlib.Logic.Function.Basic
import Mathlib.Logic.Function.Iterate

/-!
# The rings of an xHCI controller

The driver and the controller share rings of transfer request blocks in memory: the driver writes
commands and transfers, the controller writes events. Each block carries a cycle bit, by which its
reader tells a new block from an old one; the writer inverts the bit on each lap, and a link block
sends the reader back to the start. The controller here follows the rules of these rings: it writes
events to consecutive entries of the advertised segment while there is room, and reads blocks whose
cycle bit is the one it expects. The state also keeps what was written and read so far.
-/

set_option autoImplicit false

namespace RustyPenguin.Usb

/-! ## Memory -/

/-- Addresses are not to be computed with, only compared. -/
@[irreducible] def xhciDmaBase : Nat := 0x03300000

def cmdRingPhys : Nat := xhciDmaBase + 0x0800
def evtRingPhys : Nat := xhciDmaBase + 0x1800
def devBasePhys : Nat := xhciDmaBase + 0x4000
def devBlock : Nat := 0x1000
def devTr : Nat := 0x800
def devHidBuf : Nat := 0xC00

def maxHidDevs : Nat := 4

/-- The number of entries that the segment of the event ring is advertised with. -/
def segmentSize : Nat := 256

/-- The block of memory of a device. -/
def devicePhys (slot : Nat) : Nat := devBasePhys + (slot - 1) * devBlock

/-- The rings, each a part of memory. -/
inductive Ring where
  | command
  | event
  | control (slot : Nat)
  | interrupt (slot : Nat)

/-- Where a ring starts. -/
def Ring.first : Ring → Nat
  | .command => cmdRingPhys
  | .event => evtRingPhys
  | .control slot => devicePhys slot + devTr
  | .interrupt slot => devicePhys slot + devTr + 256

/-- Where a ring ends. -/
def Ring.last : Ring → Nat
  | .command => cmdRingPhys + 256 * 16
  | .event => evtRingPhys + 256 * 16
  | .control slot => devicePhys slot + devTr + 256
  | .interrupt slot => devicePhys slot + devTr + 64 * 16

/-! ## Blocks -/

structure Trb where
  dw0 : UInt32
  dw1 : UInt32
  dw2 : UInt32
  dw3 : UInt32

/-- The low and the high half of an address. -/
def low (a : Nat) : UInt32 := UInt32.ofNat a

def high (a : Nat) : UInt32 := UInt32.ofNat (a / 2 ^ 32)

namespace Trb

def trbNormal : UInt32 := 1
def trbSetup : UInt32 := 2
def trbData : UInt32 := 3
def trbStatus : UInt32 := 4
def trbLink : UInt32 := 6
def trbEnableSlot : UInt32 := 9
def trbAddressDev : UInt32 := 11
def trbConfigureEp : UInt32 := 12
def trbTransferEvt : UInt32 := 32

def ccSuccess : UInt8 := 1

def zero : Trb := ⟨0, 0, 0, 0⟩

def link (ringPhys : Nat) (cycle : UInt32) : Trb :=
  ⟨low ringPhys, high ringPhys, 0, (trbLink <<< 10) ||| ((1 : UInt32) <<< 1) ||| cycle⟩

def enableSlot (cycle : UInt32) : Trb := ⟨0, 0, 0, (trbEnableSlot <<< 10) ||| cycle⟩

def addressDevice (inCtx : Nat) (slot : UInt8) (cycle : UInt32) : Trb :=
  ⟨low inCtx, high inCtx, 0, (slot.toUInt32 <<< 24) ||| (trbAddressDev <<< 10) ||| cycle⟩

def configureEp (inCtx : Nat) (slot : UInt8) (cycle : UInt32) : Trb :=
  ⟨low inCtx, high inCtx, 0, (slot.toUInt32 <<< 24) ||| (trbConfigureEp <<< 10) ||| cycle⟩

def setupStage (bmrt breq : UInt8) (wval widx wlen : UInt16) (trt cycle : UInt32) : Trb :=
  ⟨(wval.toUInt32 <<< 16) ||| (breq.toUInt32 <<< 8) ||| bmrt.toUInt32,
    (wlen.toUInt32 <<< 16) ||| widx.toUInt32, 8,
    (trbSetup <<< 10) ||| (trt <<< 16) ||| ((1 : UInt32) <<< 6) ||| cycle⟩

def statusStage (dirIn : Bool) (cycle : UInt32) : Trb :=
  ⟨0, 0, 0, (trbStatus <<< 10) ||| (if dirIn then (1 : UInt32) <<< 16 else 0) |||
    ((1 : UInt32) <<< 5) ||| cycle⟩

def normal (buf : Nat) (len : UInt16) (ioc : Bool) (cycle : UInt32) : Trb :=
  ⟨low buf, high buf, len.toUInt32,
    (trbNormal <<< 10) ||| (if ioc then (1 : UInt32) <<< 5 else 0) ||| cycle⟩

def trbType (t : Trb) : UInt32 := (t.dw3 >>> 10) &&& 0x3F

def cycleBit (t : Trb) : UInt32 := t.dw3 &&& 1

def completionCode (t : Trb) : UInt8 := ((t.dw2 >>> 24) &&& 0xFF).toUInt8

def slotId (t : Trb) : UInt8 := (t.dw3 >>> 24).toUInt8

def setCycle (t : Trb) (c : UInt32) : Trb := { t with dw3 := (t.dw3 &&& ~~~1) ||| (c &&& 1) }

/-- The address that a link block points to. -/
def target (t : Trb) : Nat := t.dw0.toNat + 2 ^ 32 * t.dw1.toNat

end Trb

/-! ## The system -/

structure HidDev where
  slot : Nat
  isMouse : Bool
  hidBuf : Nat
  trEnqueue : Nat
  trCycle : UInt32

/-- The controller's place in a ring, and its cycle bit there. -/
structure Place where
  addr : Nat
  cycle : UInt32

structure System where
  mem : Nat → Trb
  /- the driver -/
  cmdCycle : UInt32
  cmdEnqueue : Nat
  evtDequeue : Nat
  evtCycle : UInt32
  devs : List HidDev
  /- the controller -/
  evtPlace : Place
  cmdPlace : Place
  controlPlace : Nat → Place
  hidPlace : Nat → Place
  /- what was written and read -/
  writes : List (Ring × Nat)
  produced : List Trb
  consumed : List Trb
  posted : List Trb
  executed : List Trb
  controlQueued : Nat → List Trb
  controlFetched : Nat → List Trb
  hidQueued : Nat → List Trb
  hidFetched : Nat → List Trb

/-- What `xhci_init` leaves before it looks at the ports. -/
def start : System where
  mem := Function.update (fun _ => Trb.zero) (cmdRingPhys + 255 * 16) (Trb.link cmdRingPhys 1)
  cmdCycle := 1
  cmdEnqueue := cmdRingPhys
  evtDequeue := evtRingPhys
  evtCycle := 1
  devs := []
  evtPlace := ⟨evtRingPhys, 1⟩
  cmdPlace := ⟨cmdRingPhys, 1⟩
  controlPlace := fun slot => ⟨devicePhys slot + devTr, 1⟩
  hidPlace := fun slot => ⟨devicePhys slot + devTr + 256, 1⟩
  writes := [(.command, cmdRingPhys + 255 * 16)]
  produced := []
  consumed := []
  posted := []
  executed := []
  controlQueued := fun _ => []
  controlFetched := fun _ => []
  hidQueued := fun _ => []
  hidFetched := fun _ => []

/-- The commands that the driver posts. -/
inductive Command where
  | enableSlot
  | addressDevice (inCtx : Nat) (slot : UInt8)
  | configureEp (inCtx : Nat) (slot : UInt8)

def Command.trb (cycle : UInt32) : Command → Trb
  | .enableSlot => Trb.enableSlot cycle
  | .addressDevice inCtx slot => Trb.addressDevice inCtx slot cycle
  | .configureEp inCtx slot => Trb.configureEp inCtx slot cycle

namespace System

/-- `write_trb`, to a block of a ring. -/
def writeTrb (ring : Ring) (addr : Nat) (t : Trb) (s : System) : System :=
  { s with mem := Function.update s.mem addr t, writes := (ring, addr) :: s.writes }

/-! ## The driver -/

def postCmd (t : Trb) (s : System) : System :=
  let s := { s.writeTrb .command s.cmdEnqueue t with
    cmdEnqueue := s.cmdEnqueue + 16, posted := s.posted ++ [t] }
  if cmdRingPhys + 255 * 16 ≤ s.cmdEnqueue then
    { s.writeTrb .command s.cmdEnqueue (Trb.link cmdRingPhys s.cmdCycle) with
      cmdCycle := s.cmdCycle ^^^ 1, cmdEnqueue := cmdRingPhys }
  else s

/-- A block of the event ring whose cycle bit is the driver's is new. -/
def ready (s : System) : Prop := (s.mem s.evtDequeue).cycleBit = s.evtCycle

instance (s : System) : Decidable s.ready := inferInstanceAs (Decidable (_ = _))

def consumeEvent (s : System) : System :=
  let s := { s with
    consumed := s.consumed ++ [s.mem s.evtDequeue], evtDequeue := s.evtDequeue + 16 }
  if evtRingPhys + 255 * 16 ≤ s.evtDequeue then
    { s with evtDequeue := evtRingPhys, evtCycle := s.evtCycle ^^^ 1 }
  else s

/-- One turn of the loops that wait for an event. -/
def waitEvent (s : System) : System := if s.ready then s.consumeEvent else s

def ctrlTransfer (slot : Nat) (bmrt breq : UInt8) (wval widx wlen : UInt16) (data : Nat)
    (trt : UInt32) (s : System) : System :=
  let tr := devicePhys slot + devTr
  let cycle := 1
  let setup := Trb.setupStage bmrt breq wval widx wlen trt cycle
  let blocks := if 0 < wlen then
      [setup, Trb.normal data wlen false cycle, Trb.statusStage (trt = 2) cycle]
    else [setup, Trb.statusStage true cycle]
  let s := blocks.zipIdx.foldl
    (fun s block => s.writeTrb (.control slot) (tr + 16 * block.2) block.1) s
  { s with controlQueued := Function.update s.controlQueued slot (s.controlQueued slot ++ blocks) }

def queueHidRead (di : Nat) (s : System) : System :=
  match s.devs[di]? with
  | none => s
  | some dev =>
    let t := Trb.normal dev.hidBuf (if dev.isMouse then 4 else 8) true dev.trCycle
    let s := { s.writeTrb (.interrupt dev.slot) dev.trEnqueue t with
      hidQueued := Function.update s.hidQueued dev.slot (s.hidQueued dev.slot ++ [t]) }
    let next := dev.trEnqueue + 16
    let ring := devicePhys dev.slot + devTr
    if ring + 63 * 16 ≤ next then
      { s.writeTrb (.interrupt dev.slot) next (Trb.link ring dev.trCycle) with
        devs := s.devs.set di { dev with trCycle := dev.trCycle ^^^ 1, trEnqueue := ring } }
    else { s with devs := s.devs.set di { dev with trEnqueue := next } }

def registerHid (slot : Nat) (isMouse : Bool) (s : System) : System :=
  if maxHidDevs ≤ s.devs.length then s
  else
    let dbase := devicePhys slot
    let dev : HidDev := ⟨slot, isMouse, dbase + devHidBuf, dbase + devTr + 256, 1⟩
    queueHidRead s.devs.length { s with devs := s.devs ++ [dev] }

/-- The one control transfer of the driver, once for each slot. -/
def setProtocol (slot : Nat) (s : System) : System := ctrlTransfer slot 0x21 0x0B 0 0 0 0 2 s

/-- The device for which an event makes the driver queue another read. -/
def requeued (s : System) (t : Trb) : Option Nat :=
  if t.trbType = Trb.trbTransferEvt ∧ t.completionCode = Trb.ccSuccess then
    s.devs.findIdx? fun dev => dev.slot = t.slotId.toNat
  else none

/-- One turn of the loop of `poll`. -/
def poll (s : System) : System :=
  if s.ready then
    let t := s.mem s.evtDequeue
    let s := s.consumeEvent
    match s.requeued t with
    | some di => s.queueHidRead di
    | none => s
  else s

/-! ## The controller -/

/-- The place of the next event. -/
def nextEvt (p : Place) : Place :=
  if p.addr + 16 = evtRingPhys + segmentSize * 16 then ⟨evtRingPhys, p.cycle ^^^ 1⟩
  else ⟨p.addr + 16, p.cycle⟩

/-- Write an event, unless the ring is full. -/
def writeEvent (t : Trb) (s : System) : System :=
  if (nextEvt s.evtPlace).addr = s.evtDequeue then s
  else
    let t := t.setCycle s.evtPlace.cycle
    { s with
      mem := Function.update s.mem s.evtPlace.addr t
      evtPlace := nextEvt s.evtPlace
      produced := s.produced ++ [t] }

/-- Read a block of a ring: none if it is not new, and none but another place if it is a link. -/
def fetch (mem : Nat → Trb) (p : Place) : Option Trb × Place :=
  let t := mem p.addr
  if t.cycleBit ≠ p.cycle then (none, p)
  else if t.trbType = Trb.trbLink then
    (none, ⟨t.target, if t.dw3 &&& 2 = 0 then p.cycle else p.cycle ^^^ 1⟩)
  else (some t, ⟨p.addr + 16, p.cycle⟩)

def fetchCmd (s : System) : System :=
  let (t?, p) := fetch s.mem s.cmdPlace
  { s with cmdPlace := p, executed := s.executed ++ t?.toList }

def fetchControl (slot : Nat) (s : System) : System :=
  let (t?, p) := fetch s.mem (s.controlPlace slot)
  { s with
    controlPlace := Function.update s.controlPlace slot p
    controlFetched := Function.update s.controlFetched slot (s.controlFetched slot ++ t?.toList) }

def fetchHid (slot : Nat) (s : System) : System :=
  let (t?, p) := fetch s.mem (s.hidPlace slot)
  { s with
    hidPlace := Function.update s.hidPlace slot p
    hidFetched := Function.update s.hidFetched slot (s.hidFetched slot ++ t?.toList) }

/-! ## Steps -/

inductive Event where
  | command (c : Command)
  | setProtocol (slot : Nat)
  | register (slot : Nat) (isMouse : Bool)
  | wait
  | poll
  | write (t : Trb)
  | fetchCmd
  | fetchControl (slot : Nat)
  | fetchHid (slot : Nat)

def step (s : System) : Event → System
  | .command c => s.postCmd (c.trb s.cmdCycle)
  | .setProtocol slot => s.setProtocol slot
  | .register slot isMouse => s.registerHid slot isMouse
  | .wait => s.waitEvent
  | .poll => s.poll
  | .write t => s.writeEvent t
  | .fetchCmd => s.fetchCmd
  | .fetchControl slot => s.fetchControl slot
  | .fetchHid slot => s.fetchHid slot

end System

end RustyPenguin.Usb
