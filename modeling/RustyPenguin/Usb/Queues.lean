import RustyPenguin.Usb.Rings

/-!
# The rings on their first lap

The driver goes back to the start of the event ring an entry too early, and from the last entry of an
interrupt ring to the ring of the control endpoint. Until then these rings stay in step.
-/

set_option autoImplicit false

namespace RustyPenguin.Usb

open Foundation

variable {mem mem' : Nat → Trb} {slot : Nat} {place : Place} {s : System}

/-! ## The event ring -/

/-- The controller has written events, and the driver has read the first of them. -/
structure Events (mem : Nat → Trb) (produced consumed : List Trb) (dequeue : Nat) (cycle : UInt32)
    (place : Place) : Prop where
  laps : Laps 256 Trb.cycleBit lapBit (entries mem evtRingPhys) produced consumed
  few : produced.length ≤ 255
  atPlace : place = ⟨evtRingPhys + 16 * produced.length, 1⟩
  atDequeue : (consumed.length < 255 ∧ dequeue = evtRingPhys + 16 * consumed.length ∧ cycle = 1) ∨
    (consumed.length = 255 ∧ dequeue = evtRingPhys ∧ cycle = 0)

/-- Only the blocks of the ring matter. -/
theorem Events.frame {produced consumed : List Trb} {dequeue : Nat} {cycle : UInt32}
    (events : Events mem produced consumed dequeue cycle place)
    (same : ∀ a, Ring.event.Inside a → mem' a = mem a) :
    Events mem' produced consumed dequeue cycle place := by
  refine ⟨events.laps.congr (by omega) fun k within => same _ ?_, events.few, events.atPlace,
    events.atDequeue⟩
  show evtRingPhys ≤ evtRingPhys + 16 * k ∧ evtRingPhys + 16 * k < evtRingPhys + 256 * 16
  omega

def System.EventsInStep (s : System) : Prop :=
  Events s.mem s.produced s.consumed s.evtDequeue s.evtCycle s.evtPlace

/-- The driver sees an event exactly when there is one that it has not read. -/
theorem ready_iff (inStep : s.EventsInStep) : s.ready ↔ s.consumed.length < s.produced.length := by
  have few := inStep.few
  have behind := inStep.laps.behind
  rcases inStep.atDequeue with ⟨within, dequeue, cycle⟩ | ⟨all, dequeue, cycle⟩
  · have isNew := inStep.laps.isNew (by omega)
    rw [Nat.mod_eq_of_lt (by omega), Nat.div_eq_of_lt (by omega)] at isNew
    rw [System.ready, dequeue, cycle]
    exact isNew
  · have old := inStep.laps.old 256 (by omega) (by omega)
    rw [System.ready, dequeue, cycle]
    exact ⟨fun same => absurd same old, fun more => by omega⟩

/-- The next event is the one that the driver reads. -/
theorem dequeue_spec (inStep : s.EventsInStep) (more : s.consumed.length < s.produced.length) :
    s.evtDequeue = evtRingPhys + 16 * s.consumed.length ∧ s.evtCycle = 1 ∧
      s.produced[s.consumed.length]? = some (s.mem s.evtDequeue) := by
  have few := inStep.few
  rcases inStep.atDequeue with ⟨within, dequeue, cycle⟩ | ⟨all, _, _⟩
  · have next := inStep.laps.next more
    rw [Nat.mod_eq_of_lt (by omega)] at next
    refine ⟨dequeue, cycle, ?_⟩
    rw [dequeue]
    exact next
  · omega

theorem consumeEvent_wraps (wraps : evtRingPhys + 255 * 16 ≤ s.evtDequeue + 16) :
    s.consumeEvent = { s with
      consumed := s.consumed ++ [s.mem s.evtDequeue], evtDequeue := evtRingPhys
      evtCycle := s.evtCycle ^^^ 1 } := by
  delta System.consumeEvent
  dsimp only
  rw [if_pos wraps]

theorem consumeEvent_stays (stays : ¬ evtRingPhys + 255 * 16 ≤ s.evtDequeue + 16) :
    s.consumeEvent = { s with
      consumed := s.consumed ++ [s.mem s.evtDequeue], evtDequeue := s.evtDequeue + 16 } := by
  delta System.consumeEvent
  dsimp only
  rw [if_neg stays]

/-- What `consume_event` changes. -/
theorem consumeEvent_spec (s : System) : ∃ dequeue cycle, s.consumeEvent = { s with
    consumed := s.consumed ++ [s.mem s.evtDequeue], evtDequeue := dequeue, evtCycle := cycle } := by
  by_cases wraps : evtRingPhys + 255 * 16 ≤ s.evtDequeue + 16
  · exact ⟨_, _, consumeEvent_wraps wraps⟩
  · exact ⟨_, _, consumeEvent_stays wraps⟩

theorem consumeEvent_inStep (inStep : s.EventsInStep) (ready : s.ready) :
    s.consumeEvent.EventsInStep := by
  have more := (ready_iff inStep).mp ready
  have few := inStep.few
  obtain ⟨dequeue, cycle, next⟩ := dequeue_spec inStep more
  have laps := inStep.laps.readNext (by omega) lapBit_ne more
  rw [Nat.mod_eq_of_lt (by omega), entries, ← dequeue] at laps
  have length : (s.consumed ++ [s.mem s.evtDequeue]).length = s.consumed.length + 1 := by
    rw [List.length_append, List.length_singleton]
  by_cases wraps : evtRingPhys + 255 * 16 ≤ s.evtDequeue + 16
  · rw [consumeEvent_wraps wraps, System.EventsInStep]
    refine ⟨laps, few, inStep.atPlace, Or.inr ⟨by rw [length]; omega, rfl, ?_⟩⟩
    rw [cycle]
    rfl
  · rw [consumeEvent_stays wraps, System.EventsInStep]
    dsimp only
    refine ⟨laps, few, inStep.atPlace, Or.inl ⟨by rw [length]; omega, ?_, cycle⟩⟩
    rw [length, dequeue]
    omega

theorem writeEvent_spec (inStep : s.EventsInStep) (room : s.produced.length < 255) (t : Trb) :
    s.writeEvent t = { s with
      mem := Function.update s.mem (evtRingPhys + 16 * s.produced.length) (t.setCycle 1)
      evtPlace := ⟨evtRingPhys + 16 * (s.produced.length + 1), 1⟩
      produced := s.produced ++ [t.setCycle 1] } := by
  have behind := inStep.laps.behind
  have address : s.evtPlace.addr + 16 = evtRingPhys + 16 * (s.produced.length + 1) := by
    rw [inStep.atPlace]
    show evtRingPhys + 16 * s.produced.length + 16 = _
    omega
  have inside : ¬ s.evtPlace.addr + 16 = evtRingPhys + segmentSize * 16 := by
    rw [address, segmentSize]
    omega
  have next : System.nextEvt s.evtPlace = ⟨evtRingPhys + 16 * (s.produced.length + 1), 1⟩ := by
    rw [System.nextEvt, if_neg inside, address, inStep.atPlace]
  have notFull : ¬ (System.nextEvt s.evtPlace).addr = s.evtDequeue := by
    rw [next]
    show ¬ evtRingPhys + 16 * (s.produced.length + 1) = s.evtDequeue
    rcases inStep.atDequeue with ⟨_, dequeue, _⟩ | ⟨all, _, _⟩ <;> omega
  rw [System.writeEvent, if_neg notFull, next, inStep.atPlace]

theorem writeEvent_inStep (inStep : s.EventsInStep) (room : s.produced.length < 255) (t : Trb) :
    (s.writeEvent t).EventsInStep := by
  have behind := inStep.laps.behind
  have laps := inStep.laps.writeNext (a := t.setCycle 1) (by omega) (by
    rw [Nat.div_eq_of_lt (by omega)]
    exact setCycle_spec t 0)
  rw [Nat.mod_eq_of_lt (by omega), ← entries_update] at laps
  have length : (s.produced ++ [t.setCycle 1]).length = s.produced.length + 1 := by
    rw [List.length_append, List.length_singleton]
  rw [writeEvent_spec inStep room, System.EventsInStep]
  dsimp only
  refine ⟨laps, by rw [length]; omega, by rw [length], ?_⟩
  exact inStep.atDequeue

/-! ## The rings of a device -/

section Device

variable {queued fetched : List Trb}

/-- The driver has queued the blocks of a control transfer, and the controller has fetched the first
of them. -/
structure Control (mem : Nat → Trb) (slot : Nat) (queued fetched : List Trb) (place : Place) :
    Prop where
  laps : Laps 16 Trb.cycleBit lapBit (entries mem (devicePhys slot + devTr)) queued fetched
  few : queued.length < 16
  plain : ∀ t ∈ queued, t.trbType ≠ Trb.trbLink
  atPlace : place = ⟨devicePhys slot + devTr + 16 * fetched.length, 1⟩

/-- The driver has queued reads, and the controller has fetched the first of them. The link after the
last entry points to the ring of the control endpoint, where the controller waits for ever. -/
structure Interrupt (mem : Nat → Trb) (slot : Nat) (queued fetched : List Trb) (place : Place) :
    Prop where
  laps : Laps 47 Trb.cycleBit lapBit (entries mem (devicePhys slot + devTr + 256)) queued fetched
  few : queued.length ≤ 47
  plain : ∀ t ∈ queued, t.trbType ≠ Trb.trbLink
  link : queued.length = 47 →
    mem (devicePhys slot + devTr + 256 + 16 * 47) = Trb.link (devicePhys slot + devTr) 1
  atPlace : place = ⟨devicePhys slot + devTr + 256 + 16 * fetched.length, 1⟩ ∨
    (fetched.length = 47 ∧ place = ⟨devicePhys slot + devTr, 0⟩)

theorem Control.frame (control : Control mem slot queued fetched place)
    (same : ∀ a, (Ring.control slot).Inside a → mem' a = mem a) :
    Control mem' slot queued fetched place := by
  refine ⟨control.laps.congr (by omega) fun k within => same _ ?_, control.few, control.plain,
    control.atPlace⟩
  show devicePhys slot + devTr ≤ devicePhys slot + devTr + 16 * k ∧
    devicePhys slot + devTr + 16 * k < devicePhys slot + devTr + 256
  omega

theorem Interrupt.frame (interrupt : Interrupt mem slot queued fetched place)
    (same : ∀ a, (Ring.interrupt slot).Inside a → mem' a = mem a) :
    Interrupt mem' slot queued fetched place := by
  have inside : ∀ k, k < 48 →
      (Ring.interrupt slot).Inside (devicePhys slot + devTr + 256 + 16 * k) := by
    intro k within
    show devicePhys slot + devTr + 256 ≤ devicePhys slot + devTr + 256 + 16 * k ∧
      devicePhys slot + devTr + 256 + 16 * k < devicePhys slot + devTr + 64 * 16
    omega
  refine ⟨interrupt.laps.congr (by omega) fun k within => same _ (inside k (by omega)),
    interrupt.few, interrupt.plain, fun whole => ?_, interrupt.atPlace⟩
  rw [same _ (inside 47 (by omega))]
  exact interrupt.link whole

/-- The first entry of a control ring in use is old for the next lap. -/
theorem Control.back (control : Control mem slot queued fetched place) (used : queued ≠ []) :
    (mem (devicePhys slot + devTr)).cycleBit ≠ 0 := by
  have few := control.few
  have some := List.length_pos_iff.mpr used
  rw [← entries_zero mem]
  by_cases begun : 0 < fetched.length
  · exact control.laps.old 16 (by omega) (by omega)
  · obtain ⟨here, bit⟩ := control.laps.new 0 _ (by omega) (List.getElem?_eq_getElem some)
    rw [← here] at bit
    intro none
    exact absurd (none.symm.trans bit) (by decide)

/-- The controller fetches the next block of a control transfer, if any. -/
theorem Control.fetch (control : Control mem slot queued fetched place) :
    (System.fetch mem place).1 = queued[fetched.length]? ∧
      Control mem slot queued (fetched ++ (System.fetch mem place).1.toList)
        (System.fetch mem place).2 := by
  have few := control.few
  have behind := control.laps.behind
  have read := fetch_entry control.laps (by omega) control.plain
  rw [Nat.mod_eq_of_lt (by omega), Nat.div_eq_of_lt (by omega)] at read
  rw [control.atPlace]
  rw [show System.fetch mem ⟨devicePhys slot + devTr + 16 * fetched.length, 1⟩ = _ from read]
  refine ⟨rfl, ?_⟩
  by_cases more : fetched.length < queued.length
  · have laps := control.laps.readNext (by omega) lapBit_ne more
    have next := control.laps.next more
    rw [if_pos more, next, Option.toList_some]
    refine ⟨laps, few, control.plain, ?_⟩
    rw [List.length_append, List.length_singleton]
    exact place_next _ _ _
  · rw [if_neg more, List.getElem?_eq_none (Nat.le_of_not_lt more), Option.toList_none,
      List.append_nil]
    exact ⟨control.laps, few, control.plain, rfl⟩

theorem devicePhys_fits (enabled : slot ≤ maxHidDevs) : devicePhys slot + devTr < 2 ^ 64 := by
  unfold maxHidDevs at enabled
  unfold devicePhys devBasePhys xhciDmaBase devBlock devTr
  omega

/-- The controller fetches the next read, if any. -/
theorem Interrupt.fetch (interrupt : Interrupt mem slot queued fetched place)
    (enabled : slot ≤ maxHidDevs)
    (back : queued ≠ [] → (mem (devicePhys slot + devTr)).cycleBit ≠ 0) :
    (System.fetch mem place).1 = queued[fetched.length]? ∧
      Interrupt mem slot queued (fetched ++ (System.fetch mem place).1.toList)
        (System.fetch mem place).2 := by
  have few := interrupt.few
  have behind := interrupt.laps.behind
  have stay : fetched.length = queued.length → (System.fetch mem place).1 = none →
      (System.fetch mem place).2 = ⟨devicePhys slot + devTr + 256 + 16 * fetched.length, 1⟩ ∨
        (fetched.length = 47 ∧ (System.fetch mem place).2 = ⟨devicePhys slot + devTr, 0⟩) →
      (System.fetch mem place).1 = queued[fetched.length]? ∧
        Interrupt mem slot queued (fetched ++ (System.fetch mem place).1.toList)
          (System.fetch mem place).2 := by
    intro all none atPlace
    rw [none, List.getElem?_eq_none (by omega), Option.toList_none, List.append_nil]
    exact ⟨rfl, interrupt.laps, few, interrupt.plain, interrupt.link, atPlace⟩
  rcases interrupt.atPlace with entry | ⟨all, atStart⟩
  · by_cases whole : fetched.length = 47
    · have link := interrupt.link (by omega)
      rw [← whole] at link
      obtain ⟨bit, kind, toggle, target⟩ := link_spec (devicePhys_fits enabled) 0
      have read : System.fetch mem place = _ := fetch_link (by rw [entry, link]; exact bit)
        (by rw [entry, link]; exact kind) (by rw [entry, link]; exact toggle)
      refine stay (by omega) (by rw [read]) (Or.inr ⟨whole, ?_⟩)
      rw [read, entry, link, show (Trb.link (devicePhys slot + devTr) 1).target = _ from target]
      exact congrArg (Place.mk _) (show (1 : UInt32) ^^^ 1 = 0 by decide)
    · have read := fetch_entry interrupt.laps (by omega) interrupt.plain
      rw [Nat.mod_eq_of_lt (by omega), Nat.div_eq_of_lt (by omega)] at read
      rw [← show place = ⟨devicePhys slot + devTr + 256 + 16 * fetched.length, lapBit 0⟩ from entry]
        at read
      by_cases more : fetched.length < queued.length
      · have laps := interrupt.laps.readNext (by omega) lapBit_ne more
        have next := interrupt.laps.next more
        rw [read, if_pos more, next, Option.toList_some]
        refine ⟨rfl, laps, few, interrupt.plain, interrupt.link, Or.inl ?_⟩
        rw [List.length_append, List.length_singleton]
        exact place_next _ _ _
      · rw [if_neg more] at read
        refine stay (by omega) ?_ (Or.inl ?_)
        · rw [read, List.getElem?_eq_none (Nat.le_of_not_lt more)]
        · rw [read, entry]
  · have used : queued ≠ [] := by
      intro none
      rw [none, List.length_nil] at behind
      omega
    have read : System.fetch mem place = _ := fetch_old (by rw [atStart]; exact back used)
    exact stay (by omega) (by rw [read]) (Or.inr ⟨all, by rw [read]; exact atStart⟩)

end Device

end RustyPenguin.Usb
