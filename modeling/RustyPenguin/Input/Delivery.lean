import RustyPenguin.Foundation.Ring
import RustyPenguin.Foundation.Trace
import RustyPenguin.Input.Events

/-!
# Input from the kernel to the desktop

The interrupt side puts keys and mouse packets into a ring of 256 places. The desktop drains the ring
in a poll, one system call after the other, while interrupts go on; the keys of a poll go into a
buffer of eight bytes, and what does not fit is dropped.

While the ring is never full, what was pushed is what was returned, what the poll in progress holds
and what is in the ring, in this order, exactly when no poll takes a ninth key byte
(`delivered_iff`). Nine keys between two polls are too many (`ninth_key_lost`).
-/

set_option autoImplicit false

namespace RustyPenguin.Input

open Foundation (Ring)
open Trace (after Always Each)

/-! ## The desktop's side -/

structure MouseState where
  x : BitVec 32
  y : BitVec 32
  buttons : BitVec 8
  btnPressed : BitVec 8
  deriving DecidableEq

/-- The key bytes of a poll. -/
structure Keys where
  bytes : List (BitVec 8)
  fits : bytes.length ≤ 8

def Keys.new : Keys := ⟨[], Nat.zero_le 8⟩

def Keys.push (keys : Keys) (b : BitVec 8) : Keys :=
  if room : keys.bytes.length < 8 then
    ⟨keys.bytes ++ [b], by rw [List.length_append]; exact room⟩
  else keys

/-- A poll in progress: its keys and the buttons so far. -/
structure Drain where
  keys : Keys
  cur : BitVec 8

/-- One event of the loop. -/
def handle (ev : RawEvent) (mouse : MouseState) (drain : Drain) : MouseState × Drain :=
  if eventType ev = 0x01 then
    if eventAscii ev ≠ 0 then (mouse, { drain with keys := drain.keys.push (eventAscii ev) })
    else (mouse, drain)
  else if eventType ev = 0x02 then
    ({ mouse with
        x := eventX ev
        y := eventY ev
        btnPressed := mouse.btnPressed ||| (eventButtons ev &&& ~~~drain.cur) },
      { drain with cur := eventButtons ev })
  else (mouse, drain)

/-! ## Both sides -/

/-- A mouse position with buttons. -/
structure Pointer where
  x : BitVec 32
  y : BitVec 32
  buttons : BitVec 8
  deriving DecidableEq

/-- The ring and the desktop, with what the polls have returned and what has been pushed. -/
structure State where
  ring : Ring 256 RawEvent
  mouse : MouseState
  drain : Option Drain
  returned : List (List (BitVec 8))
  pushedKeys : List (BitVec 8)
  lastMouse : Pointer

inductive Event
  | pushKey (ascii scancode : BitVec 8)
  | pushMouse (x y : BitVec 16) (buttons : BitVec 8)
  | startPoll
  | takeEvent

/-- `sys_input_poll`: zero when the ring is empty. -/
def sysInputPoll (ring : Ring 256 RawEvent) : RawEvent × Ring 256 RawEvent :=
  match ring.pop with
  | some (ev, rest) => (ev, rest)
  | none => (0, ring)

/-- A turn of the loop of `poll`, or its end. -/
def State.take (s : State) (drain : Drain) (ev : RawEvent) (ring : Ring 256 RawEvent) : State :=
  if ev = 0 then
    { s with
      ring := ring
      mouse := { s.mouse with buttons := drain.cur }
      drain := none
      returned := s.returned ++ [drain.keys.bytes] }
  else
    { s with
      ring := ring
      mouse := (handle ev s.mouse drain).1
      drain := some (handle ev s.mouse drain).2 }

def State.step (s : State) : Event → State
  | .pushKey ascii scancode =>
    { s with
      ring := s.ring.push (keyEvent ascii scancode)
      pushedKeys := s.pushedKeys ++ [ascii] }
  | .pushMouse x y buttons =>
    { s with
      ring := s.ring.push (mouseEvent x y buttons)
      lastMouse := ⟨x.setWidth 32, y.setWidth 32, buttons⟩ }
  | .startPoll =>
    match s.drain with
    | some _ => s
    | none =>
      { s with
        mouse := { s.mouse with btnPressed := 0 }
        drain := some ⟨Keys.new, s.mouse.buttons⟩ }
  | .takeEvent =>
    match s.drain with
    | some drain => s.take drain (sysInputPoll s.ring).1 (sysInputPoll s.ring).2
    | none => s

def emptyRing : Ring 256 RawEvent := ⟨fun _ => 0, 0, 0, by decide, by decide⟩

/-- Nothing pushed or polled yet. -/
def start (mouse : MouseState) : State :=
  ⟨emptyRing, mouse, none, [], [], ⟨mouse.x, mouse.y, mouse.buttons⟩⟩

/-! ## What is on the way -/

def keyOf (ev : RawEvent) : Option (BitVec 8) :=
  if eventType ev = 0x01 then some (eventAscii ev) else none

/-- The key bytes among events. -/
def keysOf (events : List RawEvent) : List (BitVec 8) := events.filterMap keyOf

/-- Where the pointer is after events. -/
def pointerAfter (p : Pointer) (ev : RawEvent) : Pointer :=
  if eventType ev = 0x02 then ⟨eventX ev, eventY ev, eventButtons ev⟩ else p

/-- The key bytes that a poll in progress holds. -/
def State.held (s : State) : List (BitVec 8) :=
  match s.drain with
  | some drain => drain.keys.bytes
  | none => []

/-- The pointer that the desktop has seen. -/
def State.seen (s : State) : Pointer :=
  match s.drain with
  | some drain => ⟨s.mouse.x, s.mouse.y, drain.cur⟩
  | none => ⟨s.mouse.x, s.mouse.y, s.mouse.buttons⟩

/-- What was pushed is what was returned, is held and is in the ring, and the ring leads to the last
pointer. -/
structure Delivered (s : State) : Prop where
  keys : s.returned.flatten ++ s.held ++ keysOf s.ring.contents = s.pushedKeys
  mouse : s.ring.contents.foldl pointerAfter s.seen = s.lastMouse

/-- No poll is in progress and nothing is in the ring. -/
structure Quiet (s : State) : Prop where
  between : s.drain = none
  empty : s.ring.contents = []

/-- The ring has room for what is pushed. -/
def Event.Room (s : State) : Event → Prop
  | .pushKey _ _ | .pushMouse _ _ _ => ¬s.ring.Full
  | .startPoll | .takeEvent => True

/-- The poll in progress and the event it takes next. -/
def State.taking (s : State) : Option (Drain × RawEvent) :=
  s.drain.bind fun drain => s.ring.pop.map fun popped => (drain, popped.1)

/-- A poll that takes a key has room for it. -/
def Event.Fits (s : State) : Event → Prop
  | .takeEvent => ∀ t ∈ s.taking, eventType t.2 = 0x01 →
      eventAscii t.2 ≠ 0 ∧ t.1.keys.bytes.length < 8
  | .pushKey _ _ | .pushMouse _ _ _ | .startPoll => True

instance (s : State) : (e : Event) → Decidable (e.Room s)
  | .pushKey _ _ | .pushMouse _ _ _ => inferInstanceAs (Decidable ¬s.ring.Full)
  | .startPoll | .takeEvent => inferInstanceAs (Decidable True)

instance (s : State) : (e : Event) → Decidable (e.Fits s)
  | .takeEvent => inferInstanceAs (Decidable (∀ t ∈ s.taking, eventType t.2 = 0x01 →
      eventAscii t.2 ≠ 0 ∧ t.1.keys.bytes.length < 8))
  | .pushKey _ _ | .pushMouse _ _ _ | .startPoll => inferInstanceAs (Decidable True)

/-- What the kernel puts into the ring. -/
def IsEvent (ev : RawEvent) : Prop := eventType ev = 0x01 ∨ eventType ev = 0x02

def Typed (s : State) : Prop := ∀ ev ∈ s.ring.contents, IsEvent ev

section Steps

variable {s : State} {ev : RawEvent} {events : List RawEvent} {drain : Drain}

@[simp] theorem keysOf_append (first second : List RawEvent) :
    keysOf (first ++ second) = keysOf first ++ keysOf second := List.filterMap_append

theorem keysOf_key (key : eventType ev = 0x01) : keysOf (ev :: events) = eventAscii ev :: keysOf events := by
  rw [keysOf, List.filterMap_cons_some (show keyOf ev = _ from if_pos key)]
  rfl

theorem keysOf_other (other : eventType ev ≠ 0x01) : keysOf (ev :: events) = keysOf events := by
  rw [keysOf, List.filterMap_cons_none (show keyOf ev = _ from if_neg other)]
  rfl

theorem IsEvent.ne_zero (isEvent : IsEvent ev) : ev ≠ 0 := by
  rintro rfl
  rcases isEvent with key | mouse
  · exact absurd key (by decide)
  · exact absurd mouse (by decide)

theorem sysInputPoll_some {rest : Ring 256 RawEvent} (popped : s.ring.pop = some (ev, rest)) :
    sysInputPoll s.ring = (ev, rest) := by
  rw [sysInputPoll, popped]

theorem sysInputPoll_none (popped : s.ring.pop = none) : sysInputPoll s.ring = (0, s.ring) := by
  rw [sysInputPoll, popped]

theorem bytes_push {keys : Keys} {b : BitVec 8} :
    (keys.push b).bytes = if keys.bytes.length < 8 then keys.bytes ++ [b] else keys.bytes := by
  rw [Keys.push]
  split_ifs <;> rfl

theorem pointerAfter_key {p : Pointer} (key : eventType ev = 0x01) : pointerAfter p ev = p := by
  rw [pointerAfter, key, if_neg (by decide)]

theorem pointerAfter_mouse {p : Pointer} (mouse : eventType ev = 0x02) :
    pointerAfter p ev = ⟨eventX ev, eventY ev, eventButtons ev⟩ := if_pos mouse

theorem IsEvent.key_or_mouse (isEvent : IsEvent ev) (other : eventType ev ≠ 0x01) :
    eventType ev = 0x02 := isEvent.resolve_left other

/-! ## What a step does -/

theorem delivered_pushKey {ascii scancode : BitVec 8} (delivered : Delivered s) (room : ¬s.ring.Full) :
    Delivered (s.step (.pushKey ascii scancode)) := by
  refine ⟨?_, ?_⟩
  · show s.returned.flatten ++ s.held ++ keysOf (s.ring.push _).contents = s.pushedKeys ++ [ascii]
    rw [Ring.contents_push room, keysOf_append, ← List.append_assoc, delivered.keys,
      keysOf_key (eventType_keyEvent ascii scancode), eventAscii_keyEvent]
    rfl
  · show (s.ring.push _).contents.foldl pointerAfter s.seen = s.lastMouse
    rw [Ring.contents_push room, List.foldl_append, delivered.mouse]
    exact pointerAfter_key (eventType_keyEvent ascii scancode)

theorem delivered_pushMouse {x y : BitVec 16} {buttons : BitVec 8} (delivered : Delivered s)
    (room : ¬s.ring.Full) : Delivered (s.step (.pushMouse x y buttons)) := by
  have other : eventType (mouseEvent x y buttons) ≠ 0x01 := by
    rw [eventType_mouseEvent]
    decide
  refine ⟨?_, ?_⟩
  · show s.returned.flatten ++ s.held ++ keysOf (s.ring.push _).contents = s.pushedKeys
    rw [Ring.contents_push room, keysOf_append, keysOf_other other, ← List.append_assoc, delivered.keys]
    exact List.append_nil _
  · show (s.ring.push _).contents.foldl pointerAfter s.seen = _
    rw [Ring.contents_push room, List.foldl_append, List.foldl_cons, List.foldl_nil,
      pointerAfter_mouse (eventType_mouseEvent buttons x y), eventX_mouseEvent, eventY_mouseEvent,
      eventButtons_mouseEvent]
    rfl

theorem delivered_startPoll (delivered : Delivered s) : Delivered (s.step .startPoll) := by
  obtain ⟨keys, mouse⟩ := delivered
  rcases polling : s.drain with _ | drain
  · rw [State.held, polling] at keys
    rw [State.seen, polling] at mouse
    rw [State.step, polling]
    exact ⟨keys, mouse⟩
  · rw [State.step, polling]
    exact ⟨keys, mouse⟩

/-- The end of a poll hands over what it holds. -/
theorem delivered_finish (delivered : Delivered s) (polling : s.drain = some drain)
    (popped : s.ring.pop = none) : Delivered (s.step .takeEvent) := by
  obtain ⟨keys, mouse⟩ := delivered
  rw [State.held, polling] at keys
  rw [State.seen, polling] at mouse
  rw [State.step, polling]
  dsimp only at keys mouse ⊢
  rw [sysInputPoll_none popped, State.take, if_pos rfl]
  refine ⟨?_, mouse⟩
  show (s.returned ++ [drain.keys.bytes]).flatten ++ [] ++ keysOf s.ring.contents = s.pushedKeys
  rw [List.append_nil, List.flatten_append, List.flatten_singleton, keys]

theorem handle_key (drain : Drain) (mouse : MouseState) (key : eventType ev = 0x01) :
    (handle ev mouse drain).1 = mouse ∧ (handle ev mouse drain).2.cur = drain.cur ∧
      (handle ev mouse drain).2.keys.bytes =
        if eventAscii ev ≠ 0 ∧ drain.keys.bytes.length < 8 then drain.keys.bytes ++ [eventAscii ev]
        else drain.keys.bytes := by
  rw [handle, if_pos key]
  by_cases some : eventAscii ev ≠ 0
  · rw [if_pos some]
    refine ⟨rfl, rfl, Eq.trans bytes_push ?_⟩
    by_cases room : drain.keys.bytes.length < 8
    · rw [if_pos room, if_pos ⟨some, room⟩]
    · rw [if_neg room, if_neg (fun both => room both.2)]
  · rw [if_neg some, if_neg (fun both => some both.1)]
    exact ⟨rfl, rfl, rfl⟩

/-- A key is delivered exactly when it is not zero and the buffer has room. -/
theorem delivered_take_key {rest : Ring 256 RawEvent} (delivered : Delivered s)
    (polling : s.drain = some drain) (popped : s.ring.pop = some (ev, rest))
    (key : eventType ev = 0x01) : Delivered (s.step .takeEvent) ↔
      eventAscii ev ≠ 0 ∧ drain.keys.bytes.length < 8 := by
  obtain ⟨keys, mouse⟩ := delivered
  obtain ⟨sameMouse, sameCur, held⟩ := handle_key drain s.mouse key
  rw [State.held, polling, Ring.pop_eq_some popped, keysOf_key key] at keys
  rw [State.seen, polling, Ring.pop_eq_some popped, List.foldl_cons, pointerAfter_key key] at mouse
  rw [State.step, polling]
  dsimp only at keys mouse ⊢
  rw [sysInputPoll_some popped, State.take, if_neg (IsEvent.ne_zero (Or.inl key)), sameMouse]
  constructor
  · rintro ⟨keys', -⟩
    by_contra lost
    rw [if_neg lost] at held
    have same : s.returned.flatten ++ (handle ev s.mouse drain).2.keys.bytes ++ keysOf rest.contents =
        s.pushedKeys := keys'
    have lengths := congrArg List.length (same.trans keys.symm)
    rw [held] at lengths
    simp only [List.length_append, List.length_cons] at lengths
    omega
  · intro fits
    rw [if_pos fits] at held
    refine ⟨?_, ?_⟩
    · show s.returned.flatten ++ (handle ev s.mouse drain).2.keys.bytes ++ keysOf rest.contents = _
      rw [held, ← keys]
      simp only [List.append_assoc, List.cons_append, List.nil_append]
    · show rest.contents.foldl pointerAfter ⟨s.mouse.x, s.mouse.y, (handle ev s.mouse drain).2.cur⟩ = _
      rw [sameCur, mouse]

theorem delivered_take_mouse {rest : Ring 256 RawEvent} (delivered : Delivered s)
    (polling : s.drain = some drain) (popped : s.ring.pop = some (ev, rest))
    (isMouse : eventType ev = 0x02) : Delivered (s.step .takeEvent) := by
  obtain ⟨keys, mouse⟩ := delivered
  have other : eventType ev ≠ 0x01 := by
    rw [isMouse]
    decide
  rw [State.held, polling, Ring.pop_eq_some popped, keysOf_other other] at keys
  rw [State.seen, polling, Ring.pop_eq_some popped, List.foldl_cons, pointerAfter_mouse isMouse] at mouse
  rw [State.step, polling]
  dsimp only at keys mouse ⊢
  rw [sysInputPoll_some popped, State.take, if_neg (IsEvent.ne_zero (Or.inr isMouse)), handle,
    if_neg other, if_pos isMouse]
  exact ⟨keys, mouse⟩

/-- **A step keeps what was pushed exactly when a poll has room for the key it takes.** -/
theorem delivered_step_iff {e : Event} (typed : Typed s) (delivered : Delivered s) (room : e.Room s) :
    Delivered (s.step e) ↔ e.Fits s := by
  cases e with
  | pushKey ascii scancode => exact ⟨fun _ => trivial, fun _ => delivered_pushKey delivered room⟩
  | pushMouse x y buttons => exact ⟨fun _ => trivial, fun _ => delivered_pushMouse delivered room⟩
  | startPoll => exact ⟨fun _ => trivial, fun _ => delivered_startPoll delivered⟩
  | takeEvent =>
    rw [Event.Fits, State.taking]
    rcases polling : s.drain with _ | drain
    · refine ⟨fun _ => nofun, fun _ => ?_⟩
      rw [State.step, polling]
      exact delivered
    rcases popped : s.ring.pop with _ | ⟨ev, rest⟩
    · exact ⟨fun _ => nofun, fun _ => delivered_finish delivered polling popped⟩
    · by_cases key : eventType ev = 0x01
      · rw [delivered_take_key delivered polling popped key]
        constructor
        · rintro fits t ⟨⟩ _
          exact fits
        · intro fits
          exact fits (drain, ev) rfl key
      · have isEvent : IsEvent ev := by
          refine typed ev ?_
          rw [Ring.pop_eq_some popped]
          exact List.mem_cons_self
        refine ⟨?_, fun _ => ?_⟩
        · rintro _ t ⟨⟩ key'
          exact absurd key' key
        · exact delivered_take_mouse delivered polling popped (isEvent.key_or_mouse key)

theorem typed_push (typed : Typed s) (room : ¬s.ring.Full) (isEvent : IsEvent ev) :
    ∀ ev' ∈ (s.ring.push ev).contents, IsEvent ev' := by
  intro ev' inside
  rw [Ring.contents_push room] at inside
  rcases List.mem_append.mp inside with old | new
  · exact typed ev' old
  · rw [List.mem_singleton.mp new]
    exact isEvent

theorem typed_step {e : Event} (typed : Typed s) (room : e.Room s) : Typed (s.step e) := by
  cases e with
  | pushKey ascii scancode => exact typed_push typed room (Or.inl (eventType_keyEvent ascii scancode))
  | pushMouse x y buttons => exact typed_push typed room (Or.inr (eventType_mouseEvent buttons x y))
  | startPoll =>
    rcases polling : s.drain with _ | drain
    all_goals rw [State.step, polling]; exact typed
  | takeEvent =>
    rcases polling : s.drain with _ | drain
    · rw [State.step, polling]
      exact typed
    rw [State.step, polling]
    have rest : ∀ ev ∈ (sysInputPoll s.ring).2.contents, IsEvent ev := by
      rcases popped : s.ring.pop with _ | ⟨ev, rest⟩
      · rw [sysInputPoll_none popped]
        exact typed
      · rw [sysInputPoll_some popped]
        intro ev' inside
        refine typed ev' ?_
        rw [Ring.pop_eq_some popped]
        exact List.mem_cons_of_mem ev inside
    dsimp only
    rw [State.take]
    split
    · exact rest
    · exact rest

/-- Between polls with nothing in the ring, all has been delivered. -/
theorem Delivered.quiet (delivered : Delivered s) (quiet : Quiet s) :
    s.returned.flatten = s.pushedKeys ∧ ⟨s.mouse.x, s.mouse.y, s.mouse.buttons⟩ = s.lastMouse := by
  obtain ⟨keys, mouse⟩ := delivered
  rw [State.held, quiet.between, quiet.empty] at keys
  rw [State.seen, quiet.between, quiet.empty] at mouse
  refine ⟨?_, mouse⟩
  rw [← keys]
  simp [keysOf]

end Steps

/-! ## Runs -/

section Runs

theorem contents_emptyRing : emptyRing.contents = [] := rfl

theorem delivered_start (mouse : MouseState) : Delivered (start mouse) := ⟨rfl, rfl⟩

theorem typed_start (mouse : MouseState) : Typed (start mouse) := by
  intro ev inside
  rw [start, contents_emptyRing] at inside
  cases inside

/-- **The keys arrive in order and the pointer is the last one, exactly when no poll takes more keys
than it holds**: for every order of pushes and polls in which the ring is never full. -/
theorem delivered_iff (mouse : MouseState) (events : List Event)
    (room : Each State.step (start mouse) (fun s e => e.Room s) events) :
    (Always State.step (start mouse) Delivered events ↔
      Each State.step (start mouse) (fun s e => e.Fits s) events) ∧
    (Each State.step (start mouse) (fun s e => e.Fits s) events →
      ∀ front, front <+: events → Quiet (after State.step (start mouse) front) →
        (after State.step (start mouse) front).returned.flatten =
          (after State.step (start mouse) front).pushedKeys ∧
        (⟨(after State.step (start mouse) front).mouse.x, (after State.step (start mouse) front).mouse.y,
          (after State.step (start mouse) front).mouse.buttons⟩ : Pointer) =
          (after State.step (start mouse) front).lastMouse) := by
  have iff := Trace.always_iff_of_each (I := Typed) (P := Delivered) (typed_start mouse)
    (delivered_start mouse) (fun s e typed room => typed_step typed room)
    (fun s e typed delivered room => delivered_step_iff typed delivered room) events room
  refine ⟨iff, ?_⟩
  intro fits front part quiet
  exact (iff.mpr fits front part).quiet quiet

/-- A pointer at rest. -/
def still : MouseState := ⟨0, 0, 0, 0⟩

/-- A key is pushed, and a poll returns it. -/
def sampleEvents : List Event := [.pushKey 0x61 0x1E, .startPoll, .takeEvent, .takeEvent]

/-- The theorem at one key. -/
theorem delivered_iff_sample :
    (after State.step (start still) sampleEvents).returned.flatten = [0x61] := by
  have room : Each State.step (start still) (fun s e => e.Room s) sampleEvents := by decide
  have fits : Each State.step (start still) (fun s e => e.Fits s) sampleEvents := by decide
  have quiet : Quiet (after State.step (start still) sampleEvents) :=
    ⟨Option.isNone_iff_eq_none.mp (by decide), by decide⟩
  rw [((delivered_iff still sampleEvents room).2 fits sampleEvents List.prefix_rfl quiet).1]
  rfl

/-- Nine keys are pushed before a poll drains the ring. -/
def nineKeys : List Event :=
  List.replicate 9 (.pushKey 0x61 0x1E) ++ .startPoll :: List.replicate 10 .takeEvent

/-- **The ninth key of a poll is lost**, in a ring that is never full. -/
theorem ninth_key_lost :
    Each State.step (start still) (fun s e => e.Room s) nineKeys ∧
    (after State.step (start still) nineKeys).pushedKeys = List.replicate 9 0x61 ∧
    (after State.step (start still) nineKeys).returned = [List.replicate 8 0x61] ∧
    (after State.step (start still) nineKeys).drain.isNone ∧
    (after State.step (start still) nineKeys).ring.contents = [] := by
  decide

end Runs

end RustyPenguin.Input
