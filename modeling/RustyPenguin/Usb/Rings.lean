import RustyPenguin.Foundation.Laps
import RustyPenguin.Usb.Xhci

/-!
# The rings stay in step

Each ring of the system is a ring with a lap bit, whose writer and reader keep their own place in
it. The command ring may go round any number of times. The event ring is in step as long as the
driver has not gone round it, and a device's interrupt ring as long as the driver has not left it:
both are left at the wrong entry.
-/

set_option autoImplicit false

namespace RustyPenguin.Usb

open Foundation

/-- The cycle bit of a lap. -/
def lapBit (k : Nat) : UInt32 := if k % 2 = 0 then 1 else 0

theorem lapBit_cases (k : Nat) : lapBit k = 0 ∨ lapBit k = 1 := by
  rw [lapBit]
  split
  · exact Or.inr rfl
  · exact Or.inl rfl

theorem lapBit_forall {P : UInt32 → Prop} (zero : P 0) (one : P 1) (k : Nat) : P (lapBit k) := by
  rcases lapBit_cases k with isZero | isOne
  · rw [isZero]
    exact zero
  · rw [isOne]
    exact one

theorem lapBit_succ (k : Nat) : lapBit (k + 1) = lapBit k ^^^ 1 := by
  rw [lapBit, lapBit]
  rcases Nat.mod_two_eq_zero_or_one k with even | odd
  · rw [if_neg (by omega), if_pos even]
    rfl
  · rw [if_pos (by omega), if_neg (by omega)]
    rfl

theorem lapBit_ne (k : Nat) : lapBit k ≠ lapBit (k + 1) := by
  rw [lapBit_succ]
  exact lapBit_forall (P := fun c => c ≠ c ^^^ 1) (by decide) (by decide) k

/-! ## Blocks -/

theorem or_and (a b c : UInt32) : (a ||| b) &&& c = (a &&& c) ||| (b &&& c) :=
  UInt32.toBitVec_inj.mp BitVec.and_or_distrib_right

theorem highest_bit (x : UInt32) : (x <<< 24) &&& 1 = 0 := by
  refine UInt32.toNat_inj.mp ?_
  rw [UInt32.toNat_and, UInt32.toNat_shiftLeft, Nat.shiftLeft_eq]
  show x.toNat * 2 ^ 24 % 2 ^ 32 &&& 1 = 0
  rw [Nat.and_one_is_mod]
  omega

theorem highest_type (x : UInt32) : ((x <<< 24) >>> 10) &&& 0x3F = 0 := by
  refine UInt32.toNat_inj.mp ?_
  rw [UInt32.toNat_and, UInt32.toNat_shiftRight, UInt32.toNat_shiftLeft, Nat.shiftLeft_eq,
    Nat.shiftRight_eq_div_pow]
  show (x.toNat * 2 ^ 24 % 2 ^ 32 / 2 ^ 10) &&& (2 ^ 6 - 1) = 0
  rw [Nat.and_two_pow_sub_one_eq_mod]
  omega

/-- A slot in the highest byte is neither in the bit nor in the type of a block. -/
theorem slotted (x rest : UInt32) :
    ((x <<< (24 : UInt32)) ||| rest) &&& 1 = rest &&& 1 ∧
      (((x <<< (24 : UInt32)) ||| rest) >>> (10 : UInt32)) &&& 0x3F =
        (rest >>> (10 : UInt32)) &&& 0x3F := by
  constructor
  · rw [or_and, highest_bit, UInt32.zero_or]
  · rw [UInt32.shiftRight_or, or_and, highest_type, UInt32.zero_or]

theorem command_spec (c : Command) (k : Nat) :
    (c.trb (lapBit k)).cycleBit = lapBit k ∧ (c.trb (lapBit k)).trbType ≠ Trb.trbLink := by
  cases c with
  | enableSlot =>
    exact lapBit_forall (P := fun c => (Trb.enableSlot c).cycleBit = c ∧
      (Trb.enableSlot c).trbType ≠ Trb.trbLink) (by decide) (by decide) k
  | addressDevice inCtx slot =>
    obtain ⟨bit, kind⟩ := slotted slot.toUInt32 ((Trb.trbAddressDev <<< 10) ||| lapBit k)
    rw [← UInt32.or_assoc] at bit kind
    rw [Command.trb, Trb.cycleBit, Trb.trbType, Trb.addressDevice, bit, kind]
    exact lapBit_forall (P := fun c => ((Trb.trbAddressDev <<< (10 : UInt32)) ||| c) &&& 1 = c ∧
      (((Trb.trbAddressDev <<< (10 : UInt32)) ||| c) >>> (10 : UInt32)) &&& 0x3F ≠ Trb.trbLink) (by decide) (by decide) k
  | configureEp inCtx slot =>
    obtain ⟨bit, kind⟩ := slotted slot.toUInt32 ((Trb.trbConfigureEp <<< 10) ||| lapBit k)
    rw [← UInt32.or_assoc] at bit kind
    rw [Command.trb, Trb.cycleBit, Trb.trbType, Trb.configureEp, bit, kind]
    exact lapBit_forall (P := fun c => ((Trb.trbConfigureEp <<< (10 : UInt32)) ||| c) &&& 1 = c ∧
      (((Trb.trbConfigureEp <<< (10 : UInt32)) ||| c) >>> (10 : UInt32)) &&& 0x3F ≠ Trb.trbLink) (by decide) (by decide) k

theorem link_spec {ring : Nat} (fits : ring < 2 ^ 64) (k : Nat) :
    (Trb.link ring (lapBit k)).cycleBit = lapBit k ∧
      (Trb.link ring (lapBit k)).trbType = Trb.trbLink ∧
      (Trb.link ring (lapBit k)).dw3 &&& 2 ≠ 0 ∧ (Trb.link ring (lapBit k)).target = ring := by
  have address : (Trb.link ring (lapBit k)).target = ring := by
    show (UInt32.ofNat ring).toNat + 2 ^ 32 * (UInt32.ofNat (ring / 2 ^ 32)).toNat = ring
    rw [UInt32.toNat_ofNat', UInt32.toNat_ofNat']
    omega
  have dword : ∀ P : UInt32 → UInt32 → Prop,
      P 0 ((Trb.trbLink <<< 10) ||| ((1 : UInt32) <<< 1) ||| 0) →
      P 1 ((Trb.trbLink <<< 10) ||| ((1 : UInt32) <<< 1) ||| 1) →
      P (lapBit k) (Trb.link ring (lapBit k)).dw3 := fun P zero one =>
    lapBit_forall (P := fun c => P c ((Trb.trbLink <<< 10) ||| ((1 : UInt32) <<< 1) ||| c)) zero one k
  exact ⟨dword (fun c w => w &&& 1 = c) (by decide) (by decide),
    dword (fun _ w => (w >>> 10) &&& 0x3F = Trb.trbLink) (by decide) (by decide),
    dword (fun _ w => w &&& 2 ≠ 0) (by decide) (by decide), address⟩

theorem setCycle_spec (t : Trb) (k : Nat) : (t.setCycle (lapBit k)).cycleBit = lapBit k := by
  have bit : (lapBit k &&& 1) &&& 1 = lapBit k :=
    lapBit_forall (P := fun c => (c &&& 1) &&& 1 = c) (by decide) (by decide) k
  show ((t.dw3 &&& ~~~1) ||| (lapBit k &&& 1)) &&& 1 = lapBit k
  rw [or_and, UInt32.and_assoc, bit, show (~~~(1 : UInt32)) &&& 1 = 0 by decide, UInt32.and_zero,
    UInt32.zero_or]

/-! ## Entries -/

/-- An address of a ring. -/
def Ring.Inside (ring : Ring) (a : Nat) : Prop := ring.first ≤ a ∧ a < ring.last

/-- The blocks of memory from an address on. -/
def entries (mem : Nat → Trb) (first k : Nat) : Trb := mem (first + 16 * k)

theorem entries_zero (mem : Nat → Trb) (first : Nat) : entries mem first 0 = mem first := rfl

theorem place_next (first k : Nat) (c : UInt32) :
    (⟨first + 16 * k + 16, c⟩ : Place) = ⟨first + 16 * (k + 1), c⟩ := rfl

theorem entries_update (mem : Nat → Trb) (first k : Nat) (t : Trb) :
    entries (Function.update mem (first + 16 * k) t) first =
      Function.update (entries mem first) k t := by
  funext j
  by_cases same : j = k
  · rw [same, Function.update_self]
    exact Function.update_self _ _ _
  · rw [Function.update_of_ne same]
    exact Function.update_of_ne (by omega) _ _

/-- A block written elsewhere leaves the entries of a ring. -/
theorem entries_elsewhere {mem : Nat → Trb} {first n a : Nat} (t : Trb)
    (elsewhere : ∀ k, k < n → first + 16 * k ≠ a) :
    ∀ k, k < n → entries (Function.update mem a t) first k = entries mem first k :=
  fun k inside => Function.update_of_ne (elsewhere k inside) _ _

/-! ## Reading -/

section Fetch

variable {mem : Nat → Trb} {p : Place}

theorem fetch_old (old : (mem p.addr).cycleBit ≠ p.cycle) : System.fetch mem p = (none, p) :=
  if_pos old

theorem fetch_new (new : (mem p.addr).cycleBit = p.cycle)
    (plain : (mem p.addr).trbType ≠ Trb.trbLink) :
    System.fetch mem p = (some (mem p.addr), ⟨p.addr + 16, p.cycle⟩) := by
  rw [System.fetch]
  rw [if_neg (not_not.mpr new), if_neg plain]

theorem fetch_link (new : (mem p.addr).cycleBit = p.cycle)
    (link : (mem p.addr).trbType = Trb.trbLink) (toggle : (mem p.addr).dw3 &&& 2 ≠ 0) :
    System.fetch mem p = (none, ⟨(mem p.addr).target, p.cycle ^^^ 1⟩) := by
  rw [System.fetch]
  rw [if_neg (not_not.mpr new), if_pos link, if_neg toggle]

variable {n first : Nat} {written read : List Trb}

/-- A controller at the next entry of a ring reads it if it is written. -/
theorem fetch_entry (laps : Laps n Trb.cycleBit lapBit (entries mem first) written read)
    (some : 0 < n) (plain : ∀ t ∈ written, t.trbType ≠ Trb.trbLink) :
    System.fetch mem ⟨first + 16 * (read.length % n), lapBit (read.length / n)⟩ =
      (written[read.length]?, if read.length < written.length then
        ⟨first + 16 * (read.length % n) + 16, lapBit (read.length / n)⟩
        else ⟨first + 16 * (read.length % n), lapBit (read.length / n)⟩) := by
  have isNew := laps.isNew some
  by_cases more : read.length < written.length
  · have next := laps.next more
    rw [if_pos more, next]
    exact fetch_new (isNew.mpr more) (plain _ (List.mem_of_getElem? next))
  · rw [if_neg more, List.getElem?_eq_none (Nat.le_of_not_lt more)]
    exact fetch_old fun same => more (isNew.mp same)

end Fetch

/-! ## The command ring -/

/-- The driver has posted commands, and the controller has executed the first of them. After the last
entry the controller's place is the link, until it has followed it. -/
structure Commands (mem : Nat → Trb) (posted executed : List Trb) (enqueue : Nat) (cycle : UInt32)
    (place : Place) : Prop where
  laps : Laps 255 Trb.cycleBit lapBit (entries mem cmdRingPhys) posted executed
  plain : ∀ t ∈ posted, t.trbType ≠ Trb.trbLink
  atEnqueue : enqueue = cmdRingPhys + 16 * (posted.length % 255)
  onLap : cycle = lapBit (posted.length / 255)
  link : 255 ≤ posted.length →
    mem (cmdRingPhys + 16 * 255) = Trb.link cmdRingPhys (lapBit (posted.length / 255 - 1))
  atPlace : place = ⟨cmdRingPhys + 16 * (executed.length % 255), lapBit (executed.length / 255)⟩ ∨
    (0 < executed.length ∧ executed.length % 255 = 0 ∧ posted.length < executed.length + 255 ∧
      place = ⟨cmdRingPhys + 16 * 255, lapBit (executed.length / 255 - 1)⟩)

/-- Only the blocks of the ring matter. -/
theorem Commands.frame {mem mem' : Nat → Trb} {posted executed : List Trb} {enqueue : Nat}
    {cycle : UInt32} {place : Place} (commands : Commands mem posted executed enqueue cycle place)
    (same : ∀ a, Ring.command.Inside a → mem' a = mem a) :
    Commands mem' posted executed enqueue cycle place := by
  refine ⟨commands.laps.congr (by omega) fun k within => same _ ?_, commands.plain,
    commands.atEnqueue, commands.onLap, fun some => ?_, commands.atPlace⟩
  · show cmdRingPhys ≤ cmdRingPhys + 16 * k ∧ cmdRingPhys + 16 * k < cmdRingPhys + 256 * 16
    omega
  · have inside : Ring.command.Inside (cmdRingPhys + 16 * 255) := by
      show cmdRingPhys ≤ _ ∧ _ < cmdRingPhys + 256 * 16
      omega
    rw [same _ inside]
    exact commands.link some

/-- Room for another command: the ring is not full, and posting does not overtake a link that the
controller has yet to follow. -/
def System.Room (s : System) : Prop :=
  s.posted.length < s.executed.length + 255 ∧
    (s.cmdPlace.addr = cmdRingPhys + 16 * 255 → s.posted.length + 1 < s.executed.length + 255)

def System.CommandsInStep (s : System) : Prop :=
  Commands s.mem s.posted s.executed s.cmdEnqueue s.cmdCycle s.cmdPlace

variable {s : System}

theorem postCmd_wraps {t : Trb} (wraps : cmdRingPhys + 255 * 16 ≤ s.cmdEnqueue + 16) :
    s.postCmd t = { s with
      mem := Function.update (Function.update s.mem s.cmdEnqueue t) (s.cmdEnqueue + 16)
        (Trb.link cmdRingPhys s.cmdCycle)
      writes := (.command, s.cmdEnqueue + 16) :: (.command, s.cmdEnqueue) :: s.writes
      posted := s.posted ++ [t], cmdCycle := s.cmdCycle ^^^ 1, cmdEnqueue := cmdRingPhys } := by
  delta System.postCmd System.writeTrb
  dsimp only
  rw [if_pos wraps]

theorem postCmd_stays {t : Trb} (stays : ¬ cmdRingPhys + 255 * 16 ≤ s.cmdEnqueue + 16) :
    s.postCmd t = { s with
      mem := Function.update s.mem s.cmdEnqueue t, writes := (.command, s.cmdEnqueue) :: s.writes
      posted := s.posted ++ [t], cmdEnqueue := s.cmdEnqueue + 16 } := by
  delta System.postCmd System.writeTrb
  dsimp only
  rw [if_neg stays]

theorem postCmd_inStep (inStep : s.CommandsInStep) (room : s.Room) {t : Trb}
    (bit : t.cycleBit = s.cmdCycle) (plain : t.trbType ≠ Trb.trbLink) :
    (s.postCmd t).CommandsInStep := by
  have enqueue := inStep.atEnqueue
  have cycle := inStep.onLap
  obtain ⟨free, linkFree⟩ := room
  have laps := inStep.laps.writeNext free (bit.trans cycle)
  rw [← entries_update, ← enqueue] at laps
  have length : (s.posted ++ [t]).length = s.posted.length + 1 := by
    rw [List.length_append, List.length_singleton]
  have plain' : ∀ x ∈ s.posted ++ [t], x.trbType ≠ Trb.trbLink := by
    intro x member
    rcases List.mem_append.mp member with before | last
    · exact inStep.plain x before
    · rw [List.mem_singleton.mp last]
      exact plain
  have place : s.cmdPlace =
        ⟨cmdRingPhys + 16 * (s.executed.length % 255), lapBit (s.executed.length / 255)⟩ ∨
      (0 < s.executed.length ∧ s.executed.length % 255 = 0 ∧
        (s.posted ++ [t]).length < s.executed.length + 255 ∧
        s.cmdPlace = ⟨cmdRingPhys + 16 * 255, lapBit (s.executed.length / 255 - 1)⟩) := by
    rcases inStep.atPlace with entry | ⟨some, whole, _, atLink⟩
    · exact Or.inl entry
    · exact Or.inr ⟨some, whole, by rw [length]; exact linkFree (by rw [atLink]), atLink⟩
  by_cases wraps : cmdRingPhys + 255 * 16 ≤ s.cmdEnqueue + 16
  · rw [postCmd_wraps wraps, System.CommandsInStep]
    dsimp only
    have next : s.cmdEnqueue + 16 = cmdRingPhys + 16 * 255 := by omega
    have whole : (s.posted.length + 1) % 255 = 0 := by omega
    have lap : (s.posted.length + 1) / 255 = s.posted.length / 255 + 1 := by omega
    refine ⟨?_, plain', ?_, ?_, ?_, place⟩
    · refine laps.congr (by omega) (entries_elsewhere _ fun k inside => ?_)
      show cmdRingPhys + 16 * k ≠ s.cmdEnqueue + 16
      omega
    · rw [length, whole, Nat.mul_zero, Nat.add_zero]
    · rw [length, lap, lapBit_succ, cycle]
    · intro _
      rw [length, lap, next, Function.update_self, cycle, Nat.add_sub_cancel]
  · rw [postCmd_stays wraps, System.CommandsInStep]
    dsimp only
    have less : (s.posted.length + 1) % 255 = s.posted.length % 255 + 1 := by omega
    have lap : (s.posted.length + 1) / 255 = s.posted.length / 255 := by omega
    refine ⟨laps, plain', ?_, ?_, ?_, place⟩
    · rw [length, less, enqueue]
      omega
    · rw [length, lap, cycle]
    · intro some
      rw [length] at some
      rw [length, lap]
      rw [Function.update_of_ne (by omega)]
      exact inStep.link (by omega)

theorem cmdRingPhys_fits : cmdRingPhys < 2 ^ 64 := by
  unfold cmdRingPhys xhciDmaBase
  omega

theorem fetchCmd_spec (s : System) : s.fetchCmd = { s with
    cmdPlace := (System.fetch s.mem s.cmdPlace).2
    executed := s.executed ++ (System.fetch s.mem s.cmdPlace).1.toList } := rfl

/-- At an entry, the controller executes the next command, if any. -/
theorem fetchCmd_entry (inStep : s.CommandsInStep)
    (entry : s.cmdPlace =
      ⟨cmdRingPhys + 16 * (s.executed.length % 255), lapBit (s.executed.length / 255)⟩) :
    s.fetchCmd.CommandsInStep ∧
      s.fetchCmd.executed = s.executed ++ s.posted[s.executed.length]?.toList := by
  have read := fetch_entry inStep.laps (by omega) inStep.plain
  rw [← entry] at read
  rw [fetchCmd_spec, read]
  refine ⟨?_, rfl⟩
  rw [System.CommandsInStep]
  dsimp only
  by_cases more : s.executed.length < s.posted.length
  · have next := inStep.laps.next more
    have ahead := inStep.laps.ahead
    have laps := inStep.laps.readNext (by omega) lapBit_ne more
    rw [if_pos more, next, Option.toList_some]
    refine ⟨laps, inStep.plain, inStep.atEnqueue, inStep.onLap, inStep.link, ?_⟩
    rw [List.length_append, List.length_singleton]
    by_cases whole : (s.executed.length + 1) % 255 = 0
    · have address : cmdRingPhys + 16 * (s.executed.length % 255) + 16 =
          cmdRingPhys + 16 * 255 := by omega
      have lap : (s.executed.length + 1) / 255 - 1 = s.executed.length / 255 := by omega
      exact Or.inr ⟨by omega, whole, by omega, by rw [address, lap]⟩
    · have address : cmdRingPhys + 16 * (s.executed.length % 255) + 16 =
          cmdRingPhys + 16 * ((s.executed.length + 1) % 255) := by omega
      have lap : (s.executed.length + 1) / 255 = s.executed.length / 255 := by omega
      exact Or.inl (by rw [address, lap])
  · rw [if_neg more, List.getElem?_eq_none (Nat.le_of_not_lt more), Option.toList_none,
      List.append_nil]
    exact ⟨inStep.laps, inStep.plain, inStep.atEnqueue, inStep.onLap, inStep.link, Or.inl entry⟩

/-- At the link, the controller goes back to the first entry. -/
theorem fetchCmd_link (inStep : s.CommandsInStep) (some : 0 < s.executed.length)
    (whole : s.executed.length % 255 = 0) (near : s.posted.length < s.executed.length + 255)
    (atLink : s.cmdPlace = ⟨cmdRingPhys + 16 * 255, lapBit (s.executed.length / 255 - 1)⟩) :
    s.fetchCmd.CommandsInStep ∧ s.fetchCmd.executed = s.executed ∧
      s.fetchCmd.posted = s.posted ∧ s.fetchCmd.cmdPlace =
        ⟨cmdRingPhys + 16 * (s.executed.length % 255), lapBit (s.executed.length / 255)⟩ := by
  have behind := inStep.laps.behind
  have link := inStep.link (by omega)
  have lap : s.posted.length / 255 = s.executed.length / 255 := by omega
  obtain ⟨bit, kind, toggle, target⟩ := link_spec cmdRingPhys_fits (s.executed.length / 255 - 1)
  rw [lap] at link
  rw [← link] at bit kind toggle target
  have read := fetch_link (p := s.cmdPlace) (by rw [atLink]; exact bit) (by rw [atLink]; exact kind)
    (by rw [atLink]; exact toggle)
  have place : (System.fetch s.mem s.cmdPlace).2 =
      ⟨cmdRingPhys + 16 * (s.executed.length % 255), lapBit (s.executed.length / 255)⟩ := by
    rw [read, atLink, target, whole, ← lapBit_succ, Nat.sub_add_cancel (by omega), Nat.mul_zero,
      Nat.add_zero]
  have none : (System.fetch s.mem s.cmdPlace).1.toList = [] := by rw [read]; rfl
  rw [fetchCmd_spec, none, List.append_nil]
  refine ⟨?_, rfl, rfl, place⟩
  exact ⟨inStep.laps, inStep.plain, inStep.atEnqueue, inStep.onLap, inStep.link, Or.inl place⟩

theorem fetchCmd_inStep (inStep : s.CommandsInStep) : s.fetchCmd.CommandsInStep := by
  rcases inStep.atPlace with entry | ⟨some, whole, near, atLink⟩
  · exact (fetchCmd_entry inStep entry).1
  · exact (fetchCmd_link inStep some whole near atLink).1

/-- The controller executes the next command in one turn, or in two if it is at the link. -/
theorem fetchCmd_next (inStep : s.CommandsInStep) {t : Trb}
    (next : s.posted[s.executed.length]? = some t) :
    s.fetchCmd.executed = s.executed ++ [t] ∨
      s.fetchCmd.fetchCmd.executed = s.executed ++ [t] := by
  rcases inStep.atPlace with entry | ⟨some, whole, near, atLink⟩
  · left
    rw [(fetchCmd_entry inStep entry).2, next]
    rfl
  · right
    obtain ⟨inStep', executed, posted, place⟩ := fetchCmd_link inStep some whole near atLink
    rw [(fetchCmd_entry inStep' (by rw [place, executed])).2, posted, executed, next]
    rfl

end RustyPenguin.Usb
