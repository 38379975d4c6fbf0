import RustyPenguin.Foundation.Run
import RustyPenguin.Heap.Operations

/-!
# Runs of the desktop's heap

The heap over one arena, used by callers that hold the blocks `out`. A caller asks for a block,
gives back a block it holds, with the size it asked for, or stores into one. Nothing else
writes to the arena.

In every state of such a run whose sums stay inside the address space, the free blocks and the
blocks held tile the arena and no two free blocks touch. So when every block was given back
the free list is the arena again, and a request is answered as on the first day.
-/

set_option autoImplicit false

namespace RustyPenguin

/-- Memory that one object owns: not at address zero, and not up to the last address. -/
structure Arena where
  base : UInt64
  size : UInt64
  nonnull : base ≠ 0
  aligned : 16 ∣ base.toNat
  ends : base.toNat + size.toNat < 2 ^ 64

/-- The bytes of an arena the heap uses. -/
def Arena.usable (arena : Arena) : Nat := arena.size.toNat / 16 * 16

/-- The end of what the heap uses. -/
def Arena.limit (arena : Arena) : Nat := arena.base.toNat + arena.usable

theorem Arena.limit_lt (arena : Arena) : arena.limit < 2 ^ 64 := by
  have most : arena.usable ≤ arena.size.toNat := Nat.div_mul_le_self _ _
  have ends := arena.ends
  rw [Arena.limit]
  omega

namespace Heap

/-- What is done to a heap: its two operations, and a store into a block that is held. -/
inductive Op where
  | alloc (layout : Layout)
  | dealloc (ptr size : UInt64)
  | store (addr value : UInt64)

/-- A heap and the blocks held: where each lies, and the size asked for. -/
structure World where
  heap : Heap
  out : List (UInt64 × UInt64)

/-- The bytes of a block held. -/
def region (block : UInt64 × UInt64) : Extent := ⟨block.1.toNat, blockSize block.2.toNat⟩

/-- The heap of an arena before its first operation. -/
def World.start (arena : Arena) (mem : UInt64 → UInt64) : World where
  heap := (Heap.new mem).init arena.base arena.size
  out := []

def World.step (w : World) : Op → Option (UInt64 × World)
  | .alloc layout => (w.heap.alloc layout.size layout.align).map fun (ptr, heap) =>
      (ptr, ⟨heap, if ptr = 0 then w.out else (ptr, layout.size) :: w.out⟩)
  | .dealloc ptr size => (w.heap.dealloc ptr size).map fun heap =>
      (0, ⟨heap, w.out.erase (ptr, size)⟩)
  | .store addr value => some (0, ⟨w.heap.poke addr value, w.out⟩)

/-- What callers owe: they give back blocks they hold, and store only into those. -/
def World.Valid (w : World) : Op → Prop
  | .alloc _ => True
  | .dealloc ptr size => (ptr, size) ∈ w.out
  | .store addr _ => ∃ block ∈ w.out, (region block).start ≤ addr.toNat ∧
      addr.toNat < (region block).stop

/-- The sums a search makes stay inside the address space. -/
def World.Fits (w : World) : Op → Prop
  | .alloc layout => ∀ free, w.heap.FreeList free →
      Searchable (grain layout.align.toNat) (blockSize layout.size.toNat) free
  | .dealloc _ _ => True
  | .store _ _ => True

/-- The blocks and the counter of a heap in good order. -/
structure InOrder (arena : Arena) (w : World) (free : List Extent) : Prop where
  list : w.heap.FreeList free
  spaced : Extent.Spaced free
  grained : ∀ e ∈ free, Extent.Grained 16 e
  tiles : Extent.Tiles (free ++ w.out.map region) arena.base.toNat arena.limit
  live : w.heap.live.toNat = ((w.out.map region).map Extent.len).sum
  held : ∀ block ∈ w.out, 16 ∣ block.1.toNat ∧ block.2.toNat < 2 ^ 63

/-! ## The arena -/

theorem toNat_truncate (size : UInt64) : (size &&& ~~~(ALIGN - 1)).toNat = size.toNat / 16 * 16 := by
  have low : (ALIGN - 1).toNat = 2 ^ 4 - 1 := by decide
  rw [UInt64.toNat_and, UInt64.toNat_not, low]
  exact Unsigned.and_not_low size.toNat_lt

/-- The whole arena is one free block. -/
theorem start_list (arena : Arena) (mem : UInt64 → UInt64) :
    (World.start arena mem).heap.FreeList [⟨arena.base.toNat, arena.usable⟩] := by
  have ends := arena.ends
  have low := arena.aligned
  have other : arena.base ≠ arena.base + 8 := by
    intro same
    have second := toNat_next (a := arena.base) (by omega)
    have eq := congrArg UInt64.toNat same
    omega
  refine ⟨arena.nonnull, rfl, ?_, poke_self _ _ _⟩
  refine (toNat_truncate arena.size).symm.trans (congrArg UInt64.toNat ?_)
  exact ((poke_of_ne other _).trans (poke_self _ _ _)).symm

theorem start_inOrder (arena : Arena) (room : 16 ≤ arena.size.toNat) (mem : UInt64 → UInt64) :
    InOrder arena (World.start arena mem) [⟨arena.base.toNat, arena.usable⟩] where
  list := start_list arena mem
  spaced := List.pairwise_singleton _ _
  grained e isMember := by
    rw [List.mem_singleton] at isMember
    rw [isMember]
    refine ⟨arena.aligned, Nat.dvd_mul_left _ _, ?_⟩
    exact Nat.mul_pos (Nat.div_pos room (by decide)) (by decide)
  tiles x := by
    rw [World.start, List.map_nil, List.append_nil, Extent.cover_cons, Extent.cover_nil,
      Nat.add_zero]
    rfl
  live := rfl
  held _ isMember := nomatch isMember

variable {arena : Arena} {w w' : World} {free : List Extent}

theorem InOrder.within (order : InOrder arena w free) {e : Extent} (isMember : e ∈ free) :
    arena.base.toNat ≤ e.start ∧ e.stop ≤ arena.limit :=
  order.tiles.within (List.mem_append_left _ isMember) (order.grained e isMember).2.2

theorem InOrder.sound (order : InOrder arena w free) {e : Extent} (isMember : e ∈ free) :
    Sound e :=
  ⟨order.grained e isMember, Nat.lt_of_le_of_lt (order.within isMember).2 arena.limit_lt⟩

theorem region_grained {block : UInt64 × UInt64} (at_ : 16 ∣ block.1.toNat) :
    Extent.Grained 16 (region block) :=
  ⟨at_, dvd_blockSize _, blockSize_pos _⟩

theorem InOrder.region_within (order : InOrder arena w free) {block : UInt64 × UInt64}
    (isMember : block ∈ w.out) :
    arena.base.toNat ≤ (region block).start ∧ (region block).stop ≤ arena.limit :=
  order.tiles.within (List.mem_append_right _ (List.mem_map_of_mem isMember)) (blockSize_pos _)

theorem InOrder.region_sound (order : InOrder arena w free) {block : UInt64 × UInt64}
    (isMember : block ∈ w.out) : Sound (region block) :=
  ⟨region_grained (order.held block isMember).1,
    Nat.lt_of_le_of_lt (order.region_within isMember).2 arena.limit_lt⟩

/-- A free block and a block held have no byte in common. -/
theorem InOrder.apart (order : InOrder arena w free) {block : UInt64 × UInt64} {e : Extent}
    (isHeld : block ∈ w.out) (isFree : e ∈ free) : Extent.Apart (region block) e := by
  refine Extent.apart_of_count (blockSize_pos _) (order.grained e isFree).2.2 fun x => ?_
  have once := order.tiles x
  have first := Extent.count_le_cover isFree x
  have second := Extent.count_le_cover (List.mem_map_of_mem (f := region) isHeld) x
  rw [Extent.cover_append] at once
  split at once
  · omega
  · omega

/-! ## One operation -/

theorem Arena.ordered (arena : Arena) : arena.base.toNat ≤ arena.limit := Nat.le_add_right _ _

theorem arena_positive (arena : Arena) : 0 < arena.base.toNat :=
  Nat.pos_of_ne_zero fun zero => arena.nonnull (UInt64.toNat_inj.mp zero)

/-- What is held, and what is free, is no more than the arena. -/
theorem InOrder.total (order : InOrder arena w free) :
    ((free ++ w.out.map region).map Extent.len).sum = arena.usable := by
  have lengths : ∀ e ∈ free ++ w.out.map region, 0 < e.len := by
    intro e isMember
    rcases List.mem_append.mp isMember with isFree | isHeld
    · exact (order.grained e isFree).2.2
    · obtain ⟨block, _, rfl⟩ := List.mem_map.mp isHeld
      exact blockSize_pos _
  rw [order.tiles.sum_len (Arena.ordered arena) lengths, Arena.limit, Nat.add_sub_cancel_left]

/-- A request that finds room: the piece moves from the free blocks to those held. -/
theorem InOrder.alloc {layout : Layout} {p : Nat} {free' : List Extent} {payload : UInt64}
    {h' : Heap} (order : InOrder arena w free)
    (carved : Extent.carve (roundUp (grain layout.align.toNat)) (blockSize layout.size.toNat) free =
      some (p, free')) (value : payload.toNat = p) (list : h'.FreeList free')
    (live : h'.live = w.heap.live + roundBlock layout.size) :
    InOrder arena ⟨h', (payload, layout.size) :: w.out⟩ free' := by
  obtain ⟨align, k, _, grainValue, power, whole⟩ := layout.grain_spec
  have positive : 0 < grain layout.align.toNat := grainValue ▸ power ▸ Nat.two_pow_pos k
  have need := toNat_roundBlock layout.size_lt
  have aligned : ∀ s, 16 ∣ roundUp (grain layout.align.toNat) s := fun s =>
    Nat.dvd_trans (grainValue ▸ whole) (dvd_roundUp _ s)
  have grained := Extent.grained_carve order.grained aligned (dvd_blockSize _) carved
  have piece : region (payload, layout.size) = ⟨p, blockSize layout.size.toNat⟩ := by
    rw [region, value]
  have tiles : Extent.Tiles (free' ++ ((payload, layout.size) :: w.out).map region)
      arena.base.toNat arena.limit := by
    intro x
    have before := order.tiles x
    have taken := Extent.cover_carve (le_roundUp positive) carved x
    rw [List.map_cons, piece, Extent.cover_append, Extent.cover_cons]
    rw [Extent.cover_append] at before
    omega
  have placed : 16 ∣ payload.toNat := by
    obtain ⟨_, b, _, _, start, _⟩ := Extent.carve_some carved
    exact value.symm ▸ start.symm ▸ aligned b.start
  refine ⟨list, order.spaced.carve (le_roundUp positive) (blockSize_pos _) carved, grained, tiles,
    ?_, ?_⟩
  · have lengths : ∀ e ∈ free' ++ ((payload, layout.size) :: w.out).map region, 0 < e.len := by
      intro e isMember
      rcases List.mem_append.mp isMember with isFree | isHeld
      · exact (grained e isFree).2.2
      · obtain ⟨block, _, rfl⟩ := List.mem_map.mp isHeld
        exact blockSize_pos _
    have total := tiles.sum_len (Arena.ordered arena) lengths
    have small := arena.limit_lt
    have liveWas := order.live
    rw [List.map_append, List.sum_append, List.map_cons, List.map_cons, List.sum_cons] at total
    rw [List.map_cons, List.map_cons, List.sum_cons, live, UInt64.toNat_add, need, liveWas]
    simp only [region] at *
    omega
  · intro block isMember
    cases isMember with
    | head => exact ⟨placed, layout.size_lt⟩
    | tail _ later => exact order.held block later

/-- A block given back moves from those held to the free ones. -/
theorem InOrder.dealloc {ptr size : UInt64} {h' : Heap} (order : InOrder arena w free)
    (isHeld : (ptr, size) ∈ w.out)
    (list : h'.FreeList (Extent.restore ⟨ptr.toNat, blockSize size.toNat⟩ free))
    (live : h'.live = w.heap.live - roundBlock size) :
    InOrder arena ⟨h', w.out.erase (ptr, size)⟩
      (Extent.restore ⟨ptr.toNat, blockSize size.toNat⟩ free) := by
  have need := toNat_roundBlock (order.held _ isHeld).2
  have same := (List.perm_cons_erase isHeld).map region
  have lengths : ∀ e ∈ free, 0 < e.len := fun e isFree => (order.grained e isFree).2.2
  refine ⟨list, ?_, ?_, ?_, ?_, fun block isMember => order.held block (List.mem_of_mem_erase isMember)⟩
  · exact Extent.Spaced.restore (blockSize_pos _) order.spaced lengths fun e isFree =>
      order.apart isHeld isFree
  · exact Extent.grained_restore (region_grained (order.held _ isHeld).1) order.grained
  · intro x
    have before := order.tiles x
    rw [Extent.cover_append, Extent.cover_perm same, List.map_cons, Extent.cover_cons] at before
    rw [Extent.cover_append, Extent.cover_restore]
    simp only [region] at *
    omega
  · have sums := ((same.map Extent.len).sum_eq).symm
    have liveWas := order.live
    rw [← sums, List.map_cons, List.map_cons, List.sum_cons] at liveWas
    have held : roundBlock size ≤ w.heap.live := by
      rw [UInt64.le_iff_toNat_le, need, liveWas]
      exact Nat.le_add_right _ _
    rw [live, UInt64.toNat_sub_of_le _ _ held, need, liveWas]
    exact Nat.add_sub_cancel_left (blockSize size.toNat) _

/-- A store into a block that is held leaves the free list alone. -/
theorem InOrder.store {block : UInt64 × UInt64} {addr : UInt64} (order : InOrder arena w free)
    (isHeld : block ∈ w.out) (low : (region block).start ≤ addr.toNat)
    (high : addr.toNat < (region block).stop) (value : UInt64) :
    InOrder arena ⟨w.heap.poke addr value, w.out⟩ free := by
  refine { order with list := ?_ }
  refine Seg.untouched (untouched_poke low high value) order.list (fun e => order.sound) ?_
  intro e isFree
  exact Or.symm (order.apart isHeld isFree)

/-- **Every operation returns and keeps the heap in order.** -/
theorem InOrder.step (order : InOrder arena w free) {op : Op} (valid : w.Valid op)
    (fits : w.Fits op) : ∃ a w' free', w.step op = some (a, w') ∧ InOrder arena w' free' := by
  cases op with
  | alloc layout =>
    have found := alloc_spec order.list order.spaced (fun e => order.sound) layout
      (fits free order.list)
    cases carved : Extent.carve (roundUp (grain layout.align.toNat))
        (blockSize layout.size.toNat) free with
    | none =>
      rw [carved] at found
      exact ⟨0, w, free, congrArg (Option.map _) found, order⟩
    | some taken =>
      obtain ⟨p, free'⟩ := taken
      rw [carved] at found
      obtain ⟨payload, h', answers, value, list, live⟩ := found
      have next := order.alloc carved value list live
      have nonzero : payload ≠ 0 := by
        rintro rfl
        have within := next.region_within List.mem_cons_self
        have positive := arena_positive arena
        exact Nat.not_lt.mpr within.1 positive
      refine ⟨payload, _, free', congrArg (Option.map _) answers, ?_⟩
      rw [if_neg nonzero]
      exact next
  | dealloc ptr size =>
    have sound := order.region_sound valid
    have nonzero : ptr ≠ 0 := by
      rintro rfl
      have within := order.region_within valid
      have positive := arena_positive arena
      exact Nat.not_lt.mpr within.1 positive
    obtain ⟨h', answers, list, live⟩ := dealloc_spec order.list order.spaced (fun e => order.sound)
      (order.held _ valid).2 nonzero sound fun e isFree => order.apart valid isFree
    exact ⟨0, _, _, congrArg (Option.map _) answers, order.dealloc valid list live⟩
  | store addr value =>
    obtain ⟨block, isHeld, low, high⟩ := valid
    exact ⟨0, _, free, rfl, order.store isHeld low high value⟩

/-- A list in memory is read in one way. -/
theorem Seg.unique {m : UInt64 → UInt64} {a : UInt64} {es fs : List Extent} (first : Seg m a es 0)
    (second : Seg m a fs 0) : es = fs := by
  induction es generalizing a fs with
  | nil =>
    cases fs with
    | nil => rfl
    | cons f fs => exact absurd first second.1
  | cons e es ih =>
    cases fs with
    | nil => exact absurd second first.1
    | cons f fs =>
      obtain ⟨_, eStart, eLen, eRest⟩ := first
      obtain ⟨_, fStart, fLen, fRest⟩ := second
      rw [ih eRest fRest]
      refine congrArg (· :: fs) ?_
      obtain ⟨s, n⟩ := e
      obtain ⟨s', n'⟩ := f
      simp only at eStart eLen fStart fLen
      rw [eStart, eLen, fStart, fLen]

theorem allSteps_eq : allSteps = (2 ^ 64 - 2) + 2 := by
  rw [allSteps]
  decide

/-- **Every sum fits** in an arena with room for the request above it, as every arena in the
lower half of the address space has for every request. -/
theorem InOrder.fits (order : InOrder arena w free) {layout : Layout}
    (room : arena.limit + grain layout.align.toNat + blockSize layout.size.toNat ≤ 2 ^ 64) :
    w.Fits (.alloc layout) := by
  obtain ⟨align, k, _, grainValue, power, _⟩ := layout.grain_spec
  intro free' list
  rw [list.unique order.list]
  refine searchable_of_below (grainValue ▸ power ▸ Nat.two_pow_pos k) room fun e isFree => ?_
  have within := order.within isFree
  have positive := (order.grained e isFree).2.2
  simp only [Extent.stop] at within
  omega

/-! ## Runs -/

/-- What callers owe, in states where the sums fit. -/
def World.Allowed (w : World) (op : Op) : Prop := w.Valid op ∧ w.Fits op

/-- **Every state of a run is in order.** -/
theorem run_inOrder {mem : UInt64 → UInt64} {history : List (Op × UInt64)}
    (room : 16 ≤ arena.size.toNat)
    (run : Run World.step World.Allowed (World.start arena mem) history w) :
    ∃ free, InOrder arena w free := by
  refine run.invariant (P := fun w => ∃ free, InOrder arena w free)
    ⟨_, start_inOrder arena room mem⟩ ?_
  rintro s op a s' ⟨free, order⟩ ⟨valid, fits⟩ done
  obtain ⟨_, _, free', answers, next⟩ := order.step valid fits
  rw [answers] at done
  cases done
  exact ⟨free', next⟩

/-- The free list and the counter as the heap's text promises them: in address order and apart,
each block in the arena, aligned and of a positive number of 16-byte units, the free blocks and
the blocks held a partition of the arena, and the counter the sum of what is held. -/
def Sorted (arena : Arena) (w : World) : Prop :=
  ∃ free, w.heap.FreeList free ∧ Extent.Spaced free ∧
    (∀ e ∈ free, arena.base.toNat ≤ e.start ∧ e.stop ≤ arena.limit ∧ 16 ∣ e.start ∧ 16 ∣ e.len ∧
      0 < e.len) ∧
    Extent.Tiles (free ++ w.out.map region) arena.base.toNat arena.limit ∧
    w.heap.live.toNat = ((w.out.map region).map Extent.len).sum

/-- An arena of one page at address 4096. -/
def lowArena : Arena where
  base := 4096
  size := 4096
  nonnull := by decide
  aligned := by decide
  ends := by decide

/-- Sixteen bytes, at a multiple of sixteen. -/
def smallLayout : Layout where
  size := 16
  align := 16
  power := ⟨4, by decide⟩
  fits := by decide

theorem low_allowed (mem : UInt64 → UInt64) :
    (World.start lowArena mem).Allowed (.alloc smallLayout) :=
  ⟨trivial, (start_inOrder lowArena (by decide) mem).fits (by decide)⟩

/-- An arena of one page, two gigabytes below the top of the address space. -/
def highArena : Arena where
  base := 0xFFFFFFFF80000000
  size := 4096
  nonnull := by decide
  aligned := by decide
  ends := by decide

/-- Sixteen bytes, at a multiple of four gigabytes. -/
def wideLayout : Layout where
  size := 16
  align := 0x100000000
  power := ⟨32, by decide⟩
  fits := by decide

/-- A first block that passes the test is taken. -/
theorem allocFrom_first {h : Heap} {need align : UInt64} (fuel : Nat) (nonzero : h.head ≠ 0)
    (room : alignUp h.head align + need ≤ h.head + h.sizeOf h.head) :
    ∃ h', h.allocFrom need align (fuel + 1) 0 h.head = some (alignUp h.head align, h') ∧
      h'.live = h.live + need := by
  rw [allocFrom_step h need align fuel 0 nonzero]
  refine ⟨_, if_pos room, ?_⟩
  simp only [split, live_relink, live_leave]

/-- The place for the piece wraps to address zero, which the search takes for room. -/
theorem high_alloc : ∃ w, (World.start highArena fun _ => 0).step (.alloc wideLayout) =
    some (0, w) ∧ w.out = [] ∧ w.heap.live = 16 := by
  obtain ⟨h', found, live⟩ := allocFrom_first (2 ^ 64 - 2 + 1)
    (show (World.start highArena fun _ => 0).heap.head ≠ 0 from highArena.nonnull)
    (show alignUp highArena.base wideLayout.align + roundBlock wideLayout.size ≤
      highArena.base + (World.start highArena fun _ => 0).heap.sizeOf highArena.base by decide)
  have wrapped : alignUp highArena.base wideLayout.align = 0 := by decide
  have answers : (World.start highArena fun _ => 0).heap.alloc wideLayout.size wideLayout.align =
      some (alignUp highArena.base wideLayout.align, h') := by
    rw [alloc, allSteps_eq]
    exact found
  rw [wrapped] at answers
  exact ⟨_, congrArg (Option.map _) answers, rfl, live.trans (by decide)⟩

/-- The answer of a search in a list of one block depends on that block alone. -/
theorem allocFrom_single {h : Heap} {need align : UInt64} {b : Extent} (list : h.FreeList [b])
    (fuel : Nat) : (h.allocFrom need align (fuel + 2) 0 h.head).map Prod.fst =
      if alignUp h.head align + need ≤ h.head + h.sizeOf h.head then
        some (alignUp h.head align)
      else some 0 := by
  obtain ⟨nonzero, _, _, ends⟩ := list
  have last : h.nextOf h.head = 0 := ends
  rw [allocFrom_step h need align (fuel + 1) 0 nonzero]
  split
  · rfl
  · rw [allocFrom_end h need align fuel last]
    rfl

theorem allocFrom_full {h : Heap} {need align : UInt64} {b : Extent} (list : h.FreeList [b])
    (full : ¬ alignUp h.head align + need ≤ h.head + h.sizeOf h.head) (fuel : Nat) :
    h.allocFrom need align (fuel + 2) 0 h.head = some (0, h) := by
  obtain ⟨nonzero, _, _, ends⟩ := list
  have last : h.nextOf h.head = 0 := ends
  rw [allocFrom_step h need align (fuel + 1) 0 nonzero, if_neg full,
    allocFrom_end h need align fuel last]

theorem alloc_congr {h h' : Heap} {b : Extent} (list : h.FreeList [b]) (list' : h'.FreeList [b])
    (size align : UInt64) :
    (h.alloc size align).map Prod.fst = (h'.alloc size align).map Prod.fst := by
  obtain ⟨_, start, len, _⟩ := id list
  obtain ⟨_, start', len', _⟩ := id list'
  have sameHead : h.head = h'.head := UInt64.toNat_inj.mp (start.symm.trans start')
  have sameSize : h.sizeOf h.head = h'.sizeOf h'.head := UInt64.toNat_inj.mp (len.symm.trans len')
  rw [alloc, alloc, allSteps_eq, allocFrom_single list, allocFrom_single list', sameSize, sameHead]

/-- A heap in order with nothing held is one free block. -/
theorem InOrder.drained (order : InOrder arena w free) (room : 16 ≤ arena.size.toNat)
    (none : w.out = []) : free = [⟨arena.base.toNat, arena.usable⟩] := by
  have tiles := order.tiles
  rw [none, List.map_nil, List.append_nil] at tiles
  have positive : 0 < arena.usable := Nat.mul_pos (Nat.div_pos room (by decide)) (by decide)
  have some : arena.base.toNat < arena.limit := Nat.lt_add_of_pos_right positive
  rw [Extent.eq_single_of_tiles some tiles order.spaced fun e isFree => (order.grained e isFree).2.2,
    Arena.limit, Nat.add_sub_cancel_left]

/-- In an arena without room for one unit nothing is ever handed out. -/
theorem run_small {mem : UInt64 → UInt64} {history : List (Op × UInt64)}
    (small : arena.size.toNat < 16)
    (run : Run World.step World.Allowed (World.start arena mem) history w) :
    w = World.start arena mem := by
  refine run.invariant (P := fun w => w = World.start arena mem) rfl ?_
  rintro s op a s' rfl ⟨valid, fits⟩ done
  have nothing : arena.usable = 0 := by
    rw [Arena.usable, Nat.div_eq_of_lt small]
  cases op with
  | alloc layout =>
    obtain ⟨align, k, choice, grainValue, power, _⟩ := layout.grain_spec
    have list := start_list arena mem
    have inside : roundUp (grain layout.align.toNat) arena.base.toNat +
        blockSize layout.size.toNat < 2 ^ 64 := (fits _ list).1
    have positive := blockSize_pos layout.size.toNat
    rw [nothing] at list
    have full : ¬ alignUp arena.base align + roundBlock layout.size ≤
        arena.base + (World.start arena mem).heap.sizeOf arena.base := by
      obtain ⟨_, _, len, _⟩ := list
      have above := le_roundUp (power ▸ Nat.two_pow_pos k : 0 < align.toNat) arena.base.toNat
      have empty : (World.start arena mem).heap.sizeOf arena.base = 0 :=
        UInt64.toNat_inj.mp len.symm
      rw [← grainValue] at inside
      rw [empty, UInt64.add_zero, UInt64.le_iff_toNat_le, UInt64.toNat_add,
        toNat_alignUp power (Nat.lt_of_le_of_lt (Nat.le_add_right _ _) inside),
        toNat_roundBlock layout.size_lt, Nat.mod_eq_of_lt inside]
      omega
    have answers : (World.start arena mem).heap.alloc layout.size layout.align =
        some (0, (World.start arena mem).heap) := by
      rw [alloc, ← choice, allSteps_eq]
      exact allocFrom_full list full _
    rw [World.step, answers] at done
    cases done
    rfl
  | dealloc ptr size => cases valid
  | store addr value =>
    obtain ⟨_, isHeld, _⟩ := valid
    cases isHeld

end Heap

end RustyPenguin
